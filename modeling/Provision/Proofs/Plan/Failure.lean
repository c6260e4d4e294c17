import Provision.Plan.Basic
import Provision.Proofs.Plan.Keys

/-!
# Settings without a plan

Exactly which settings have no plan on a host, and why. Only the keys can keep a plan from being
made: the public key when it is a file that cannot be read, and the private keys when there are none
in their list, when one is missing, or when one cannot be read, in this order. Networks, ports,
copied files, folders, sites, services and databases never do.
-/

namespace Provision.Settings

open Attempt

variable {s : Settings} {host : Host} {o : PlanOptions} {e : Error}

/-- Whether the public key is a regular file that cannot be read. -/
def AuthorizeUnreadable (s : Settings) (host : Host) (o : PlanOptions) : Prop :=
  ∃ raw, s.authorize = some raw ∧ host.hasUnreadable (host.expand raw o.base) = true

/-- The settings have no plan on the host, for the reason given. -/
inductive Fails (s : Settings) (host : Host) (o : PlanOptions) : Error → Prop
  | authorizeUnreadable {raw : String} (hset : s.authorize = some raw)
      (hbroken : host.hasUnreadable (host.expand raw o.base) = true) :
      Fails s host o (.readFailed (host.expand raw o.base) .invalidData)
  | noKeys (hauthorize : ¬s.AuthorizeUnreadable host o) (hset : s.keys = some []) :
      Fails s host o .noPrivateKeys
  /-- The first key that is no regular file, whether or not those before it can be read. -/
  | keyMissing {keys : List String} {raw : String} (hauthorize : ¬s.AuthorizeUnreadable host o)
      (hset : s.keys = some keys)
      (hfirst : keys.find? (fun key => !host.hasFile (host.expand key o.base)) = some raw) :
      Fails s host o (.privateKeyNotFound (host.expand raw o.base))
  /-- The first key that cannot be read, all being regular files. -/
  | keyUnreadable {keys : List String} {raw : String} (hauthorize : ¬s.AuthorizeUnreadable host o)
      (hset : s.keys = some keys)
      (hfiles : ∀ key ∈ keys, host.hasFile (host.expand key o.base) = true)
      (hfirst : keys.find? (fun key => host.hasUnreadable (host.expand key o.base)) = some raw) :
      Fails s host o (.readFailed (host.expand raw o.base) .invalidData)

/-- Only the keys can keep a plan from being made, the public one first. -/
theorem plan_eq_error_iff_keys : s.plan host o = .error e ↔
    s.planAuthorizedKey host o = .error e ∨
      ¬s.AuthorizeUnreadable host o ∧ s.planPrivateKeys host o = .error e := by
  have hauthorize : (∃ authorized, s.planAuthorizedKey host o = .ok authorized) ↔
      ¬s.AuthorizeUnreadable host o := by
    constructor
    · intro hok hunreadable
      obtain ⟨_, h⟩ := hok
      obtain ⟨raw, hset, hbroken⟩ := hunreadable
      have herror := planAuthorizedKey_eq_error_iff.mpr ⟨raw, hset, hbroken, rfl⟩
      rw [h] at herror
      cases herror
    · intro hreadable
      apply exists_eq_ok_of_forall_ne_error
      intro e h
      obtain ⟨raw, hset, hbroken, -⟩ := planAuthorizedKey_eq_error_iff.mp h
      exact hreadable ⟨raw, hset, hbroken⟩
  -- normalizing changes neither kind of key
  show (s.planAuthorizedKey host o >>= fun _ => s.planPrivateKeys host o >>= fun _ => _) = _ ↔ _
  rw [bind_eq_error_iff, ← hauthorize, ← exists_and_right]
  refine or_congr_right (exists_congr fun _ => and_congr_right fun _ => ?_)
  exact bind_ok_eq_error_iff

/-- Planning fails with an error exactly if that error is the first one due. -/
theorem plan_eq_error_iff_fails : s.plan host o = .error e ↔ s.Fails host o e := by
  rw [plan_eq_error_iff_keys, planAuthorizedKey_eq_error_iff, planPrivateKeys_eq_error_iff]
  constructor
  · intro h
    rcases h with ⟨raw, hset, hbroken, rfl⟩ | ⟨hauthorize, keys, hset, h⟩
    · exact .authorizeUnreadable hset hbroken
    · rcases h with ⟨rfl, rfl⟩ | ⟨raw, hfirst, rfl⟩ | ⟨hfiles, raw, hfirst, rfl⟩
      · exact .noKeys hauthorize hset
      · exact .keyMissing hauthorize hset hfirst
      · exact .keyUnreadable hauthorize hset hfiles hfirst
  · intro h
    cases h with
    | authorizeUnreadable hset hbroken => exact .inl ⟨_, hset, hbroken, rfl⟩
    | noKeys hauthorize hset => exact .inr ⟨hauthorize, [], hset, .inl ⟨rfl, rfl⟩⟩
    | keyMissing hauthorize hset hfirst =>
      exact .inr ⟨hauthorize, _, hset, .inr (.inl ⟨_, hfirst, rfl⟩)⟩
    | keyUnreadable hauthorize hset hfiles hfirst =>
      exact .inr ⟨hauthorize, _, hset, .inr (.inr ⟨hfiles, _, hfirst, rfl⟩)⟩

/-- Planning fails exactly for these reasons, with the first one of them as its error; otherwise
there is a plan. -/
theorem plan_eq_error_iff (s : Settings) (host : Host) (o : PlanOptions) :
    (∀ e, s.plan host o = .error e ↔ s.Fails host o e) ∧
      ((∀ e, ¬s.Fails host o e) → ∃ plan, s.plan host o = .ok plan) := by
  constructor
  · intro e
    exact plan_eq_error_iff_fails
  · intro hnot
    apply exists_eq_ok_of_forall_ne_error
    intro e h
    exact hnot e (plan_eq_error_iff_fails.mp h)

-- a missing key is reported although the one before it cannot be read
example : { blank with keys := some ["bad", "gone"] }.plan
    ⟨⟨[(["p"], .directory), (["p", "bad"], .file none)]⟩, "/home", [], none⟩
    (.of "/p" "/p/scripts") = .error (.privateKeyNotFound "/p/gone") := rfl

end Provision.Settings
