import Mathlib.Data.List.Forall2
import Provision.Proofs.Settings.Defaults

/-!
# What normalizing fills in

Normalizing fills the fields that are not set, one by one, and touches no other: the machine's from
the defaults, the ports of a mapping from its older fields, and what every mapping and site needs
from built-in values. What is set stays set, but for older names of site types, which give way to the
types they stand for.
-/

namespace Provision

/-- A field that was filled: what was set is still set, and otherwise it is as `fallback` is. -/
structure Filled {α : Type} (before fallback after : Option α) : Prop where
  kept : ∀ a, before = some a → after = some a
  filled : before = none → after = fallback

theorem filled_or {α : Type} (before fallback : Option α) :
    Filled before fallback (before.or fallback) where
  kept := by
    intro a h
    rw [h, Option.some_or]
  filled := by
    intro h
    rw [h, Option.none_or]

/-- A field with a default is set in any case. -/
theorem Filled.eq_some {α : Type} {before after : Option α} {fallback : α}
    (h : Filled before (some fallback) after) : after = some (before.getD fallback) := by
  cases hbefore : before with
  | none => rw [h.filled hbefore, Option.getD_none]
  | some a => rw [h.kept a hbefore, Option.getD_some]

/-! ## Ports and sites -/

/-- A mapping with its older fields in the place of unset ones, and with a protocol. -/
structure PortMapping.FilledFrom (before after : PortMapping) : Prop where
  guest : Filled before.guest before.formerGuest after.guest
  host : Filled before.host before.formerHost after.host
  protocol : Filled before.protocol (some "tcp") after.protocol
  others : after = { before with
    guest := after.guest, host := after.host, protocol := after.protocol }

/-- Normalizing a mapping fills it and changes nothing else. -/
theorem PortMapping.filledFrom_normalized (mapping : PortMapping) :
    mapping.FilledFrom mapping.normalized where
  guest := filled_or mapping.guest mapping.formerGuest
  host := filled_or mapping.host mapping.formerHost
  protocol := filled_or mapping.protocol (some "tcp")
  others := rfl

/-- A site with a type, a port and a port for TLS. The only type that changes is an older name. -/
structure Site.FilledFrom (before after : Site) : Prop where
  kind : after.kind = some (if before.kind = some "symfony" then "symfony2"
    else before.kind.getD "apache")
  /-- No type is an older name of another. -/
  current : ∀ entry ∈ siteTypeAliases, after.kind ≠ some entry.1
  port : Filled before.port (some "80") after.port
  ssl : Filled before.ssl (some "443") after.ssl
  others : after = { before with kind := after.kind, port := after.port, ssl := after.ssl }

/-- The only older name of a site type is symfony, which stands for symfony2. -/
theorem canonicalSiteType_eq (kind : String) :
    canonicalSiteType kind = if kind = "symfony" then "symfony2" else kind := by
  unfold canonicalSiteType siteTypeAliases
  rw [List.lookup_cons]
  by_cases hold : kind = "symfony"
  · rw [if_pos hold, hold]
    rfl
  · rw [if_neg hold, beq_eq_false_iff_ne.mpr hold]
    rfl

theorem canonicalSiteType_ne {entry : String × String} (h : entry ∈ siteTypeAliases)
    (kind : String) : canonicalSiteType kind ≠ entry.1 := by
  intro heq
  have hfound : ∀ entry ∈ siteTypeAliases, siteTypeAliases.lookup entry.1 ≠ none := by decide
  -- the older name would stand for itself
  have hself := canonicalSiteType_canonicalSiteType kind
  rw [heq] at hself
  cases hlookup : siteTypeAliases.lookup entry.1 with
  | none => exact hfound entry h hlookup
  | some current =>
    have hcurrent := lookup_siteTypeAliases hlookup
    unfold canonicalSiteType at hself
    rw [hlookup, Option.getD_some] at hself
    rw [hself] at hcurrent
    exact hfound entry h hcurrent

/-- Normalizing a site fills it and changes nothing else. -/
theorem Site.filledFrom_normalized (site : Site) : site.FilledFrom site.normalized where
  kind := by
    show some (canonicalSiteType (site.kind.getD "apache")) = _
    rw [canonicalSiteType_eq]
    cases site.kind with
    | none => rfl
    | some kind => simp
  current := by
    intro entry hentry heq
    exact canonicalSiteType_ne hentry _ (Option.some.inj heq)
  port := filled_or site.port (some "80")
  ssl := filled_or site.ssl (some "443")
  others := rfl

/-! ## Settings -/

/-- Settings in which defaults have filled what was not set: the machine's fields, and whatever a
mapping or a site needs. All else is as it was. -/
structure Settings.FilledFrom (before : Settings) (defaults : Defaults) (after : Settings) :
    Prop where
  provider : Filled before.provider (some defaults.provider) after.provider
  name : Filled before.name (some defaults.name) after.name
  box : Filled before.box (some defaults.box) after.box
  version : Filled before.version (some defaults.version) after.version
  ip : Filled before.ip (some defaults.ip) after.ip
  memory : Filled before.memory (some defaults.memory) after.memory
  cpus : Filled before.cpus (some defaults.cpus) after.cpus
  natdnshostresolver :
    Filled before.natdnshostresolver (some defaults.natdnshostresolver) after.natdnshostresolver
  /-- Each mapping is in the place it was in. -/
  ports : List.Forall₂ PortMapping.FilledFrom before.ports after.ports
  sites : List.Forall₂ Site.FilledFrom before.sites after.sites
  others : after = { before with
    provider := after.provider, name := after.name, box := after.box, version := after.version,
    ip := after.ip, memory := after.memory, cpus := after.cpus,
    natdnshostresolver := after.natdnshostresolver, ports := after.ports, sites := after.sites }

theorem forall₂_map_self {α β : Type} {R : α → β → Prop} {f : α → β} (h : ∀ a, R a (f a))
    (as : List α) : List.Forall₂ R as (as.map f) := by
  rw [List.forall₂_map_right_iff, List.forall₂_same]
  intro a _
  exact h a

/-- Normalizing settings with defaults fills them from these and changes nothing else. -/
theorem Settings.filledFrom_normalizedWith (s : Settings) (defaults : Defaults) :
    s.FilledFrom defaults (s.normalizedWith defaults) where
  provider := filled_or s.provider _
  name := filled_or s.name _
  box := filled_or s.box _
  version := filled_or s.version _
  ip := filled_or s.ip _
  memory := filled_or s.memory _
  cpus := filled_or s.cpus _
  natdnshostresolver := filled_or s.natdnshostresolver _
  ports := forall₂_map_self PortMapping.filledFrom_normalized s.ports
  sites := forall₂_map_self Site.filledFrom_normalized s.sites
  others := rfl

end Provision
