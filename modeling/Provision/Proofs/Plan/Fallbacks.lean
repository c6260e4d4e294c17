import Provision.Proofs.Plan.Blocks

/-!
# What planning falls back to

A plan is made of settings that have been normalized, but what is planned for sites and ports has
fallbacks of its own for what is not set. They are the values that normalizing fills in: the sites
are planned alike either way. So are the ports, unless an older field stands in for one that is not
set, since planning takes no notice of the older fields.
-/

namespace Provision

/-! ## Sites -/

/-- Normalizing makes no difference to the scripts of sites. -/
theorem Settings.planSites_of_normalized (s : Settings) (o : PlanOptions) :
    s.normalized.planSites o = s.planSites o := by
  show (s.sites.map Site.normalized).flatMap _ = s.sites.flatMap _
  rw [List.flatMap_map]
  refine List.flatMap_congr fun site _ => ?_
  rw [site.planSetup_normalized, site.planSchedule_normalized]

/-! ## Ports -/

/-- Whether no older field of a mapping stands in for a current one that is not set. -/
structure PortMapping.IsCurrent (mapping : PortMapping) : Prop where
  guest : mapping.guest = none → mapping.formerGuest = none
  host : mapping.host = none → mapping.formerHost = none

/-- A former field adds nothing exactly if it is unset where the current one is. -/
theorem or_eq_left_iff {α : Type} {current former : Option α} :
    current.or former = current ↔ (current = none → former = none) := by
  cases current with
  | none => simp
  | some a => simp

/-- An older field that stands in for a current one shows in the forward. -/
theorem PortMapping.forward_eq_forwardOf_iff (mapping : PortMapping) :
    mapping.forward = Settings.forwardOf mapping ↔ mapping.IsCurrent := by
  have hfields : mapping.forward = Settings.forwardOf mapping ↔
      mapping.guestPort = mapping.guest ∧ mapping.hostPort = mapping.host := by
    simp [forward, Settings.forwardOf, defaultProtocol]
  rw [hfields]
  constructor
  · rintro ⟨hguest, hhost⟩
    exact ⟨or_eq_left_iff.mp hguest, or_eq_left_iff.mp hhost⟩
  · intro h
    exact ⟨or_eq_left_iff.mpr h.guest, or_eq_left_iff.mpr h.host⟩

namespace Settings

variable {s : Settings}

/-- Where every mapping is current, the built-in forwards that stay are the same. -/
theorem keptDefaults_eq_keptForwards (h : ∀ mapping ∈ s.ports, mapping.IsCurrent) :
    s.keptDefaults = s.keptForwards := by
  unfold keptDefaults keptForwards
  refine if_congr Iff.rfl rfl (List.filter_congr fun forward _ => ?_)
  show s.ports.all _ = !s.ports.any fun mapping => mapping.guest == some forward.1
  rw [List.not_any_eq_all_not, Bool.eq_iff_iff, List.all_eq_true, List.all_eq_true]
  refine forall₂_congr fun mapping hmapping => ?_
  have hguest : mapping.guestPort = mapping.guest := or_eq_left_iff.mpr (h mapping hmapping).guest
  rw [hguest]
  rfl

/-- Normalizing makes no difference to the forwards exactly if every mapping is current. -/
theorem planForwards_of_normalized_iff (s : Settings) :
    s.normalized.planForwards = s.planForwards ↔ ∀ mapping ∈ s.ports, mapping.IsCurrent := by
  rw [planForwards_normalized, List.map_append, List.map_map, List.map_map]
  unfold planForwards
  constructor
  · intro h
    -- the forwards of the mappings stand at the end, one for each on either side
    have hmapped := (List.append_inj' h (by simp)).2
    intro mapping hmapping
    have hforward := List.map_eq_map_iff.mp hmapped mapping hmapping
    exact mapping.forward_eq_forwardOf_iff.mp (Directive.forwardedPort.inj hforward)
  · intro h
    have hmapped : s.ports.map (Directive.forwardedPort ∘ PortMapping.forward) =
        s.ports.map fun mapping => .forwardedPort (forwardOf mapping) := by
      refine List.map_congr_left fun mapping hmapping => ?_
      exact congrArg Directive.forwardedPort (mapping.forward_eq_forwardOf_iff.mpr (h mapping hmapping))
    rw [hmapped, keptDefaults_eq_keptForwards h]
    rfl

/-- Sites are planned as they are after normalizing, and ports are exactly if no mapping relies on
an older field. -/
theorem planned_without_normalizing (s : Settings) (o : PlanOptions) :
    s.planSites o = s.normalized.planSites o ∧
      (s.planForwards = s.normalized.planForwards ↔
        ∀ mapping ∈ s.ports, mapping.IsCurrent) :=
  ⟨(s.planSites_of_normalized o).symm, eq_comm.trans s.planForwards_of_normalized_iff⟩

end Settings

end Provision
