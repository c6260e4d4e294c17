import Provision.Proofs.Plan.Blocks

/-!
# Older spellings

Ports and sites can be written as older documents have them. A plan only sees what such a spelling
stands for, so settings have the same plan as those that are written in the current one, and an
older field beside the current one of the same meaning is never seen.
-/

namespace Provision

/-! ## The current spelling -/

/-- The mapping with its ports in the current fields only. -/
def PortMapping.respelled (mapping : PortMapping) : PortMapping :=
  { mapping with
    guest := mapping.guestPort
    host := mapping.hostPort
    formerGuest := none
    formerHost := none }

/-- The site with the current name of its type. -/
def Site.respelled (site : Site) : Site :=
  if site.kind = some "symfony" then { site with kind := some "symfony2" } else site

/-- The settings in the current spelling. -/
def Settings.respelled (s : Settings) : Settings :=
  { s with
    ports := s.ports.map PortMapping.respelled
    sites := s.sites.map Site.respelled }

/-- Whether two mappings differ in older fields at most, and only beside a current one that is
set. -/
structure PortMapping.SameBeside (mapping other : PortMapping) : Prop where
  guest : mapping.guest = other.guest
  host : mapping.host = other.host
  protocol : mapping.protocol = other.protocol
  formerGuest : mapping.guest = none → mapping.formerGuest = other.formerGuest
  formerHost : mapping.host = none → mapping.formerHost = other.formerHost

/-! ## What the spelling leaves alone -/

theorem PortMapping.guestPort_respelled (mapping : PortMapping) :
    mapping.respelled.guestPort = mapping.guestPort :=
  Option.or_none

theorem PortMapping.hostPort_respelled (mapping : PortMapping) :
    mapping.respelled.hostPort = mapping.hostPort :=
  Option.or_none

/-- A respelled mapping asks for the same forward. -/
theorem PortMapping.forward_respelled (mapping : PortMapping) :
    mapping.respelled.forward = mapping.forward := by
  unfold forward
  rw [guestPort_respelled, hostPort_respelled]
  rfl

/-- Mappings that differ in unread older fields are respelled to the same one. -/
theorem PortMapping.SameBeside.respelled_eq {mapping other : PortMapping}
    (h : mapping.SameBeside other) : mapping.respelled = other.respelled := by
  have hport : ∀ {current former latter : Option UInt16}, (current = none → former = latter) →
      current.or former = current.or latter := by
    intro current former latter hformer
    rcases current with _ | port
    · rw [hformer rfl]
    · rfl
  have hguest : mapping.guestPort = other.guestPort := by
    unfold guestPort
    rw [hport h.formerGuest, h.guest]
  have hhost : mapping.hostPort = other.hostPort := by
    unfold hostPort
    rw [hport h.formerHost, h.host]
  unfold respelled
  rw [hguest, hhost, h.protocol]

/-- The older name of a type is an alias of the current one. -/
theorem Site.normalized_respelled (site : Site) : site.respelled.normalized = site.normalized := by
  unfold respelled
  by_cases hkind : site.kind = some "symfony"
  · have halias : canonicalSiteType "symfony" = canonicalSiteType "symfony2" := by decide
    rw [if_pos hkind]
    unfold normalized
    rw [hkind, Option.getD_some, Option.getD_some, halias]
  · rw [if_neg hkind]

namespace Settings

variable {s : Settings} {host : Host} {o : PlanOptions}

/-- Respelled mappings replace the same built-in forwards. -/
theorem keptDefaults_respelled (s : Settings) : s.respelled.keptDefaults = s.keptDefaults := by
  show (if s.defaultPorts = some false then [] else _) = if s.defaultPorts = some false then [] else _
  refine if_congr Iff.rfl rfl (List.filter_congr fun forward _ => ?_)
  show (s.ports.map PortMapping.respelled).all _ = s.ports.all _
  rw [List.all_map]
  refine congrArg s.ports.all (funext fun mapping => ?_)
  rw [Function.comp_apply, mapping.guestPort_respelled]

/-- Respelled settings have the same forwards. -/
theorem planForwards_respelled (s : Settings) :
    s.respelled.normalized.planForwards = s.normalized.planForwards := by
  have hforwards : s.respelled.ports.map PortMapping.forward = s.ports.map PortMapping.forward := by
    show (s.ports.map PortMapping.respelled).map PortMapping.forward = _
    rw [List.map_map]
    exact List.map_congr_left fun mapping _ => mapping.forward_respelled
  rw [planForwards_normalized, planForwards_normalized, keptDefaults_respelled, hforwards]

/-- Normalized, the sites of respelled settings are the same. -/
theorem sites_respelled (s : Settings) :
    s.respelled.normalized.sites = s.normalized.sites := by
  show (s.sites.map Site.respelled).map Site.normalized = s.sites.map Site.normalized
  rw [List.map_map]
  exact List.map_congr_left fun site _ => site.normalized_respelled

/-- Only the forwards of a plan come from the mappings of ports. -/
theorem ofNormalized_of_planForwards_eq {ports : List PortMapping}
    (h : { s with ports }.planForwards = s.planForwards) :
    Plan.ofNormalized { s with ports } host o = Plan.ofNormalized s host o := by
  unfold Plan.ofNormalized
  rw [h]
  rfl

/-- Respelling the settings makes no difference to their plan or their error. -/
theorem plan_respelled (s : Settings) (host : Host) (o : PlanOptions) :
    s.respelled.plan host o = s.plan host o := by
  have hnormalized : s.respelled.normalized =
      { s.normalized with ports := s.respelled.normalized.ports } :=
    congrArg (fun sites => { s.normalized with ports := s.respelled.normalized.ports, sites })
      s.sites_respelled
  unfold plan
  rw [hnormalized]
  apply ofNormalized_of_planForwards_eq
  rw [← hnormalized]
  exact s.planForwards_respelled

/-- Older fields beside current ones are gone once the settings are respelled. -/
theorem respelled_of_sameBeside {ports : List PortMapping}
    (h : List.Forall₂ PortMapping.SameBeside s.ports ports) :
    { s with ports }.respelled = s.respelled := by
  have hports : s.ports.map PortMapping.respelled = ports.map PortMapping.respelled := by
    rw [← List.forall₂_eq_eq_eq, List.forall₂_map_left_iff, List.forall₂_map_right_iff]
    exact h.imp fun _ _ hsame => hsame.respelled_eq
  unfold respelled
  rw [hports]

/-- Settings have the plan, or the error, that they have in the current spelling. So an older field
of a mapping never influences a plan when the current one of the same meaning is set. -/
theorem plan_eq_of_spelling (s : Settings) (host : Host) (o : PlanOptions) :
    s.respelled.plan host o = s.plan host o ∧
      ∀ ports, List.Forall₂ PortMapping.SameBeside s.ports ports →
        { s with ports }.plan host o = s.plan host o := by
  refine ⟨s.plan_respelled host o, ?_⟩
  intro ports hsame
  rw [← plan_respelled { s with ports }, respelled_of_sameBeside hsame, plan_respelled]

/-- Settings with mappings in both spellings, one of them mixed, and sites under both names of a
type. -/
def formerSpelling : Settings :=
  { blank with
    ports := [⟨some 80, none, some 8080, some 8000, none⟩, ⟨none, none, some 443, some 8443, none⟩]
    sites := [⟨"a.test", none, some "symfony", none, none, none, none⟩,
      ⟨"b.test", none, some "symfony2", none, none, none, none⟩] }

/-- Mappings in their older spelling and the older name of a site type have the plan of the current
ones. -/
theorem plan_formerSpelling :
    { blank with
      ports := [⟨some 80, some 8000, none, none, none⟩, ⟨some 443, some 8443, none, none, none⟩]
      sites := [⟨"a.test", none, some "symfony2", none, none, none, none⟩,
        ⟨"b.test", none, some "symfony2", none, none, none, none⟩] }.plan Host.furnished
        (.of "/p" "/p/scripts") =
      formerSpelling.plan Host.furnished (.of "/p" "/p/scripts") ∧
    { formerSpelling with
      ports := [⟨some 80, none, none, some 8000, none⟩,
        ⟨none, none, some 443, some 8443, none⟩] }.plan Host.furnished (.of "/p" "/p/scripts") =
      formerSpelling.plan Host.furnished (.of "/p" "/p/scripts") := by
  obtain ⟨hcurrent, hbeside⟩ :=
    plan_eq_of_spelling formerSpelling Host.furnished (.of "/p" "/p/scripts")
  refine ⟨hcurrent, hbeside _ (.cons ?_ (.cons ?_ .nil))⟩
  · exact ⟨rfl, rfl, rfl, nofun, fun _ => rfl⟩
  · exact ⟨rfl, rfl, rfl, fun _ => rfl, fun _ => rfl⟩

end Settings

end Provision
