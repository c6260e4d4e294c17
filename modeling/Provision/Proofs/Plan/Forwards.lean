import Provision.Proofs.Plan.Blocks

/-!
# The forwarded ports of a plan

The forwards of a plan are the built-in ones that stay, and after them one for every mapping. A
built-in forward stays unless a mapping is for its guest port, in either spelling and whatever its
protocol, or the settings want none of them. Hence settings that map no guest port twice have a plan
that forwards none twice.
-/

namespace Provision

/-- The forwarded port that a directive asks for. -/
def Directive.forward? : Directive → Option ForwardedPort
  | .forwardedPort port => some port
  | _ => none

/-- The forwarded ports of a plan. -/
def Plan.forwards (plan : Plan) : List ForwardedPort :=
  plan.directives.filterMap Directive.forward?

/-! ## Forwards among the blocks -/

/-- A block in which no directive is a forward has no forwards. -/
theorem filterMap_forward?_map {α : Type} {f : α → Directive} (h : ∀ a, (f a).forward? = none)
    (as : List α) : (as.map f).filterMap Directive.forward? = [] := by
  rw [List.filterMap_map, List.filterMap_eq_nil_iff]
  intro a _
  exact h a

/-- A block whose parts have no forwards has none. -/
theorem filterMap_forward?_flatMap {α : Type} {f : α → List Directive}
    (h : ∀ a, (f a).filterMap Directive.forward? = []) (as : List α) :
    (as.flatMap f).filterMap Directive.forward? = [] := by
  rw [List.filterMap_flatMap, List.flatMap_eq_nil_iff]
  intro a _
  exact h a

/-- Nothing that is planned for a folder is a forward. -/
theorem FolderBlock.filterMap_forward? (block : FolderBlock) :
    block.directives.filterMap Directive.forward? = [] := by
  cases block with
  | missing notice => rfl
  | shared folder bound =>
    show (bound.toList.map Directive.bindFolder).filterMap Directive.forward? = []
    exact filterMap_forward?_map (fun _ => rfl) _

/-- Two blocks hold forwards, the one for the built-in forwards and the one for the mappings. -/
theorem Blocks.filterMap_forward? (b : Blocks) :
    b.directives.filterMap Directive.forward? = b.defaultForwards ++ b.forwards := by
  have hforwards : ((b.defaultForwards ++ b.forwards).map Directive.forwardedPort).filterMap
      Directive.forward? = b.defaultForwards ++ b.forwards := by
    rw [List.filterMap_map]
    exact List.filterMap_some
  have hfirst : [Directive.ssh b.session, .machine b.machine, .provider b.tuning,
      .network b.primaryNetwork].filterMap Directive.forward? = [] := rfl
  have hpair : ∀ pair, (shellPair pair).filterMap Directive.forward? = [] := fun _ => rfl
  unfold directives
  simp only [List.filterMap_append]
  rw [hfirst, hforwards, filterMap_forward?_map (fun _ => rfl) b.networks,
    filterMap_forward?_map (fun _ => rfl) b.authorized.toList,
    filterMap_forward?_map (fun _ => rfl) b.keys, filterMap_forward?_map (fun _ => rfl) b.copies,
    filterMap_forward?_flatMap FolderBlock.filterMap_forward? b.folders,
    filterMap_forward?_flatMap hpair b.sites, filterMap_forward?_flatMap hpair b.service.toList,
    filterMap_forward?_map (fun _ => rfl) b.databases]
  simp only [List.nil_append, List.append_nil]

/-! ## The built-in forwards that stay -/

namespace Settings

variable {s : Settings}

/-- A built-in forward stays exactly if the defaults are on and no mapping is for its guest port. -/
theorem mem_keptDefaults_iff {forward : UInt16 × UInt16} : forward ∈ s.keptDefaults ↔
    forward ∈ defaultForwards ∧ s.defaultPorts ≠ some false ∧
      ∀ mapping ∈ s.ports, mapping.guestPort ≠ some forward.1 := by
  unfold keptDefaults
  split
  · next hdisabled =>
    constructor
    · intro h
      cases h
    · intro h
      exact absurd hdisabled h.2.1
  · next henabled =>
    rw [List.mem_filter, List.all_eq_true]
    simp only [bne_iff_ne]
    exact and_congr_right fun _ => (and_iff_right henabled).symm

/-- A built-in forward goes exactly if the defaults are off or some mapping is for its guest port.
-/
theorem not_mem_keptDefaults_iff {forward : UInt16 × UInt16} (h : forward ∈ defaultForwards) :
    forward ∉ s.keptDefaults ↔
      s.defaultPorts = some false ∨ ∃ mapping ∈ s.ports, mapping.guestPort = some forward.1 := by
  rw [mem_keptDefaults_iff]
  constructor
  · intro hnot
    by_contra hother
    push Not at hother
    exact hnot ⟨h, hother.1, hother.2⟩
  · intro hor hkept
    obtain ⟨-, henabled, hfree⟩ := hkept
    rcases hor with hdisabled | ⟨mapping, hmapping, hguest⟩
    · exact henabled hdisabled
    · exact hfree mapping hmapping hguest

/-- No guest port is forwarded twice by the built-in forwards. -/
theorem nodup_keptDefaults (s : Settings) : (s.keptDefaults.map (·.1)).Nodup := by
  have hall : (defaultForwards.map (·.1)).Nodup := by decide
  have hsub : s.keptDefaults.Sublist defaultForwards := by
    unfold keptDefaults
    split
    · exact List.nil_sublist _
    · exact List.filter_sublist
  exact hall.sublist (hsub.map _)

/-- No two forwards have one guest port, if no two mappings are for one. -/
theorem nodup_guests (h : (s.ports.filterMap PortMapping.guestPort).Nodup) :
    (((s.keptDefaults.map fun forward =>
      ForwardedPort.mk (some forward.1) (some forward.2) "tcp" true) ++
      s.ports.map PortMapping.forward).filterMap (·.guest)).Nodup := by
  have hdefaults : (s.keptDefaults.map fun forward =>
      ForwardedPort.mk (some forward.1) (some forward.2) "tcp" true).filterMap (·.guest) =
      s.keptDefaults.map (·.1) := by
    rw [List.filterMap_map, ← List.filterMap_eq_map]
    rfl
  have hmappings : (s.ports.map PortMapping.forward).filterMap (·.guest) =
      s.ports.filterMap PortMapping.guestPort := by
    rw [List.filterMap_map]
    rfl
  rw [List.filterMap_append, hdefaults, hmappings, List.nodup_append]
  refine ⟨s.nodup_keptDefaults, h, ?_⟩
  -- a built-in forward only stays where no mapping has its guest port
  intro guest hguest other hother heq
  obtain ⟨forward, hforward, rfl⟩ := List.mem_map.mp hguest
  obtain ⟨mapping, hmapping, htarget⟩ := List.mem_filterMap.mp hother
  rw [← heq] at htarget
  exact (mem_keptDefaults_iff.mp hforward).2.2 mapping hmapping htarget

/-- The forwards of a plan are the built-in ones that no mapping replaces, unless the settings want
none, and then those of the mappings. -/
theorem forwards_of_plan (s : Settings) (host : Host) (o : PlanOptions) (plan : Plan)
    (h : s.plan host o = .ok plan) :
    plan.forwards = (s.keptDefaults.map fun forward =>
        ⟨some forward.1, some forward.2, "tcp", true⟩) ++ s.ports.map PortMapping.forward ∧
      (∀ forward ∈ plan.forwards, forward.autoCorrect = true) ∧
      (∀ forward ∈ defaultForwards, forward ∉ s.keptDefaults ↔
        s.defaultPorts = some false ∨ ∃ mapping ∈ s.ports, mapping.guestPort = some forward.1) ∧
      s.ports.map PortMapping.forward <:+ plan.forwards ∧
      ((s.ports.filterMap PortMapping.guestPort).Nodup →
        (plan.forwards.filterMap (·.guest)).Nodup) := by
  obtain ⟨b, hb, hof⟩ := exists_blocks h
  have hforwards : plan.forwards = (s.keptDefaults.map fun forward =>
      ⟨some forward.1, some forward.2, "tcp", true⟩) ++ s.ports.map PortMapping.forward := by
    unfold Plan.forwards
    rw [hb, b.filterMap_forward?, hof.defaultForwards, hof.forwards]
  rw [hforwards]
  refine ⟨rfl, ?_, fun forward hforward => not_mem_keptDefaults_iff hforward,
    List.suffix_append _ _, nodup_guests⟩
  intro forward hforward
  rcases List.mem_append.mp hforward with hmem | hmem
  · obtain ⟨_, -, rfl⟩ := List.mem_map.mp hmem
    rfl
  · obtain ⟨_, -, rfl⟩ := List.mem_map.mp hmem
    rfl

/-- Settings with a mapping in either spelling, both for guest ports of built-in forwards, and one
for no guest port. -/
def remapped : Settings :=
  { blank with ports := [⟨none, none, some 443, some 8443, none⟩,
      ⟨some 80, some 9000, some 8025, none, some "udp"⟩, ⟨none, some 5000, none, none, none⟩] }

/-- Two of the built-in forwards give way to mappings, one of them in its older spelling. -/
theorem forwards_remapped : ∃ plan,
    remapped.plan ⟨⟨[]⟩, "/home", [], none⟩ (.of "/p" "/p/scripts") = .ok plan ∧
      plan.forwards = [.tcp 3306 33060, .tcp 5432 54320, .tcp 8025 8025, .tcp 27017 27017,
        .tcp 443 8443, ⟨some 80, some 9000, "udp", true⟩, ⟨none, some 5000, "tcp", true⟩] ∧
      (remapped.ports.filterMap PortMapping.guestPort).Nodup ∧
      (plan.forwards.filterMap (·.guest)).Nodup := by
  have hplan : (remapped.plan ⟨⟨[]⟩, "/home", [], none⟩ (.of "/p" "/p/scripts")).isOk = true := by
    decide +kernel
  rcases h : remapped.plan ⟨⟨[]⟩, "/home", [], none⟩ (.of "/p" "/p/scripts") with e | plan
  · rw [h] at hplan
    cases hplan
  · obtain ⟨hforwards, -, -, -, hnodup⟩ := forwards_of_plan _ _ _ plan h
    have hdistinct : (remapped.ports.filterMap PortMapping.guestPort).Nodup := by decide
    exact ⟨plan, rfl, hforwards.trans (by decide +kernel), hdistinct, hnodup hdistinct⟩

end Settings

end Provision
