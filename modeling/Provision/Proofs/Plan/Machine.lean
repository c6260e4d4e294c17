import Provision.Proofs.Plan.Blocks
import Provision.Proofs.Settings.Filling

/-!
# The machine in a plan

A plan has one directive for the machine and one for its provider. What they say comes from
normalized settings, where nothing that they say is left unset, so their fallbacks are never taken.
As no default is empty, what is empty in a plan is empty in its settings.
-/

namespace Provision

open Attempt

/-! ## One directive of a kind -/

theorem FolderBlock.machine_notMem (block : FolderBlock) (machine : Machine) :
    Directive.machine machine ∉ block.directives := by
  cases block <;> simp [directives]

theorem FolderBlock.provider_notMem (block : FolderBlock) (tuning : Tuning) :
    Directive.provider tuning ∉ block.directives := by
  cases block <;> simp [directives]

/-- Blocks have one directive for a machine. -/
theorem Blocks.machine_mem_iff (b : Blocks) (machine : Machine) :
    .machine machine ∈ b.directives ↔ machine = b.machine := by
  simp [directives, shellPair, FolderBlock.machine_notMem]

/-- Blocks have one directive for a provider. -/
theorem Blocks.provider_mem_iff (b : Blocks) (tuning : Tuning) :
    .provider tuning ∈ b.directives ↔ tuning = b.tuning := by
  simp [directives, shellPair, FolderBlock.provider_notMem]

namespace Settings

variable {s : Settings} {host : Host} {o : PlanOptions} {plan : Plan}

/-- A plan starts with the session, the machine and its provider. -/
theorem exists_rest (h : s.plan host o = .ok plan) :
    plan.defaultProvider = s.normalized.provider.getD "" ∧ ∃ rest, plan.directives =
      planSsh :: s.normalized.planMachine :: s.normalized.planProvider :: rest := by
  obtain ⟨authorized, -, h⟩ := bind_eq_ok_iff.mp h
  obtain ⟨keys, -, ⟨⟩⟩ := bind_eq_ok_iff.mp h
  exact ⟨rfl, _, rfl⟩

/-- The only machine in a plan is the one of the normalized settings. -/
theorem machine_mem_directives_iff (h : s.plan host o = .ok plan) (machine : Machine) :
    .machine machine ∈ plan.directives ↔ .machine machine = s.normalized.planMachine := by
  obtain ⟨b, hb, -⟩ := exists_blocks h
  obtain ⟨-, rest, hrest⟩ := exists_rest h
  have hmachine : .machine b.machine = s.normalized.planMachine := by
    rw [hb] at hrest
    exact (List.cons.inj (List.cons.inj hrest).2).1
  rw [hb, Blocks.machine_mem_iff, ← hmachine, Directive.machine.injEq]

/-- The only provider in a plan is the one of the normalized settings. -/
theorem provider_mem_directives_iff (h : s.plan host o = .ok plan) (tuning : Tuning) :
    .provider tuning ∈ plan.directives ↔ .provider tuning = s.normalized.planProvider := by
  obtain ⟨b, hb, -⟩ := exists_blocks h
  obtain ⟨-, rest, hrest⟩ := exists_rest h
  have htuning : .provider b.tuning = s.normalized.planProvider := by
    rw [hb] at hrest
    exact (List.cons.inj (List.cons.inj (List.cons.inj hrest).2).2).1
  rw [hb, Blocks.provider_mem_iff, ← htuning, Directive.provider.injEq]

/-! ## What they say -/

/-- A plan says `text` where settings have `field`: normalizing leaves it set to that text, and it is
empty only if it was set so. -/
structure Says (s : Settings) (field : Settings → Option String) (text : String) : Prop where
  set : field s.normalized = some text
  empty : text = "" → field s = some ""

/-- A field that was filled from a text that is not empty is said without a fallback. -/
theorem says_of_filled {field : Settings → Option String} {fallback : String}
    (hfallback : fallback ≠ "") (h : Filled (field s) (some fallback) (field s.normalized)) :
    s.Says field ((field s.normalized).getD "") := by
  refine ⟨by rw [h.eq_some, Option.getD_some], ?_⟩
  rw [h.eq_some, Option.getD_some]
  intro hempty
  cases hset : field s with
  | none =>
    rw [hset] at hempty
    exact absurd hempty hfallback
  | some text =>
    rw [hset] at hempty
    exact congrArg some hempty

/-- The machine of a plan says what normalized settings say, without a fallback. -/
structure SaysMachine (s : Settings) (machine : Machine) : Prop where
  name : s.Says Settings.name machine.name
  box : s.Says Settings.box machine.box
  version : s.Says Settings.version machine.version

/-- The provider of a plan says what normalized settings say, without a fallback. -/
structure SaysTuning (s : Settings) (tuning : Tuning) : Prop where
  name : s.Says Settings.name tuning.name
  customizations : ∃ memory cpus resolver,
    s.Says Settings.memory memory ∧ s.Says Settings.cpus cpus ∧
      s.Says Settings.natdnshostresolver resolver ∧
      tuning.customizations = [("--memory", memory), ("--cpus", cpus), ("--natdnsproxy1", "on"),
        ("--natdnshostresolver1", resolver), ("--ostype", "Ubuntu_64")]

theorem filledFrom_normalized (s : Settings) : s.FilledFrom {} s.normalized :=
  s.filledFrom_normalizedWith {}

/-- The machine says the name, the box and the version of normalized settings. -/
theorem exists_machine (s : Settings) :
    ∃ machine, s.normalized.planMachine = .machine machine ∧ s.SaysMachine machine := by
  have hfilled := s.filledFrom_normalized
  exact ⟨_, rfl, {
    name := says_of_filled (by decide) hfilled.name
    box := says_of_filled (by decide) hfilled.box
    version := says_of_filled (by decide) hfilled.version }⟩

/-- The provider says the name of the machine, its memory, its processors and its resolver. -/
theorem exists_tuning (s : Settings) :
    ∃ tuning, s.normalized.planProvider = .provider tuning ∧ s.SaysTuning tuning := by
  have hfilled := s.filledFrom_normalized
  have hmemory := says_of_filled (by decide) hfilled.memory
  have hcpus := says_of_filled (by decide) hfilled.cpus
  have hresolver := says_of_filled (by decide) hfilled.natdnshostresolver
  exact ⟨_, rfl, says_of_filled (by decide) hfilled.name,
    _, _, _, hmemory, hcpus, hresolver, rfl⟩

/-- Normalizing fills in what is not set and nothing else, and every plan has one machine, one
provider for it and a default provider that say what was filled in, never a fallback of their own. -/
theorem plan_says_filled (s : Settings) :
    (∀ defaults, s.FilledFrom defaults (s.normalizedWith defaults)) ∧
      ∀ host o plan, s.plan host o = .ok plan →
        s.Says Settings.provider plan.defaultProvider ∧
        (∃ machine, s.SaysMachine machine ∧
          ∀ other, .machine other ∈ plan.directives ↔ other = machine) ∧
        ∃ tuning, s.SaysTuning tuning ∧
          ∀ other, .provider other ∈ plan.directives ↔ other = tuning := by
  refine ⟨s.filledFrom_normalizedWith, ?_⟩
  intro host o plan h
  refine ⟨?_, ?_, ?_⟩
  · rw [(exists_rest h).1]
    exact says_of_filled (by decide) s.filledFrom_normalized.provider
  · obtain ⟨machine, hmachine, hsays⟩ := s.exists_machine
    refine ⟨machine, hsays, ?_⟩
    intro other
    rw [machine_mem_directives_iff h, hmachine, Directive.machine.injEq]
  · obtain ⟨tuning, htuning, hsays⟩ := s.exists_tuning
    refine ⟨tuning, hsays, ?_⟩
    intro other
    rw [provider_mem_directives_iff h, htuning, Directive.provider.injEq]

/-- Settings that leave a name empty on purpose. -/
def nameless : Settings :=
  { Settings.blank with name := some "", memory := some "4096" }

/-- A name that was left empty on purpose stays empty in the plan. -/
theorem plan_says_nameless : ∃ plan,
    nameless.plan Host.furnished (.of "/p" "/p/scripts") = .ok plan ∧
      (∃ machine, .machine machine ∈ plan.directives) ∧
      ∀ machine, .machine machine ∈ plan.directives → nameless.SaysMachine machine := by
  have hok : (nameless.plan Host.furnished (.of "/p" "/p/scripts")).isOk = true := by decide +kernel
  rcases hplan : nameless.plan Host.furnished (.of "/p" "/p/scripts") with e | plan
  · rw [hplan] at hok
    cases hok
  · obtain ⟨-, ⟨machine, hsays, hmem⟩, -⟩ := (plan_says_filled nameless).2 _ _ plan hplan
    refine ⟨plan, rfl, ⟨machine, (hmem machine).mpr rfl⟩, ?_⟩
    intro other hother
    rw [(hmem other).mp hother]
    exact hsays

end Settings

end Provision
