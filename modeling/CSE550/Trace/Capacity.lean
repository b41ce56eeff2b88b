import CSE550.Trace.Distribution

/-!
Owns the machine configurations of `events.py`, in step with the working machines, and
the totals and histograms computed over them.

Does not own the distributions over platforms.
-/

namespace CSE550.Trace

open CSE550.Lib

namespace Machines

/-! ### Totals and histograms -/

/-- `machine_configs[key]` for each key, in order. -/
def configurations (iteration : Table.Iteration ℤ) (machines : Machines) : List (ℚ × ℚ) :=
  (iteration.items machines.machineConfigs).map Prod.snd

/-- The loop that counts one number of each configuration. -/
def histogram (iteration : Table.Iteration ℤ) (machines : Machines) (number : ℚ × ℚ → ℚ) :
    Counts ℚ :=
  Counts.tally ∅ ((machines.configurations iteration).map number)

/-- `cpu_hist`. -/
def cpuHist (iteration : Table.Iteration ℤ) (machines : Machines) : Counts ℚ :=
  machines.histogram iteration Prod.fst

/-- `memory_hist`. -/
def memoryHist (iteration : Table.Iteration ℤ) (machines : Machines) : Counts ℚ :=
  machines.histogram iteration Prod.snd

/-- `ratio_hist`; without memory the ratio is zero. -/
def ratioHist (iteration : Table.Iteration ℤ) (machines : Machines) : Counts ℚ :=
  machines.histogram iteration fun configuration =>
    if configuration.2 = 0 then 0 else configuration.1 / configuration.2

/-- The loop that adds up one number of each configuration. -/
def capacityTotal (iteration : Table.Iteration ℤ) (machines : Machines) (number : ℚ × ℚ → ℚ) : ℚ :=
  (machines.configurations iteration).foldl
    (fun total configuration => total + number configuration) 0

/-- `relative_cpu`. -/
def relativeCpu (iteration : Table.Iteration ℤ) (machines : Machines) : ℚ :=
  machines.capacityTotal iteration Prod.fst

/-- `relative_memory`. -/
def relativeMemory (iteration : Table.Iteration ℤ) (machines : Machines) : ℚ :=
  machines.capacityTotal iteration Prod.snd

/-- The line `TOTAL MACHINES SEEN`. -/
def totalMachinesSeen (machines : Machines) : Text :=
  scalarLine "TOTAL MACHINES SEEN".toList (Text.intText machines.machineConfigs.keys.length)

/-- The capacities of a machine. -/
def configOf (machines : Machines) (machine : ℤ) : ℚ × ℚ :=
  (machines.machineConfigs.lookup machine).getD (0, 0)

/-! ### What an event does to the configurations -/

section Step

variable (machines : Machines) (event : Event)

@[simp] theorem machineConfigs_sightAdded :
    (machines.sightAdded event).machineConfigs = machines.machineConfigs := by
  unfold sightAdded
  split <;> rfl

@[simp] theorem machineConfigs_sightUpdated :
    (machines.sightUpdated event).machineConfigs = machines.machineConfigs := by
  unfold sightUpdated
  split <;> rfl

@[simp] theorem machineConfigs_work :
    (machines.work event).machineConfigs = machines.machineConfigs := by
  unfold work
  split <;> rfl

@[simp] theorem machineConfigs_release :
    (machines.release event).machineConfigs = machines.machineConfigs := by
  unfold release
  split
  · rfl
  · split <;> rfl

/-- A machine is configured by its ADD and UPDATE rows, until a REMOVE row. -/
theorem machineConfigs_step : (machines.step event).machineConfigs =
    if event.eventType = 1 then machines.machineConfigs.erase event.machineId
    else machines.machineConfigs.insert event.machineId
      (event.cpuCapacity, event.memoryCapacity) := by
  rcases machines.step_cases event with
    ⟨isAdd, taken⟩ | ⟨isRemove, taken⟩ | ⟨_, isRemove, taken⟩
  · rw [taken, if_neg (by omega)]
    simp [add, configure]
  · rw [taken, if_pos isRemove]
    simp [remove]
  · rw [taken, if_neg isRemove]
    by_cases configured : event.machineId ∈ machines.machineConfigs
    · simp [update, configure, configured]
    · simp [update, configure, configured]

theorem mem_machineConfigs_step (machine : ℤ) :
    machine ∈ (machines.step event).machineConfigs ↔
      if machine = event.machineId then event.eventType ≠ 1
      else machine ∈ machines.machineConfigs := by
  rw [machineConfigs_step]
  by_cases isRemove : event.eventType = 1
  · rw [if_pos isRemove, AList.mem_erase]
    by_cases same : machine = event.machineId
    · simp [same, isRemove]
    · simp [same]
  · rw [if_neg isRemove, AList.mem_insert]
    by_cases same : machine = event.machineId
    · simp [same, isRemove]
    · simp [same]

end Step

/-! ### The two collections -/

/-- The working machines are the configured ones, each once. -/
structure InStep (machines : Machines) : Prop where
  distinct : machines.workingMachines.Nodup
  same : ∀ machine, machine ∈ machines.workingMachines ↔ machine ∈ machines.machineConfigs

theorem InStep.initial : InStep {} := ⟨.nil, fun machine => by simp⟩

theorem InStep.step {machines : Machines} (inStep : machines.InStep) (event : Event) :
    (machines.step event).InStep := by
  have others {machine : ℤ} (different : machine ≠ event.machineId) :
      machine ∈ (machines.step event).workingMachines ↔ machine ∈ machines.workingMachines := by
    rw [workingMachines_step]
    split
    · simp [different]
    · split
      · exact List.mem_erase_of_ne different
      · rfl
  by_cases isRemove : event.eventType = 1
  · have stays : ¬ Enters machines event := fun enters => enters.1 isRemove
    have erased : (machines.step event).workingMachines =
        machines.workingMachines.erase event.machineId := by
      rw [workingMachines_step, if_neg stays, if_pos isRemove]
    refine ⟨?_, fun machine => ?_⟩
    · rw [erased]
      exact inStep.distinct.erase _
    · rw [mem_machineConfigs_step]
      by_cases same : machine = event.machineId
      · rw [erased, same, inStep.distinct.mem_erase_iff]
        simp [isRemove]
      · rw [others same, if_neg same, inStep.same]
  · refine ⟨?_, fun machine => ?_⟩
    · rw [workingMachines_step, if_neg isRemove]
      split
      · rename_i enters
        rw [← List.concat_eq_append]
        exact inStep.distinct.concat enters.2.1
      · exact inStep.distinct
    · rw [mem_machineConfigs_step]
      by_cases same : machine = event.machineId
      · have works : event.machineId ∈ (machines.step event).workingMachines := by
          rw [workingMachines_step, if_neg isRemove]
          by_cases enters : Enters machines event
          · simp [enters]
          · -- an unknown machine would enter
            by_contra absent
            rw [if_neg enters] at absent
            exact enters ⟨isRemove, absent, .inr (mt (inStep.same _).mpr absent)⟩
        rw [same, if_pos rfl]
        exact iff_of_true works isRemove
      · rw [others same, if_neg same, inStep.same]

theorem InStep.run {machines : Machines} (inStep : machines.InStep) (events : List Event) :
    (events.foldl Machines.step machines).InStep := by
  induction events generalizing machines with
  | nil => exact inStep
  | cons event events inductionHypothesis => exact inductionHypothesis (inStep.step event)

/-! ### What the totals are computed over -/

/-- Totals and histograms are those of the working machines. -/
structure OverWorking (iteration : Table.Iteration ℤ) (machines : Machines) : Prop where
  seen : machines.totalMachinesSeen =
    scalarLine "TOTAL MACHINES SEEN".toList (Text.intText machines.workingMachines.length)
  relativeCpu : machines.relativeCpu iteration =
    (machines.workingMachines.map fun machine => (machines.configOf machine).1).sum
  relativeMemory : machines.relativeMemory iteration =
    (machines.workingMachines.map fun machine => (machines.configOf machine).2).sum
  histograms : ∀ number value, ((machines.histogram iteration number).lookup value).getD 0 =
    (machines.workingMachines.map fun machine => number (machines.configOf machine)).count value
  buckets : ∀ number value, value ∈ machines.histogram iteration number ↔
    ∃ machine ∈ machines.workingMachines, number (machines.configOf machine) = value

section Over

variable {machines : Machines}

theorem InStep.perm_configurations (inStep : machines.InStep) (iteration : Table.Iteration ℤ) :
    (machines.configurations iteration).Perm (machines.workingMachines.map machines.configOf) :=
  iteration.perm_entries inStep.distinct inStep.same (0, 0)

theorem InStep.perm_keys (inStep : machines.InStep) :
    machines.machineConfigs.keys.Perm machines.workingMachines := by
  rw [List.perm_ext_iff_of_nodup machines.machineConfigs.keys_nodup inStep.distinct]
  intro machine
  rw [← AList.mem_keys, inStep.same]

theorem InStep.capacityTotal_eq (inStep : machines.InStep) (iteration : Table.Iteration ℤ)
    (number : ℚ × ℚ → ℚ) : machines.capacityTotal iteration number =
      (machines.workingMachines.map fun machine => number (machines.configOf machine)).sum := by
  have summed : machines.capacityTotal iteration number =
      ((machines.configurations iteration).map number).sum := by
    rw [List.sum_eq_foldl, List.foldl_map]
    rfl
  rw [summed, ((inStep.perm_configurations iteration).map number).sum_eq, List.map_map]
  rfl

theorem InStep.overWorking (inStep : machines.InStep) (iteration : Table.Iteration ℤ) :
    OverWorking iteration machines := by
  have numbers (number : ℚ × ℚ → ℚ) : ((machines.configurations iteration).map number).Perm
      (machines.workingMachines.map fun machine => number (machines.configOf machine)) := by
    have mapped := (inStep.perm_configurations iteration).map number
    rwa [List.map_map] at mapped
  refine ⟨?_, inStep.capacityTotal_eq iteration _, inStep.capacityTotal_eq iteration _,
    fun number value => ?_, fun number value => ?_⟩
  · rw [totalMachinesSeen, inStep.perm_keys.length_eq]
  · rw [histogram, Counts.getD_lookup_tally, AList.lookup_empty, Option.getD_none, zero_add,
      (numbers number).count_eq]
  · rw [histogram, Counts.mem_tally, or_iff_left (AList.notMem_empty value),
      (numbers number).mem_iff, List.mem_map]

end Over

end Machines

/-- After every sequence of events, the working machines are the configured ones, each
once, and all totals and histograms are computed over them. -/
theorem machine_sets_in_step (iteration : Table.Iteration ℤ) (events : List Event) :
    Machines.InStep (events.foldl Machines.step {}) ∧
      Machines.OverWorking iteration (events.foldl Machines.step {}) := by
  have inStep := Machines.InStep.initial.run events
  exact ⟨inStep, inStep.overWorking iteration⟩

end CSE550.Trace
