import CSE550.Trace.Events
import Mathlib.Data.List.Nodup

/-!
Owns the final distribution of `events.py` against the machines that work at the
end, each under the platform of the event that brought it in.

The printed numbers are counts of first appearances. They differ from the working
machines by those that were removed, by those counted although they were working,
and by those that came back.
-/

namespace CSE550.Trace

open CSE550.Lib

/-! ### What an event does -/

/-- The event appends its machine to `working_machines`. -/
def Enters (machines : Machines) (event : Event) : Prop :=
  event.eventType ≠ 1 ∧ event.machineId ∉ machines.workingMachines ∧
    (event.eventType = 0 ∨ event.machineId ∉ machines.machineConfigs)

/-- The event counts its machine in `init_machine_dist`. -/
def Sighted (machines : Machines) (event : Event) : Prop :=
  event.eventType ≠ 1 ∧ event.machineId ∉ machines.seenMachines ∧
    (event.eventType = 0 ∨ event.machineId ∉ machines.machineConfigs)

instance Enters.decidable (machines : Machines) (event : Event) :
    Decidable (Enters machines event) := by
  unfold Enters
  infer_instance

instance Sighted.decidable (machines : Machines) (event : Event) :
    Decidable (Sighted machines event) := by
  unfold Sighted
  infer_instance

namespace Machines

variable (machines : Machines) (event : Event)

@[simp] theorem workingMachines_sightAdded :
    (machines.sightAdded event).workingMachines = machines.workingMachines := by
  unfold sightAdded
  split <;> rfl

@[simp] theorem workingMachines_sightUpdated :
    (machines.sightUpdated event).workingMachines = machines.workingMachines := by
  unfold sightUpdated
  split <;> rfl

@[simp] theorem machineDist_sightAdded :
    (machines.sightAdded event).machineDist = machines.machineDist := by
  unfold sightAdded
  split <;> rfl

@[simp] theorem machineDist_sightUpdated :
    (machines.sightUpdated event).machineDist = machines.machineDist := by
  unfold sightUpdated
  split <;> rfl

@[simp] theorem initMachineDist_work :
    (machines.work event).initMachineDist = machines.initMachineDist := by
  unfold work
  split <;> rfl

@[simp] theorem workingMachines_release :
    (machines.release event).workingMachines = machines.workingMachines := by
  unfold release
  split
  · rfl
  · split <;> rfl

@[simp] theorem initMachineDist_release :
    (machines.release event).initMachineDist = machines.initMachineDist := by
  unfold release
  split
  · rfl
  · split <;> rfl

theorem workingMachines_work : (machines.work event).workingMachines =
    if event.machineId ∈ machines.workingMachines then machines.workingMachines
    else machines.workingMachines ++ [event.machineId] := by
  unfold work
  split <;> rfl

/-- The body of the loop is one of its three branches. -/
theorem step_cases : (event.eventType = 0 ∧ machines.step event = machines.add event) ∨
    (event.eventType = 1 ∧ machines.step event = machines.remove event) ∨
      (event.eventType ≠ 0 ∧ event.eventType ≠ 1 ∧
        machines.step event = machines.update event) := by
  by_cases isAdd : event.eventType = 0
  · exact .inl ⟨isAdd, if_pos isAdd⟩
  · by_cases isRemove : event.eventType = 1
    · exact .inr (.inl ⟨isRemove, by rw [step, if_neg isAdd, if_pos isRemove]⟩)
    · exact .inr (.inr ⟨isAdd, isRemove, by rw [step, if_neg isAdd, if_neg isRemove]⟩)

theorem workingMachines_step : (machines.step event).workingMachines =
    if Enters machines event then machines.workingMachines ++ [event.machineId]
    else if event.eventType = 1 then machines.workingMachines.erase event.machineId
    else machines.workingMachines := by
  rcases machines.step_cases event with
    ⟨isAdd, taken⟩ | ⟨isRemove, taken⟩ | ⟨isAdd, isRemove, taken⟩
  · rw [taken]
    simp [Enters, isAdd, add, configure, workingMachines_work, ite_not]
  · have stays : ¬ Enters machines event := fun enters => enters.1 isRemove
    rw [taken, if_neg stays, if_pos isRemove]
    show (if _ then _ else _) = _
    rw [workingMachines_release]
    by_cases works : event.machineId ∈ machines.workingMachines
    · rw [if_pos works]
    · rw [if_neg works, List.erase_of_not_mem works]
  · rw [taken]
    by_cases configured : event.machineId ∈ machines.machineConfigs
    · simp [Enters, isAdd, isRemove, update, configure, configured]
    · simp [Enters, isAdd, isRemove, update, configure, configured, workingMachines_work, ite_not]

theorem initMachineDist_step : (machines.step event).initMachineDist =
    if Sighted machines event then machines.initMachineDist.bump event.platformId
    else machines.initMachineDist := by
  rcases machines.step_cases event with
    ⟨isAdd, taken⟩ | ⟨isRemove, taken⟩ | ⟨isAdd, isRemove, taken⟩
  · rw [taken]
    by_cases seen : event.machineId ∈ machines.seenMachines
    · simp [Sighted, isAdd, add, configure, sightAdded, seen]
    · simp [Sighted, isAdd, add, configure, sightAdded, seen]
  · rw [taken]
    simp [Sighted, isRemove, remove]
  · rw [taken]
    by_cases configured : event.machineId ∈ machines.machineConfigs
    · simp [Sighted, isAdd, isRemove, update, configure, configured]
    · by_cases seen : event.machineId ∈ machines.seenMachines
      · simp [Sighted, isAdd, isRemove, update, configure, configured, sightUpdated, seen]
      · simp [Sighted, isAdd, isRemove, update, configure, configured, sightUpdated, seen]

theorem mem_machineDist_work (platform : Text) : platform ∈ (machines.work event).machineDist ↔
    platform ∈ machines.machineDist ∨
      event.machineId ∉ machines.workingMachines ∧ platform = event.platformId := by
  unfold work
  by_cases works : event.machineId ∈ machines.workingMachines
  · simp [works]
  · simp [works, Counts.mem_bump, or_comm]

theorem mem_machineDist_release (platform : Text) :
    platform ∈ (machines.release event).machineDist ↔ platform ∈ machines.machineDist := by
  unfold release
  cases found : machines.machineDist.lookup event.platformId with
  | none => rfl
  | some number =>
      have known : event.platformId ∈ machines.machineDist := Table.mem_of_lookup found
      by_cases none : number ≤ 0
      · simp [none]
      · simp only [none, if_false, AList.mem_insert]
        constructor
        · rintro (rfl | member)
          · exact known
          · exact member
        · exact .inr

/-- A platform stays listed once a machine entered under it. -/
theorem mem_machineDist_step (platform : Text) :
    platform ∈ (machines.step event).machineDist ↔
      platform ∈ machines.machineDist ∨ Enters machines event ∧ platform = event.platformId := by
  rcases machines.step_cases event with
    ⟨isAdd, taken⟩ | ⟨isRemove, taken⟩ | ⟨isAdd, isRemove, taken⟩
  · rw [taken]
    show platform ∈ ((machines.sightAdded event).work event).machineDist ↔ _
    simp [Enters, isAdd, mem_machineDist_work]
  · rw [taken]
    show platform ∈ (machines.release event).machineDist ↔ _
    simp [Enters, isRemove, mem_machineDist_release]
  · rw [taken]
    by_cases configured : event.machineId ∈ machines.machineConfigs
    · simp [Enters, isAdd, isRemove, update, configure, configured]
    · simp [Enters, isAdd, isRemove, update, configure, configured, mem_machineDist_work]

end Machines

/-! ### Under which platform a machine entered -/

/-- The loop, watched from outside: `residents` has the working machines, each with
the platform of the event that brought it in. -/
structure Watched where
  machines : Machines := {}
  residents : List (ℤ × Text) := []

namespace Watched

/-- Machines that left are dropped, and machines that came are noted. -/
def step (watched : Watched) (event : Event) : Watched where
  machines := watched.machines.step event
  residents :=
    (watched.residents.filter fun resident =>
      resident.1 ∈ (watched.machines.step event).workingMachines) ++
    ((watched.machines.step event).workingMachines.filter fun machine =>
      machine ∉ watched.machines.workingMachines).map fun machine => (machine, event.platformId)

/-- All events, in order. -/
def run (watched : Watched) (events : List Event) : Watched := events.foldl step watched

@[simp] theorem run_cons (watched : Watched) (event : Event) (events : List Event) :
    watched.run (event :: events) = (watched.step event).run events := rfl

theorem machines_run (watched : Watched) (events : List Event) :
    (watched.run events).machines = events.foldl Machines.step watched.machines := by
  induction events generalizing watched with
  | nil => rfl
  | cons event events inductionHypothesis => exact inductionHypothesis (watched.step event)

/-- The residents are the working machines, each once. -/
structure Sound (watched : Watched) : Prop where
  working : watched.residents.map Prod.fst = watched.machines.workingMachines
  distinct : watched.machines.workingMachines.Nodup
  listed : ∀ resident ∈ watched.residents, resident.2 ∈ watched.machines.machineDist

variable {watched : Watched} {event : Event}

theorem Sound.mem_working (sound : watched.Sound) {resident : ℤ × Text}
    (member : resident ∈ watched.residents) :
    resident.1 ∈ watched.machines.workingMachines := by
  rw [← sound.working]
  exact List.mem_map_of_mem member

theorem Sound.residents_enters (sound : watched.Sound) (enters : Enters watched.machines event) :
    (watched.step event).residents =
      watched.residents ++ [(event.machineId, event.platformId)] := by
  have kept : (watched.residents.filter fun resident =>
      resident.1 ∈ watched.machines.workingMachines ++ [event.machineId]) = watched.residents := by
    rw [List.filter_eq_self]
    intro resident member
    simp [sound.mem_working member]
  have came : ((watched.machines.workingMachines ++ [event.machineId]).filter fun machine =>
      machine ∉ watched.machines.workingMachines) = [event.machineId] := by
    rw [List.filter_append, List.filter_eq_nil_iff.mpr (by simp)]
    simp [enters.2.1]
  simp only [step, Machines.workingMachines_step, if_pos enters]
  rw [kept, came]
  rfl

theorem Sound.residents_removed (sound : watched.Sound) (isRemove : event.eventType = 1) :
    (watched.step event).residents =
      watched.residents.filter fun resident => resident.1 ≠ event.machineId := by
  have stays : ¬ Enters watched.machines event := fun enters => enters.1 isRemove
  have kept : (watched.residents.filter fun resident =>
      resident.1 ∈ watched.machines.workingMachines.erase event.machineId) =
      watched.residents.filter fun resident => resident.1 ≠ event.machineId := by
    refine List.filter_congr fun resident member => ?_
    simp [sound.distinct.mem_erase_iff, sound.mem_working member]
  have came : ((watched.machines.workingMachines.erase event.machineId).filter fun machine =>
      machine ∉ watched.machines.workingMachines) = [] := by
    rw [List.filter_eq_nil_iff]
    intro machine member
    simp [List.mem_of_mem_erase member]
  simp only [step, Machines.workingMachines_step, if_neg stays, if_pos isRemove]
  rw [kept, came, List.map_nil, List.append_nil]

theorem Sound.residents_other (sound : watched.Sound) (stays : ¬ Enters watched.machines event)
    (notRemove : event.eventType ≠ 1) : (watched.step event).residents = watched.residents := by
  have kept : (watched.residents.filter fun resident =>
      resident.1 ∈ watched.machines.workingMachines) = watched.residents := by
    rw [List.filter_eq_self]
    intro resident member
    simp [sound.mem_working member]
  simp only [step, Machines.workingMachines_step, if_neg stays, if_neg notRemove]
  rw [kept, List.filter_eq_nil_iff.mpr (by simp), List.map_nil, List.append_nil]

theorem Sound.initial : Sound {} := ⟨rfl, .nil, by simp⟩

theorem Sound.step (sound : watched.Sound) (event : Event) : (watched.step event).Sound := by
  have listed {resident : ℤ × Text} (member : resident ∈ watched.residents) :
      resident.2 ∈ (watched.machines.step event).machineDist :=
    (Machines.mem_machineDist_step _ _ _).mpr (.inl (sound.listed resident member))
  by_cases enters : Enters watched.machines event
  · refine ⟨?_, ?_, ?_⟩
    · rw [sound.residents_enters enters, List.map_append, sound.working]
      simp [Watched.step, Machines.workingMachines_step, enters]
    · simp only [Watched.step, Machines.workingMachines_step, if_pos enters]
      rw [← List.concat_eq_append]
      exact sound.distinct.concat enters.2.1
    · rw [sound.residents_enters enters]
      intro resident member
      rcases List.mem_append.mp member with old | new
      · exact listed old
      · rw [List.mem_singleton.mp new]
        exact (Machines.mem_machineDist_step _ _ _).mpr (.inr ⟨enters, rfl⟩)
  · by_cases isRemove : event.eventType = 1
    · refine ⟨?_, ?_, ?_⟩
      · rw [sound.residents_removed isRemove]
        simp only [Watched.step, Machines.workingMachines_step, if_neg enters, if_pos isRemove]
        rw [sound.distinct.erase_eq_filter, ← sound.working, List.filter_map]
        refine congrArg (List.map Prod.fst) (List.filter_congr fun resident _ => ?_)
        by_cases same : resident.1 = event.machineId
        · simp [same]
        · simp [same]
      · simp only [Watched.step, Machines.workingMachines_step, if_neg enters, if_pos isRemove]
        exact sound.distinct.erase _
      · rw [sound.residents_removed isRemove]
        exact fun resident member => listed (List.mem_of_mem_filter member)
    · refine ⟨?_, ?_, ?_⟩
      · rw [sound.residents_other enters isRemove, sound.working]
        simp [Watched.step, Machines.workingMachines_step, enters, isRemove]
      · simp only [Watched.step, Machines.workingMachines_step, if_neg enters, if_neg isRemove]
        exact sound.distinct
      · rw [sound.residents_other enters isRemove]
        exact fun resident member => listed member

theorem Sound.run (sound : watched.Sound) (events : List Event) : (watched.run events).Sound := by
  induction events generalizing watched with
  | nil => exact sound
  | cons event events inductionHypothesis => exact inductionHypothesis (sound.step event)

/-! ### What the counts miss -/

/-- The events of a run that pass a test, each in the state before it. -/
def occurrences (test : Watched → Event → Bool) : Watched → List Event → ℕ
  | _, [] => 0
  | watched, event :: events =>
      (if test watched event then 1 else 0) + occurrences test (watched.step event) events

/-- A machine enters under the platform. -/
def entered (platform : Text) (watched : Watched) (event : Event) : Bool :=
  Enters watched.machines event ∧ event.platformId = platform

/-- A machine is counted under the platform. -/
def sighted (platform : Text) (watched : Watched) (event : Event) : Bool :=
  Sighted watched.machines event ∧ event.platformId = platform

/-- A machine that was seen before enters under the platform. -/
def reentered (platform : Text) (watched : Watched) (event : Event) : Bool :=
  Enters watched.machines event ∧ event.machineId ∈ watched.machines.seenMachines ∧
    event.platformId = platform

/-- A machine that is working is counted under the platform. -/
def recounted (platform : Text) (watched : Watched) (event : Event) : Bool :=
  Sighted watched.machines event ∧ event.machineId ∈ watched.machines.workingMachines ∧
    event.platformId = platform

/-- A machine that had entered under the platform is removed. -/
def removed (platform : Text) (watched : Watched) (event : Event) : Bool :=
  event.eventType = 1 ∧ (event.machineId, platform) ∈ watched.residents

/-- The first appearances counted under a platform. -/
def countedUnder (watched : Watched) (platform : Text) : ℤ :=
  (watched.machines.initMachineDist.lookup platform).getD 0

/-- The working machines that entered under a platform. -/
def residentsUnder (watched : Watched) (platform : Text) : ℕ :=
  watched.residents.countP fun resident => resident.2 = platform

theorem countedUnder_step (watched : Watched) (event : Event) (platform : Text) :
    (watched.step event).countedUnder platform =
      watched.countedUnder platform +
        (if sighted platform watched event then 1 else 0 : ℕ) := by
  simp only [countedUnder, Watched.step, Machines.initMachineDist_step, sighted]
  by_cases counted : Sighted watched.machines event
  · by_cases same : event.platformId = platform
    · subst same
      simp [counted, Counts.lookup_bump_self]
    · simp [counted, same, Counts.lookup_bump_ne _ (Ne.symm same)]
  · simp [counted]

theorem countP_filter_key {Key Entry : Type} [DecidableEq Key] [DecidableEq Entry]
    {rows : List (Key × Entry)} (distinct : (rows.map Prod.fst).Nodup) (key : Key)
    (entry : Entry) :
    (rows.filter fun row => row.1 ≠ key).countP (fun row => row.2 = entry) +
        (if (key, entry) ∈ rows then 1 else 0) = rows.countP fun row => row.2 = entry := by
  induction rows with
  | nil => simp
  | cons row rows inductionHypothesis =>
      rw [List.map_cons, List.nodup_cons] at distinct
      have rest := inductionHypothesis distinct.2
      by_cases same : row.1 = key
      · subst same
        have absent : (row.1, entry) ∉ rows := fun member =>
          distinct.1 (List.mem_map.mpr ⟨_, member, rfl⟩)
        rw [if_neg absent] at rest
        rw [List.filter_cons_of_neg (by simp), List.countP_cons, ← rest]
        by_cases alike : row.2 = entry
        · rw [if_pos (List.mem_cons.mpr (.inl (by rw [← alike]))), if_pos (by simpa using alike)]
        · have other : (row.1, entry) ∉ row :: rows := by
            rw [List.mem_cons, not_or]
            exact ⟨fun whole => alike (by rw [← whole]), absent⟩
          rw [if_neg other, if_neg (by simpa using alike)]
      · have whole : (key, entry) ∈ row :: rows ↔ (key, entry) ∈ rows := by
          rw [List.mem_cons, or_iff_right]
          exact fun whole => same (by rw [← whole])
        rw [List.filter_cons_of_pos (by simpa using same), List.countP_cons, List.countP_cons,
          ← rest]
        simp only [whole]
        omega

theorem Sound.residentsUnder_step (sound : watched.Sound) (event : Event) (platform : Text) :
    (watched.step event).residentsUnder platform +
        (if removed platform watched event then 1 else 0) =
      watched.residentsUnder platform + if entered platform watched event then 1 else 0 := by
  have distinct : (watched.residents.map Prod.fst).Nodup := by
    rw [sound.working]
    exact sound.distinct
  unfold residentsUnder removed entered
  by_cases enters : Enters watched.machines event
  · rw [sound.residents_enters enters]
    by_cases same : event.platformId = platform
    · simp [enters, enters.1, same]
    · simp [enters, enters.1, same]
  · by_cases isRemove : event.eventType = 1
    · rw [sound.residents_removed isRemove, ← countP_filter_key distinct event.machineId platform]
      simp [enters, isRemove]
    · rw [sound.residents_other enters isRemove]
      simp [enters, isRemove]

/-- Counting and entering differ by the machines counted again and those that come back. -/
theorem sighted_add_reentered (watched : Watched) (event : Event) (platform : Text) :
    ((if sighted platform watched event then 1 else 0) +
        if reentered platform watched event then 1 else 0 : ℕ) =
      (if entered platform watched event then 1 else 0) +
        if recounted platform watched event then 1 else 0 := by
  unfold sighted reentered entered recounted Sighted Enters
  by_cases same : event.platformId = platform
  · by_cases works : event.machineId ∈ watched.machines.workingMachines
    · by_cases seen : event.machineId ∈ watched.machines.seenMachines
      · simp [works, seen]
      · simp [works, seen, same]
    · by_cases seen : event.machineId ∈ watched.machines.seenMachines
      · simp [works, seen, same]
      · simp [works, seen, same]
  · simp [same]

/-- The balance of a run. -/
theorem Sound.balance (sound : watched.Sound) (events : List Event) (platform : Text) :
    (watched.run events).countedUnder platform + watched.residentsUnder platform +
        watched.occurrences (reentered platform) events =
      watched.countedUnder platform + (watched.run events).residentsUnder platform +
        watched.occurrences (removed platform) events +
        watched.occurrences (recounted platform) events := by
  induction events generalizing watched with
  | nil =>
      show watched.countedUnder platform + watched.residentsUnder platform + ((0 : ℕ) : ℤ) =
        watched.countedUnder platform + watched.residentsUnder platform + ((0 : ℕ) : ℤ) +
          ((0 : ℕ) : ℤ)
      omega
  | cons event events inductionHypothesis =>
      have later := inductionHypothesis (sound.step event)
      have counted := countedUnder_step watched event platform
      have residents := sound.residentsUnder_step event platform
      have difference := sighted_add_reentered watched event platform
      simp only [run_cons, occurrences]
      omega

/-- Over a run, what is counted and what comes back is what enters and what is counted again. -/
theorem occurrences_balance (watched : Watched) (events : List Event) (platform : Text) :
    watched.occurrences (sighted platform) events +
        watched.occurrences (reentered platform) events =
      watched.occurrences (entered platform) events +
        watched.occurrences (recounted platform) events := by
  induction events generalizing watched with
  | nil => rfl
  | cons event events inductionHypothesis =>
      have later := inductionHypothesis (watched.step event)
      have here := sighted_add_reentered watched event platform
      simp only [occurrences]
      omega

/-- A test that no event passes in the state before it. -/
theorem occurrences_eq_zero {test : Watched → Event → Bool} {watched : Watched}
    {events : List Event} (never : ∀ before event after, events = before ++ event :: after →
      test (watched.run before) event = false) : watched.occurrences test events = 0 := by
  induction events generalizing watched with
  | nil => rfl
  | cons event events inductionHypothesis =>
      have here : test watched event = false := never [] event events rfl
      have later := inductionHypothesis fun before later after split =>
        never (event :: before) later after (by rw [split, List.cons_append])
      simp [occurrences, here, later]

/-- What events bring about one by one holds after a run when it held before, or
some event brought it about. -/
theorem run_iff {test : Watched → Event → Bool} {holds : Watched → Prop}
    (step_iff : ∀ watched event, holds (watched.step event) ↔ holds watched ∨ test watched event)
    (watched : Watched) (events : List Event) :
    holds (watched.run events) ↔ holds watched ∨ 0 < watched.occurrences test events := by
  induction events generalizing watched with
  | nil => simp [run, occurrences]
  | cons event events inductionHypothesis =>
      rw [run_cons, inductionHypothesis, step_iff, occurrences, or_assoc]
      refine or_congr_right ?_
      by_cases passes : test watched event
      · simp only [passes, if_true, true_iff, true_or]
        omega
      · simp [passes]

theorem mem_machineDist_run (watched : Watched) (events : List Event) (platform : Text) :
    platform ∈ (watched.run events).machines.machineDist ↔
      platform ∈ watched.machines.machineDist ∨
        0 < watched.occurrences (entered platform) events := by
  refine @run_iff (entered platform) (fun watched => platform ∈ watched.machines.machineDist)
    (fun watched event => ?_) watched events
  simp only [Watched.step, Machines.mem_machineDist_step, entered, decide_eq_true_eq,
    @eq_comm _ platform]

theorem mem_initMachineDist_run (watched : Watched) (events : List Event) (platform : Text) :
    platform ∈ (watched.run events).machines.initMachineDist ↔
      platform ∈ watched.machines.initMachineDist ∨
        0 < watched.occurrences (sighted platform) events := by
  refine @run_iff (sighted platform) (fun watched => platform ∈ watched.machines.initMachineDist)
    (fun watched event => ?_) watched events
  simp only [Watched.step, Machines.initMachineDist_step, sighted, decide_eq_true_eq]
  by_cases counted : Sighted watched.machines event
  · simp [counted, Counts.mem_bump, or_comm, eq_comm]
  · simp [counted]

/-- Counted over the working machines or over the residents, it is the same number. -/
theorem Sound.countP_working (sound : watched.Sound) (platform : Text) :
    watched.machines.workingMachines.countP
        (fun machine => (machine, platform) ∈ watched.residents) =
      watched.residentsUnder platform := by
  have distinct : (watched.residents.map Prod.fst).Nodup := by
    rw [sound.working]
    exact sound.distinct
  rw [← sound.working, List.countP_map, residentsUnder]
  refine List.countP_congr fun resident member => ?_
  simp only [Function.comp_apply, decide_eq_true_eq]
  constructor
  · intro other
    exact (Prod.mk.inj (List.inj_on_of_nodup_map distinct member other rfl)).2
  · rintro rfl
    exact member

end Watched

/-! ### The written section -/

theorem countsOf_eq_some {initMachineDist : Counts Text} {keys : List Text}
    {rows : List (Text × ℤ)} (written : countsOf initMachineDist keys = some rows) :
    rows.map Prod.fst = keys ∧
      ∀ row ∈ rows, initMachineDist.lookup row.1 = some row.2 := by
  induction keys generalizing rows with
  | nil =>
      cases written
      exact ⟨rfl, by simp⟩
  | cons key keys inductionHypothesis =>
      cases found : initMachineDist.lookup key with
      | none => simp [countsOf, found] at written
      | some number =>
          cases rest : countsOf initMachineDist keys with
          | none => simp [countsOf, found, rest] at written
          | some others =>
              simp only [countsOf, found, rest, Option.some_inj] at written
              subst written
              have later := inductionHypothesis rest
              rw [List.map_cons, later.1, List.forall_mem_cons]
              exact ⟨rfl, found, later.2⟩

theorem exists_countsOf {initMachineDist : Counts Text} {keys : List Text}
    (known : ∀ key ∈ keys, key ∈ initMachineDist) :
    ∃ rows, countsOf initMachineDist keys = some rows := by
  induction keys with
  | nil => exact ⟨[], rfl⟩
  | cons key keys inductionHypothesis =>
      rw [List.forall_mem_cons] at known
      rcases inductionHypothesis known.2 with ⟨rows, rest⟩
      rcases Table.mem_iff_lookup.mp known.1 with ⟨number, found⟩
      exact ⟨(key, number) :: rows, by simp [countsOf, found, rest]⟩

/-- The rows have, for each platform, the number of working machines that entered
under it. -/
structure ListsWorking (rows : List (Text × ℤ)) (watched : Watched) : Prop where
  numbers : ∀ row ∈ rows, row.2 = watched.machines.workingMachines.countP
    (fun machine => (machine, row.1) ∈ watched.residents)
  complete : ∀ resident ∈ watched.residents, resident.2 ∈ rows.map Prod.fst

theorem listsWorking_iff {watched : Watched} (sound : watched.Sound)
    (iteration : Table.Iteration Text) :
    (∃ rows, watched.machines.finalDistribution iteration = some rows ∧
        ListsWorking rows watched) ↔
      ∀ platform ∈ watched.machines.machineDist,
        watched.machines.initMachineDist.lookup platform =
          some (watched.residentsUnder platform : ℤ) := by
  constructor
  · rintro ⟨rows, written, lists⟩ platform member
    have found := countsOf_eq_some written
    have listed : platform ∈ rows.map Prod.fst := by
      rw [found.1]
      exact Table.Iteration.mem_keys.mpr member
    rcases List.mem_map.mp listed with ⟨row, inside, rfl⟩
    rw [found.2 row inside, lists.numbers row inside, sound.countP_working]
  · intro counts
    have known : ∀ key ∈ (iteration.items watched.machines.machineDist).map Prod.fst,
        key ∈ watched.machines.initMachineDist := by
      intro key member
      exact Table.mem_of_lookup (counts key (Table.Iteration.mem_keys.mp member))
    rcases exists_countsOf known with ⟨rows, written⟩
    have found := countsOf_eq_some written
    refine ⟨rows, written, fun row inside => ?_, fun resident member => ?_⟩
    · have member : row.1 ∈ watched.machines.machineDist := by
        rw [← @Table.Iteration.mem_keys _ _ iteration, ← found.1]
        exact List.mem_map_of_mem inside
      have number := found.2 row inside
      rw [counts row.1 member, Option.some_inj] at number
      rw [← number, sound.countP_working]
    · rw [found.1]
      exact Table.Iteration.mem_keys.mpr (sound.listed resident member)

/-- The printed number of a platform is that of the machines that entered under it. -/
theorem Watched.lookup_iff (events : List Event) (platform : Text) :
    (Watched.run {} events).machines.initMachineDist.lookup platform =
        some ((Watched.run {} events).residentsUnder platform : ℤ) ↔
      0 < Watched.occurrences (Watched.sighted platform) {} events ∧
        Watched.occurrences (Watched.removed platform) {} events +
            Watched.occurrences (Watched.recounted platform) {} events =
          Watched.occurrences (Watched.reentered platform) {} events := by
  have sighted := Watched.mem_initMachineDist_run {} events platform
  have balance := Watched.Sound.initial.balance events platform
  rw [or_iff_right (AList.notMem_empty _)] at sighted
  have noneCounted : Watched.countedUnder {} platform = 0 := rfl
  have noResident : Watched.residentsUnder {} platform = 0 := rfl
  rw [noneCounted, noResident, Watched.countedUnder] at balance
  rw [← sighted, ← AList.lookup_isSome]
  cases found : (Watched.run {} events).machines.initMachineDist.lookup platform with
  | none => simp
  | some number =>
      rw [found, Option.getD_some] at balance
      simp only [Option.some_inj, Option.isSome_some, true_and]
      omega

/-- The final distribution lists the working machines when under each platform that a
machine entered under the printed number is theirs. -/
theorem listsWorking_run_iff (iteration : Table.Iteration Text) (events : List Event) :
    (∃ rows, (events.foldl Machines.step {}).finalDistribution iteration = some rows ∧
        ListsWorking rows (Watched.run {} events)) ↔
      ∀ platform, 0 < Watched.occurrences (Watched.entered platform) {} events →
        (Watched.run {} events).machines.initMachineDist.lookup platform =
          some ((Watched.run {} events).residentsUnder platform : ℤ) := by
  have lists := listsWorking_iff (Watched.Sound.initial.run events) iteration
  rw [Watched.machines_run {} events] at lists
  rw [lists, ← Watched.machines_run {} events]
  refine forall_congr' fun platform => ?_
  rw [Watched.mem_machineDist_run, or_iff_right (AList.notMem_empty _)]

/-- The final distribution lists the working machines if and only if, under every
platform that a machine ever entered under, some machine was counted, and the removed
machines and the machines counted again make up for those that came back. -/
theorem final_distribution_iff (iteration : Table.Iteration Text) (events : List Event) :
    (∃ rows, (events.foldl Machines.step {}).finalDistribution iteration = some rows ∧
        ListsWorking rows (Watched.run {} events)) ↔
      ∀ platform, 0 < Watched.occurrences (Watched.entered platform) {} events →
        0 < Watched.occurrences (Watched.sighted platform) {} events ∧
          Watched.occurrences (Watched.removed platform) {} events +
              Watched.occurrences (Watched.recounted platform) {} events =
            Watched.occurrences (Watched.reentered platform) {} events := by
  rw [listsWorking_run_iff]
  exact forall_congr' fun platform => imp_congr_right fun _ => Watched.lookup_iff events platform

/-- A machine of one platform is added and removed. -/
def addedAndRemoved : List Event :=
  [⟨0, 1, 0, "A".toList, 1 / 2, 1 / 2⟩, ⟨1, 1, 1, "A".toList, 1 / 2, 1 / 2⟩]

/-- A removed machine stays in the final distribution. -/
theorem removed_machine_listed :
    ¬ ∃ rows, (addedAndRemoved.foldl Machines.step {}).finalDistribution .inOrder = some rows ∧
      ListsWorking rows (Watched.run {} addedAndRemoved) := by
  rintro ⟨rows, written, lists⟩
  have printed : (addedAndRemoved.foldl Machines.step {}).finalDistribution .inOrder =
      some [("A".toList, 1)] := by decide
  rw [printed, Option.some_inj] at written
  subst written
  exact absurd (lists.numbers _ (List.mem_singleton.mpr rfl)) (by decide)

end CSE550.Trace
