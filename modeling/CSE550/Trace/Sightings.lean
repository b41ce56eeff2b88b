import CSE550.Lib.Lists
import CSE550.Trace.Capacity
import Mathlib.Data.List.Dedup

/-!
Owns the initial distribution of `events.py` against the first events of the machines,
and the final distribution where no machine is removed.

An UPDATE row under a platform not counted before counts its machine without noting
that the machine was seen, so that a later row may count it again.
-/

namespace CSE550.Trace

open CSE550.Lib

/-! ### First events -/

/-- The machine has an ADD or UPDATE event. -/
def Appeared (events : List Event) (machine : ℤ) : Prop :=
  ∃ event ∈ events, event.machineId = machine ∧ event.eventType ≠ 1

/-- The machines with ADD or UPDATE events, each once. -/
def machinesOf (events : List Event) : List ℤ :=
  ((events.filter fun event => event.eventType ≠ 1).map Event.machineId).dedup

/-- The platform of the first ADD or UPDATE event of a machine. -/
def firstPlatform (events : List Event) (machine : ℤ) : Option Text :=
  (events.find? fun event => event.eventType ≠ 1 ∧ event.machineId = machine).map Event.platformId

/-- One more event: it is the first one of its machine, or not. -/
def noteFirst (firsts : List Event) (event : Event) : List Event :=
  if event.eventType = 1 ∨ event.machineId ∈ firsts.map Event.machineId then firsts
  else firsts ++ [event]

/-- The first ADD or UPDATE event of each machine, in order. -/
def firsts (events : List Event) : List Event := events.foldl noteFirst []

theorem firsts_concat (events : List Event) (event : Event) :
    firsts (events ++ [event]) = noteFirst (firsts events) event := by
  rw [firsts, List.foldl_append]
  rfl

theorem appeared_concat {events : List Event} {event : Event} {machine : ℤ} :
    Appeared (events ++ [event]) machine ↔
      Appeared events machine ∨ event.machineId = machine ∧ event.eventType ≠ 1 := by
  simp only [Appeared, List.mem_append, List.mem_singleton, or_and_right, exists_or,
    exists_eq_left]

theorem mem_firsts {events : List Event} {machine : ℤ} :
    machine ∈ (firsts events).map Event.machineId ↔ Appeared events machine := by
  induction events using List.reverseRecOn with
  | nil => simp [firsts, Appeared]
  | append_singleton events event inductionHypothesis =>
      rw [firsts_concat, appeared_concat, noteFirst, ← inductionHypothesis]
      by_cases isRemove : event.eventType = 1
      · simp [isRemove]
      · by_cases known : event.machineId ∈ (firsts events).map Event.machineId
        · rw [if_pos (.inr known), or_iff_left_of_imp]
          rintro ⟨rfl, _⟩
          exact known
        · rw [if_neg (not_or.mpr ⟨isRemove, known⟩), List.map_append, List.mem_append]
          simp [isRemove, eq_comm]

theorem firsts_concat_first {events : List Event} {event : Event} (shows : event.eventType ≠ 1)
    (first : ¬ Appeared events event.machineId) :
    firsts (events ++ [event]) = firsts events ++ [event] := by
  rw [firsts_concat, noteFirst, if_neg]
  exact not_or.mpr ⟨shows, mt mem_firsts.mp first⟩

theorem firsts_concat_later {events : List Event} {event : Event}
    (later : event.eventType = 1 ∨ Appeared events event.machineId) :
    firsts (events ++ [event]) = firsts events := by
  rw [firsts_concat, noteFirst, if_pos]
  exact later.imp_right mem_firsts.mpr

theorem nodup_firsts (events : List Event) : ((firsts events).map Event.machineId).Nodup := by
  induction events using List.reverseRecOn with
  | nil => exact .nil
  | append_singleton events event inductionHypothesis =>
      rw [firsts_concat, noteFirst]
      split
      · exact inductionHypothesis
      · rename_i first
        rw [List.map_append, List.map_singleton, ← List.concat_eq_append]
        exact inductionHypothesis.concat (not_or.mp first).2

/-- The machines are those of the first events. -/
theorem perm_machinesOf (events : List Event) :
    (machinesOf events).Perm ((firsts events).map Event.machineId) := by
  rw [machinesOf, List.perm_ext_iff_of_nodup (List.nodup_dedup _) (nodup_firsts events)]
  intro machine
  rw [mem_firsts, List.mem_dedup, List.mem_map]
  simp only [Appeared, List.mem_filter, decide_eq_true_eq]
  exact exists_congr fun event => by rw [and_assoc, and_comm (b := event.machineId = machine)]

theorem find_of_mem_firsts {events : List Event} {first : Event} (member : first ∈ firsts events) :
    events.find? (fun event => event.eventType ≠ 1 ∧ event.machineId = first.machineId) =
      some first := by
  induction events using List.reverseRecOn with
  | nil => cases member
  | append_singleton events event inductionHypothesis =>
      rw [firsts_concat, noteFirst] at member
      rw [List.find?_append]
      split at member
      · rw [inductionHypothesis member, Option.some_or]
      · rename_i isFirst
        rcases List.mem_append.mp member with before | last
        · rw [inductionHypothesis before, Option.some_or]
        · rw [List.mem_singleton.mp last]
          have absent : events.find? (fun other =>
              other.eventType ≠ 1 ∧ other.machineId = event.machineId) = none := by
            rw [List.find?_eq_none]
            intro other inside passes
            simp only [decide_eq_true_eq] at passes
            exact isFirst (.inr (mem_firsts.mpr ⟨other, inside, passes.2, passes.1⟩))
          rw [absent, Option.none_or]
          simp [(not_or.mp isFirst).1]

/-! ### What the loop has seen -/

/-- The variables after some events. -/
def machinesAfter (events : List Event) : Machines := events.foldl Machines.step {}

theorem machinesAfter_concat (events : List Event) (event : Event) :
    machinesAfter (events ++ [event]) = (machinesAfter events).step event := by
  rw [machinesAfter, List.foldl_append]
  rfl

namespace Machines

variable (machines : Machines) (event : Event)

@[simp] theorem seenMachines_work :
    (machines.work event).seenMachines = machines.seenMachines := by
  unfold work
  split <;> rfl

@[simp] theorem seenMachines_release :
    (machines.release event).seenMachines = machines.seenMachines := by
  unfold release
  split
  · rfl
  · split <;> rfl

/-- A machine that is counted becomes a seen one, except in an UPDATE row under a platform
not counted before. -/
theorem seenMachines_step : (machines.step event).seenMachines =
    if Sighted machines event ∧
        (event.eventType = 0 ∨ event.platformId ∈ machines.initMachineDist) then
      machines.seenMachines ++ [event.machineId]
    else machines.seenMachines := by
  rcases machines.step_cases event with
    ⟨isAdd, taken⟩ | ⟨isRemove, taken⟩ | ⟨isAdd, isRemove, taken⟩
  · rw [taken]
    by_cases seen : event.machineId ∈ machines.seenMachines
    · simp [Sighted, isAdd, add, configure, sightAdded, seen]
    · simp [Sighted, isAdd, add, configure, sightAdded, seen]
  · rw [taken]
    simp [Sighted, isRemove, remove]
  · rw [taken]
    by_cases configured : event.machineId ∈ machines.machineConfigs
    · simp [Sighted, isAdd, isRemove, update, configure, configured]
    · by_cases seen : event.machineId ∈ machines.seenMachines
      · simp [Sighted, isAdd, isRemove, update, configure, configured, sightUpdated, seen]
      · simp [Sighted, isAdd, isRemove, update, configure, configured, sightUpdated, seen]

theorem mem_seenMachines_step (machine : ℤ) : machine ∈ (machines.step event).seenMachines ↔
    machine ∈ machines.seenMachines ∨ machine = event.machineId ∧ Sighted machines event ∧
      (event.eventType = 0 ∨ event.platformId ∈ machines.initMachineDist) := by
  rw [seenMachines_step]
  split
  · rename_i noted
    simp [noted]
  · rename_i notNoted
    rw [or_iff_left]
    exact fun noted => notNoted noted.2

end Machines

/-- Only machines that appeared are seen or configured. -/
theorem appeared_of_known {events : List Event} {machine : ℤ}
    (known : machine ∈ (machinesAfter events).seenMachines ∨
      machine ∈ (machinesAfter events).machineConfigs) : Appeared events machine := by
  induction events using List.reverseRecOn with
  | nil => simp [machinesAfter] at known
  | append_singleton events event inductionHypothesis =>
      rw [machinesAfter_concat, Machines.mem_seenMachines_step,
        Machines.mem_machineConfigs_step] at known
      rw [appeared_concat]
      by_cases same : machine = event.machineId
      · rw [if_pos same] at known
        rcases known with (seen | noted) | configured
        · exact .inl (inductionHypothesis (.inl seen))
        · exact .inr ⟨same.symm, noted.2.1.1⟩
        · exact .inr ⟨same.symm, configured⟩
      · rw [if_neg same] at known
        refine .inl (inductionHypothesis (known.imp_left fun seen => ?_))
        exact seen.resolve_right fun noted => same noted.1

/-- The first event of a machine counts it. -/
theorem sighted_of_first {events : List Event} {event : Event} (shows : event.eventType ≠ 1)
    (first : ¬ Appeared events event.machineId) : Sighted (machinesAfter events) event :=
  ⟨shows, fun seen => first (appeared_of_known (.inl seen)),
    .inr fun configured => first (appeared_of_known (.inr configured))⟩

/-! ### Machines counted again -/

/-- The event counts a machine that appeared before. -/
def CountedAgain (earlier : List Event) (event : Event) : Prop :=
  Appeared earlier event.machineId ∧ Sighted (machinesAfter earlier) event

theorem total_concat (events : List Event) (event : Event) :
    (machinesAfter (events ++ [event])).initMachineDist.total =
      (machinesAfter events).initMachineDist.total +
        if Sighted (machinesAfter events) event then 1 else 0 := by
  rw [machinesAfter_concat, Machines.initMachineDist_step]
  split
  · rw [Counts.total_bump]
  · rw [add_zero]

/-- Every machine is counted, and one more time for each event that counts one again. -/
theorem length_firsts_le (events : List Event) :
    ((firsts events).length : ℤ) ≤ (machinesAfter events).initMachineDist.total ∧
      (OccursIn CountedAgain events →
        ((firsts events).length : ℤ) < (machinesAfter events).initMachineDist.total) := by
  induction events using List.reverseRecOn with
  | nil => exact ⟨le_refl _, fun again => absurd again (occursIn_nil _)⟩
  | append_singleton events event inductionHypothesis =>
      rcases inductionHypothesis with ⟨counted, more⟩
      rw [total_concat, occursIn_concat]
      by_cases isRemove : event.eventType = 1
      · have notCounted : ¬ Sighted (machinesAfter events) event := fun counts => counts.1 isRemove
        rw [firsts_concat_later (.inl isRemove), if_neg notCounted, add_zero]
        exact ⟨counted, fun again => more (again.resolve_right fun last => notCounted last.2)⟩
      · by_cases known : Appeared events event.machineId
        · rw [firsts_concat_later (.inr known)]
          split
          · exact ⟨by omega, fun _ => by omega⟩
          · rename_i notCounted
            refine ⟨by omega, fun again => ?_⟩
            have before := more (again.resolve_right fun last => notCounted last.2)
            omega
        · rw [firsts_concat_first isRemove known, if_pos (sighted_of_first isRemove known),
            List.length_append, List.length_singleton]
          refine ⟨by omega, fun again => ?_⟩
          have before := more (again.resolve_right fun last => known last.1)
          omega

/-- As long as no machine is counted again, the counts are those of the first events. -/
theorem initMachineDist_eq {events : List Event} (once : ¬ OccursIn CountedAgain events) :
    (machinesAfter events).initMachineDist =
      Counts.tally ∅ ((firsts events).map Event.platformId) := by
  induction events using List.reverseRecOn with
  | nil => rfl
  | append_singleton events event inductionHypothesis =>
      rw [occursIn_concat, not_or] at once
      rw [machinesAfter_concat, Machines.initMachineDist_step, inductionHypothesis once.1]
      by_cases isRemove : event.eventType = 1
      · rw [firsts_concat_later (.inl isRemove), if_neg fun counts => counts.1 isRemove]
      · by_cases known : Appeared events event.machineId
        · rw [firsts_concat_later (.inr known), if_neg fun counts => once.2 ⟨known, counts⟩]
        · rw [firsts_concat_first isRemove known, if_pos (sighted_of_first isRemove known),
            List.map_append, List.map_singleton, Counts.tally_concat]

/-- The first event of its machine, an UPDATE, under a platform that no first event had
before. -/
structure FreshUpdate (earlier : List Event) (event : Event) : Prop where
  notAdd : event.eventType ≠ 0
  notRemove : event.eventType ≠ 1
  first : ¬ Appeared earlier event.machineId
  fresh : event.platformId ∉ (firsts earlier).map Event.platformId

/-- Such an update is of the machine. -/
def FreshUpdateOf (machine : ℤ) (earlier : List Event) (event : Event) : Prop :=
  event.machineId = machine ∧ FreshUpdate earlier event

/-- The machines that appeared but are not noted as seen. -/
theorem unseen_iff {events : List Event} (once : ¬ OccursIn CountedAgain events) (machine : ℤ) :
    Appeared events machine ∧ machine ∉ (machinesAfter events).seenMachines ↔
      OccursIn (FreshUpdateOf machine) events := by
  induction events using List.reverseRecOn with
  | nil => exact iff_of_false (by simp [Appeared]) (occursIn_nil _)
  | append_singleton events event inductionHypothesis =>
      rw [occursIn_concat, not_or] at once
      have before := inductionHypothesis once.1
      rw [occursIn_concat, appeared_concat, machinesAfter_concat, Machines.mem_seenMachines_step,
        ← before]
      by_cases same : event.machineId = machine
      · subst same
        by_cases known : Appeared events event.machineId
        · have notCounted : ¬ Sighted (machinesAfter events) event :=
            fun counts => once.2 ⟨known, counts⟩
          have notFirst : ¬ FreshUpdateOf event.machineId events event :=
            fun update => update.2.first known
          simp [known, notCounted, notFirst]
        · have unseen : event.machineId ∉ (machinesAfter events).seenMachines :=
            fun seen => known (appeared_of_known (.inl seen))
          by_cases isRemove : event.eventType = 1
          · have notFirst : ¬ FreshUpdateOf event.machineId events event :=
              fun update => update.2.notRemove isRemove
            simp [known, isRemove, notFirst]
          · have counted := sighted_of_first isRemove known
            have platforms : event.platformId ∈ (machinesAfter events).initMachineDist ↔
                event.platformId ∈ (firsts events).map Event.platformId := by
              rw [initMachineDist_eq once.1, Counts.mem_tally, or_iff_left (AList.notMem_empty _)]
            simp only [known, isRemove, unseen, counted, platforms, false_or, false_and, true_and,
              ne_eq, not_false_eq_true, not_or]
            exact ⟨fun fresh => ⟨rfl, fresh.1, isRemove, known, fresh.2⟩,
              fun update => ⟨update.2.notAdd, update.2.fresh⟩⟩
      · have notUpdate : ¬ FreshUpdateOf machine events event := fun update => same update.1
        simp [same, Ne.symm same, notUpdate]

/-! ### Late events -/

/-- The event shows again a machine that a fresh update left unseen: as an ADD, or with a
REMOVE of the machine in between. -/
def LateEvent (earlier : List Event) (event : Event) : Prop :=
  event.eventType ≠ 1 ∧ ∃ before first between, earlier = before ++ first :: between ∧
    FreshUpdateOf event.machineId before first ∧
    (event.eventType = 0 ∨
      ∃ removal ∈ between, removal.machineId = event.machineId ∧ removal.eventType = 1)

section Configured

variable {machines : Machines} {machine : ℤ}

/-- A configured machine that is not removed stays configured. -/
theorem configured_of_kept {events : List Event} (inside : machine ∈ machines.machineConfigs)
    (kept : ∀ event ∈ events, event.machineId = machine → event.eventType ≠ 1) :
    machine ∈ (events.foldl Machines.step machines).machineConfigs := by
  induction events generalizing machines with
  | nil => exact inside
  | cons event events inductionHypothesis =>
      rw [List.forall_mem_cons] at kept
      apply inductionHypothesis _ kept.2
      rw [Machines.mem_machineConfigs_step]
      split
      · rename_i same
        exact kept.1 same.symm
      · exact inside

/-- A machine that is not configured becomes so by an ADD or an UPDATE. -/
theorem exists_of_configured {events : List Event} (absent : machine ∉ machines.machineConfigs)
    (inside : machine ∈ (events.foldl Machines.step machines).machineConfigs) :
    Appeared events machine := by
  induction events generalizing machines with
  | nil => exact absurd inside absent
  | cons event events inductionHypothesis =>
      by_cases now : machine ∈ (machines.step event).machineConfigs
      · rw [Machines.mem_machineConfigs_step] at now
        split at now
        · rename_i same
          exact ⟨event, List.mem_cons_self, same.symm, now⟩
        · exact absurd now absent
      · rcases inductionHypothesis now inside with ⟨later, member, same, shows⟩
        exact ⟨later, List.mem_cons_of_mem _ member, same, shows⟩

end Configured

theorem machinesAfter_append_cons (before between : List Event) (first : Event) :
    machinesAfter (before ++ first :: between) =
      between.foldl Machines.step ((machinesAfter before).step first) := by
  rw [machinesAfter, List.foldl_append, List.foldl_cons]
  rfl

/-- The first event that counts a machine again is the first late one. -/
theorem countedAgain_iff {events : List Event} (once : ¬ OccursIn CountedAgain events)
    (inTime : ¬ OccursIn LateEvent events) (event : Event) :
    CountedAgain events event ↔ LateEvent events event := by
  have unseen := unseen_iff once event.machineId
  constructor
  · rintro ⟨appeared, shows, notSeen, new⟩
    rcases unseen.mp ⟨appeared, notSeen⟩ with ⟨before, first, between, rfl, update⟩
    refine ⟨shows, before, first, between, rfl, update, new.imp_right fun notConfigured => ?_⟩
    by_contra kept
    push Not at kept
    have started : event.machineId ∈ ((machinesAfter before).step first).machineConfigs := by
      rw [Machines.mem_machineConfigs_step, if_pos update.1.symm]
      exact update.2.notRemove
    rw [machinesAfter_append_cons] at notConfigured
    exact notConfigured (configured_of_kept started kept)
  · rintro ⟨shows, before, first, between, rfl, update, returns⟩
    have known := unseen.mpr ⟨before, first, between, rfl, update⟩
    refine ⟨known.1, shows, known.2, returns.imp_right ?_⟩
    rintro ⟨removal, member, same, isRemove⟩ configured
    -- a machine configured after its removal was shown by an event that was late already
    rcases List.append_of_mem member with ⟨left, right, rfl⟩
    have gone : event.machineId ∉
        (((machinesAfter (before ++ first :: left)).step removal)).machineConfigs := by
      rw [Machines.mem_machineConfigs_step, if_pos same.symm]
      exact not_not.mpr isRemove
    have split : before ++ first :: (left ++ removal :: right) =
        (before ++ first :: left) ++ removal :: right := by simp
    rw [split, machinesAfter_append_cons] at configured
    rcases exists_of_configured gone configured with ⟨early, inside, alike, earlyShows⟩
    rcases List.append_of_mem inside with ⟨middle, rest, rfl⟩
    refine inTime ⟨before ++ first :: (left ++ removal :: middle), early, rest, by simp,
      earlyShows, before, first, left ++ removal :: middle, rfl, ?_, .inr ⟨removal, by simp, ?_,
        isRemove⟩⟩
    · rwa [alike]
    · rw [same, alike]

/-- Some machine is counted again exactly when some event is late. -/
theorem occursIn_countedAgain_iff (events : List Event) :
    OccursIn CountedAgain events ↔ OccursIn LateEvent events := by
  induction events using List.reverseRecOn with
  | nil => exact iff_of_false (occursIn_nil _) (occursIn_nil _)
  | append_singleton events event inductionHypothesis =>
      rw [occursIn_concat, occursIn_concat, inductionHypothesis]
      by_cases late : OccursIn LateEvent events
      · exact iff_of_true (.inl late) (.inl late)
      · have once : ¬ OccursIn CountedAgain events := mt inductionHypothesis.mp late
        rw [countedAgain_iff once late]

/-! ### The initial distribution -/

/-- Every machine is counted once, under the platform of its first event. -/
structure CountsFirsts (events : List Event) (initMachineDist : Counts Text) : Prop where
  total : initMachineDist.total = (machinesOf events).length
  platforms : ∀ platform, (initMachineDist.lookup platform).getD 0 =
    (machinesOf events).countP fun machine => firstPlatform events machine = some platform

theorem countP_machinesOf (events : List Event) (platform : Text) :
    (machinesOf events).countP (fun machine => firstPlatform events machine = some platform) =
      (firsts events).countP fun first => first.platformId = platform := by
  rw [(perm_machinesOf events).countP_eq, List.countP_map]
  refine List.countP_congr fun first member => ?_
  rw [Function.comp_apply, firstPlatform, find_of_mem_firsts member]
  simp

/-- The initial distribution counts every machine once, under the platform of its first
event, if and only if no event is late. -/
theorem initial_distribution_iff (events : List Event) :
    CountsFirsts events (events.foldl Machines.step {}).initMachineDist ↔
      ¬ OccursIn LateEvent events := by
  have machines := (perm_machinesOf events).length_eq
  rw [List.length_map] at machines
  rw [← occursIn_countedAgain_iff]
  constructor
  · intro counts again
    have more : ((firsts events).length : ℤ) <
        (events.foldl Machines.step {}).initMachineDist.total := (length_firsts_le events).2 again
    rw [counts.total, machines] at more
    exact absurd more (lt_irrefl _)
  · intro once
    have tallied : (events.foldl Machines.step {}).initMachineDist =
        Counts.tally ∅ ((firsts events).map Event.platformId) := initMachineDist_eq once
    refine ⟨?_, fun platform => ?_⟩
    · rw [tallied, Counts.total_tally, Counts.total_empty, zero_add, List.length_map, machines]
    · rw [tallied, Counts.getD_lookup_tally, AList.lookup_empty, Option.getD_none, zero_add,
        countP_machinesOf, Int.natCast_inj]
      unfold List.count
      rw [List.countP_map]
      exact List.countP_congr fun first _ => by simp

/-- A machine is updated under a new platform, and then added. -/
def updatedThenAdded : List Event :=
  [⟨0, 1, 2, "A".toList, 1 / 2, 1 / 2⟩, ⟨1, 1, 0, "A".toList, 1 / 2, 1 / 2⟩]

/-- One machine is counted twice. -/
theorem updated_machine_counted_twice :
    (updatedThenAdded.foldl Machines.step {}).initMachineDist.lookup "A".toList = some 2 ∧
      machinesOf updatedThenAdded = [1] ∧
      ¬ CountsFirsts updatedThenAdded
        (updatedThenAdded.foldl Machines.step {}).initMachineDist := by
  refine ⟨by decide, by decide, fun counts => ?_⟩
  exact absurd counts.total (by decide)

/-! ### Without removals -/

/-- Only machines that appeared work. -/
theorem appeared_of_working {events : List Event} {machine : ℤ}
    (works : machine ∈ (machinesAfter events).workingMachines) : Appeared events machine := by
  induction events using List.reverseRecOn with
  | nil => simp [machinesAfter] at works
  | append_singleton events event inductionHypothesis =>
      rw [machinesAfter_concat, Machines.workingMachines_step] at works
      rw [appeared_concat]
      split at works
      · rename_i enters
        rcases List.mem_append.mp works with old | new
        · exact .inl (inductionHypothesis old)
        · exact .inr ⟨(List.mem_singleton.mp new).symm, enters.1⟩
      · split at works
        · exact .inl (inductionHypothesis (List.mem_of_mem_erase works))
        · exact .inl (inductionHypothesis works)

/-- As long as no machine is removed, those that were seen work. -/
theorem working_of_seen {events : List Event} (kept : ∀ event ∈ events, event.eventType ≠ 1)
    {machine : ℤ} (seen : machine ∈ (machinesAfter events).seenMachines) :
    machine ∈ (machinesAfter events).workingMachines := by
  induction events using List.reverseRecOn with
  | nil => simp [machinesAfter] at seen
  | append_singleton events event inductionHypothesis =>
      rw [List.forall_mem_append, List.forall_mem_singleton] at kept
      obtain ⟨earlier, notRemove⟩ := kept
      rw [machinesAfter_concat, Machines.mem_seenMachines_step] at seen
      rw [machinesAfter_concat, Machines.workingMachines_step, if_neg notRemove]
      rcases seen with old | ⟨rfl, counted, _⟩
      · have works := inductionHypothesis earlier old
        split
        · exact List.mem_append_left _ works
        · exact works
      · by_cases works : event.machineId ∈ (machinesAfter events).workingMachines
        · split
          · exact List.mem_append_left _ works
          · exact works
        · rw [if_pos ⟨notRemove, works, counted.2.2⟩]
          simp

theorem machines_run_initial (events : List Event) :
    (Watched.run {} events).machines = machinesAfter events := Watched.machines_run {} events

/-- When no machine is removed and no event is late, the final distribution lists the
working machines. -/
theorem final_distribution_of_kept (iteration : Table.Iteration Text) {events : List Event}
    (kept : ∀ event ∈ events, event.eventType ≠ 1) (inTime : ¬ OccursIn LateEvent events) :
    ∃ rows, (events.foldl Machines.step {}).finalDistribution iteration = some rows ∧
      ListsWorking rows (Watched.run {} events) := by
  have once : ¬ OccursIn CountedAgain events := mt (occursIn_countedAgain_iff events).mp inTime
  refine (listsWorking_run_iff iteration events).mpr fun platform entered => ?_
  have removed : Watched.occurrences (Watched.removed platform) {} events = 0 := by
    apply Watched.occurrences_eq_zero
    rintro before event after rfl
    have notRemove := kept event (by simp)
    simp [Watched.removed, notRemove]
  have reentered : Watched.occurrences (Watched.reentered platform) {} events = 0 := by
    apply Watched.occurrences_eq_zero
    rintro before event after rfl
    rw [Watched.reentered, decide_eq_false_iff_not, machines_run_initial]
    rintro ⟨enters, seen, _⟩
    exact enters.2.1 (working_of_seen
      (fun earlier member => kept earlier (List.mem_append_left _ member)) seen)
  have recounted : Watched.occurrences (Watched.recounted platform) {} events = 0 := by
    apply Watched.occurrences_eq_zero
    intro before event after split
    rw [Watched.recounted, decide_eq_false_iff_not, machines_run_initial]
    rintro ⟨counted, works, _⟩
    exact once ⟨before, event, after, split, appeared_of_working works, counted⟩
  have balance := Watched.occurrences_balance {} events platform
  exact (Watched.lookup_iff events platform).mpr ⟨by omega, by omega⟩

end CSE550.Trace
