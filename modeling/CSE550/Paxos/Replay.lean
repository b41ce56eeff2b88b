import CSE550.Paxos.Refinement

/-!
Owns what a running proposer knows about its own past: `instance_resolutions`
and the log file hold one entry for each instance before the current one, and
`lock_set` is what executing the recorded commands in order leaves.

Does not own how the entries come to be the same in every proposer.
-/

namespace CSE550.Paxos

open CSE550.Lib

/-- Executing recorded commands in order. -/
def executeRecorded (lockSet : List ℤ) (resolutions : List (Value × Option ℤ)) :
    Except Raised (List ℤ) :=
  resolutions.foldlM (fun lockSet resolution => executeCommand lockSet resolution.1) lockSet

/-- The dictionary, the log file and the lock set of a proposer fit its instance. -/
structure ReplaysLog (proposer : Proposer) : Prop where
  keys : ∀ index, index ∈ proposer.instanceResolutions ↔ index < proposer.inst
  lines : proposer.logfile.length = proposer.inst
  line : ∀ index < proposer.inst, ∃ command clientId,
    proposer.instanceResolutions.lookup index = some (command, clientId) ∧
      proposer.logfile[index]? = some ⟨index, clientId, command⟩
  distinct : proposer.lockSet.Nodup
  replayed : executeRecorded [] proposer.log = .ok proposer.lockSet

/-- What a step does to the records of a proposer: nothing, or it records the
current instance, which was not recorded before, and moves to the next one unless
the command cannot be executed. -/
inductive RecordStep (before after : Proposer) : Prop
  | unchanged (resolutions : after.instanceResolutions = before.instanceResolutions)
      (inst : after.inst = before.inst) : RecordStep before after
  | resolved (resolution : Value × Option ℤ) (new : before.inst ∉ before.instanceResolutions)
      (resolutions : after.instanceResolutions =
        before.instanceResolutions.insert before.inst resolution)
      (inst : after.inst = before.inst + 1 ∨ ∃ error, after.status = .raised error) :
      RecordStep before after

/-! ### Executing a log -/

theorem executeCommand_nodup {lockSet after : List ℤ} {value : Value} (nodup : lockSet.Nodup)
    (executed : executeCommand lockSet value = .ok after) : after.Nodup := by
  cases value with
  | none => cases executed
  | int number => cases executed
  | command command =>
      rcases command with ⟨kind, resource⟩
      cases kind with
      | NONE => cases executed
      | LOCK =>
          by_cases held : resource ∈ lockSet
          · simp [executeCommand, held] at executed
          · simp only [executeCommand, held, if_false, Except.ok.injEq] at executed
            rw [← executed]
            exact nodup.append (List.nodup_singleton _) (List.disjoint_singleton.mpr held)
      | UNLOCK =>
          by_cases held : resource ∈ lockSet
          · simp only [executeCommand, held, if_true, nodup.not_mem_erase, if_false,
              Except.ok.injEq] at executed
            rw [← executed]
            exact nodup.erase _
          · simp [executeCommand, held] at executed

/-- Executing the recorded commands is the replay of the log they come from. -/
theorem executeRecorded_eq {log : List Entry} {lockSet after : List ℤ}
    (replayed : log.foldlM lockService.apply lockSet = some after) :
    executeRecorded lockSet (log.map Entry.resolution) = .ok after := by
  induction log generalizing lockSet with
  | nil => exact congrArg Except.ok (Option.some.inj replayed)
  | cons entry log inductionHypothesis =>
      rw [List.foldlM_cons] at replayed
      rcases Option.bind_eq_some_iff.mp replayed with ⟨middle, applied, later⟩
      have executed : executeCommand lockSet (.command entry.1) = .ok middle := by
        cases result : executeCommand lockSet (.command entry.1) with
        | error error => simp [lockService, result, Except.toOption] at applied
        | ok state =>
            simp only [lockService, result, Except.toOption, Option.some.injEq] at applied
            rw [applied]
      rw [List.map_cons, executeRecorded, List.foldlM_cons]
      show (executeCommand lockSet (.command entry.1)).bind _ = _
      rw [executed]
      exact inductionHypothesis later

theorem executeRecorded_nodup {resolutions : List (Value × Option ℤ)} {lockSet after : List ℤ}
    (nodup : lockSet.Nodup) (executed : executeRecorded lockSet resolutions = .ok after) :
    after.Nodup := by
  induction resolutions generalizing lockSet with
  | nil => exact Except.ok.inj executed ▸ nodup
  | cons resolution resolutions inductionHypothesis =>
      rw [executeRecorded, List.foldlM_cons] at executed
      cases result : executeCommand lockSet resolution.1 with
      | error error =>
          rw [result] at executed
          cases executed
      | ok middle =>
          rw [result] at executed
          exact inductionHypothesis (executeCommand_nodup nodup result) executed

/-! ### The proposer as a replica -/

section Replay

variable {cfg : Config} {group next : Group} {label : Label}

theorem Replica.replaysLog {log : List Entry} {proposer : Proposer} (replica : Replica log proposer)
    (count : proposer.logfile.length = proposer.inst) : ReplaysLog proposer := by
  have inside {index : ℕ} (below : index < proposer.inst) :
      ∃ entry, (log.take proposer.logfile.length)[index]? = some entry := by
    have bound := replica.bound
    exact ⟨_, List.getElem?_eq_getElem (by rw [List.length_take]; omega)⟩
  have executed : executeRecorded [] proposer.log = .ok proposer.lockSet := by
    rw [replica.log_eq, count]
    exact executeRecorded_eq replica.lockSet
  refine ⟨fun index => ?_, count, fun index below => ?_, executeRecorded_nodup .nil executed,
    executed⟩
  · rw [← AList.lookup_isSome, replica.resolutions, Option.isSome_map]
    constructor
    · intro found
      by_contra above
      rw [List.getElem?_take, count, if_neg above] at found
      cases found
    · intro below
      rcases inside below with ⟨entry, found⟩
      rw [found]
      rfl
  · rcases inside below with ⟨entry, found⟩
    exact ⟨.command entry.1, some entry.2, by rw [replica.resolutions, found]; rfl,
      by rw [replica.lines, found]; rfl⟩

theorem replaysLog_reachable (reached : cfg.Reachable group) {server : ℕ}
    (running : (group.proposers server).status = .running) :
    ReplaysLog (group.proposers server) := by
  rcases refines_reachable reached with ⟨ledger, _, refines⟩
  have replica := refines.replicas server
  exact replica.replaysLog (replica.count running)

theorem recordStep_of_step (reached : cfg.Reachable group)
    (taken : group.step cfg label = some next) (server : ℕ) :
    RecordStep (group.proposers server) (next.proposers server) := by
  rcases step_records taken server with ⟨resolutions, inst⟩ | ⟨msg, _, runs, resolves⟩
  · exact .unchanged resolutions inst
  · have replays := replaysLog_reachable reached runs.2.2
    have new : (group.proposers server).inst ∉ (group.proposers server).instanceResolutions := by
      rw [replays.keys]
      exact Nat.lt_irrefl _
    rcases resolves.after with ⟨state, _, after⟩
    have resolutions : (next.proposers server).instanceResolutions =
        (group.proposers server).instanceResolutions.insert (group.proposers server).inst
          ((group.proposers server).learntCommand, msg.clientId) := by
      rw [after, resolve_instanceResolutions]
      rfl
    refine .resolved _ new resolutions ?_
    rw [after]
    rcases resolve_cases ((group.proposers server).won cfg.groupSize msg state) msg with
      ⟨error, _, same⟩ | ⟨lockSet, _, same⟩
    · rw [same]
      exact .inr ⟨error, rfl⟩
    · rw [same]
      exact .inl rfl

/-- In every run, whenever a proposer is in its loop, its dictionary, its log file
and its lock set are those of the instances before the current one; and no step
skips an instance or resolves one again. -/
theorem replica_state_is_replay (reached : cfg.Reachable group) (server : ℕ) :
    ((group.proposers server).status = .running → ReplaysLog (group.proposers server)) ∧
      ∀ label next, group.step cfg label = some next →
        RecordStep (group.proposers server) (next.proposers server) :=
  ⟨replaysLog_reachable reached, fun _ _ taken => recordStep_of_step reached taken server⟩

end Replay

/-- Both proposers that have resolved instance 0 hold the lock of resource 7. -/
theorem replica_state_learnt :
    (((twoLocks.after learntRun).proposers 0).inst = 1 ∧
      ReplaysLog ((twoLocks.after learntRun).proposers 0)) ∧
    (((twoLocks.after learntRun).proposers 1).inst = 1 ∧
      ReplaysLog ((twoLocks.after learntRun).proposers 1)) := by
  have reached := Config.reachable_after twoLocks learntRun
  constructor
  · exact ⟨by decide, (replica_state_is_replay reached 0).1 (by decide)⟩
  · exact ⟨by decide, (replica_state_is_replay reached 1).1 (by decide)⟩

end CSE550.Paxos
