import CSE550.Paxos.LockSafety

/-!
Owns who may release a lock. The lock set does not say whose LOCK put a resource
there, and `execute_command` is not told whose command it executes: an UNLOCK
removes the resource whoever holds it, and fails an assertion when nobody does.
-/

namespace CSE550.Paxos

open CSE550.Lib

/-- The access a recorded resolution makes. -/
def recordedAccess : Value × Option ℤ → Option (Access ℤ ℤ)
  | (.command command, some clientId) => some (Entry.access (command, clientId))
  | _ => none

/-- The client whose LOCK last put the resource into the proposer's lock set, by
the resolutions the proposer has recorded. -/
def Proposer.lockHolder (proposer : Proposer) (resource : ℤ) : Option ℤ :=
  Access.holder resource (proposer.log.filterMap recordedAccess)

/-- What a step should do when it executes the client's UNLOCK: the resource
leaves the lock set only if the client holds it, and otherwise the proposer
keeps its lock set and runs on. -/
structure ReleasesOwn (before after : Proposer) (resource clientId : ℤ) : Prop where
  leaves : resource ∈ before.lockSet → resource ∉ after.lockSet →
    before.lockHolder resource = some clientId
  harmless : before.lockHolder resource ≠ some clientId →
    after.lockSet = before.lockSet ∧ ∀ error, after.status ≠ .raised error

/-- The step records and executes an UNLOCK of the resource by the client. -/
def ExecutesUnlock (cfg : Config) (group : Group) (label : Label) (next : Group) (server : ℕ)
    (resource clientId : ℤ) : Prop :=
  group.step cfg label = some next ∧ (next.proposers server).log =
    (group.proposers server).log ++ [Entry.resolution (⟨.UNLOCK, resource⟩, clientId)]

/-- Every UNLOCK the step executes releases only what its client holds. -/
def StepReleasesOwn (cfg : Config) (group : Group) (label : Label) : Prop :=
  ∀ next server resource clientId, ExecutesUnlock cfg group label next server resource clientId →
    ReleasesOwn (group.proposers server) (next.proposers server) resource clientId

/-- Every UNLOCK the step executes is of a resource its client holds. -/
def StepUnlocksHeld (cfg : Config) (group : Group) (label : Label) : Prop :=
  ∀ next server resource clientId, ExecutesUnlock cfg group label next server resource clientId →
    (group.proposers server).lockHolder resource = some clientId

theorem Replica.lockHolder_eq {log : List Entry} {proposer : Proposer}
    (replica : Replica log proposer) (resource : ℤ) :
    proposer.lockHolder resource =
      Access.holder resource ((log.take proposer.logfile.length).map Entry.access) := by
  have recorded : recordedAccess ∘ Entry.resolution = some ∘ Entry.access := rfl
  unfold Proposer.lockHolder
  rw [replica.log_eq, List.filterMap_map, recorded, List.filterMap_eq_map]

section Step

variable {cfg : Config} {group next : Group} {label : Label} {server : ℕ}

/-- The lock set of a running proposer consists of the resources with a holder. -/
theorem mem_lockSet_iff (distinct : cfg.DistinctIds) (reached : cfg.Reachable group)
    (running : (group.proposers server).status = .running) :
    (group.proposers server).lockSet.Nodup ∧ ∀ resource,
      resource ∈ (group.proposers server).lockSet ↔
        ((group.proposers server).lockHolder resource).isSome = true := by
  obtain ⟨ledger, _, refines, clients⟩ := clients_reachable distinct reached
  have replica := refines.replicas server
  obtain ⟨nodup, members⟩ := replay_spec
    (fun other member => clients.isCommand other (List.mem_of_mem_take member)) replica.lockSet
  refine ⟨nodup, fun resource => ?_⟩
  rw [members, replica.lockHolder_eq, replica.count running]

/-- Executing an UNLOCK removes a held resource and fails on a free one. -/
theorem unlock_effect (distinct : cfg.DistinctIds) (reached : cfg.Reachable group)
    {resource clientId : ℤ}
    (executes : ExecutesUnlock cfg group label next server resource clientId) :
    (resource ∈ (group.proposers server).lockSet ∧
        resource ∉ (next.proposers server).lockSet) ∨
      (resource ∉ (group.proposers server).lockSet ∧
        (next.proposers server).status = .raised .executeAssertion) := by
  obtain ⟨taken, grown⟩ := executes
  rcases step_resolutions taken server with same | ⟨msg, _, runs, resolves⟩
  · have lengths := congrArg List.length grown
    unfold Proposer.log at lengths
    rw [same] at lengths
    simp at lengths
  obtain ⟨ledger, _, refines⟩ := refines_reachable reached
  obtain ⟨_, _, refined⟩ := refines_reachable (reached.step taken)
  have replica := refines.replicas server
  obtain ⟨state, _, after⟩ := resolves.after
  have command : (group.proposers server).learntCommand = .command ⟨.UNLOCK, resource⟩ := by
    have last := (refined.replicas server).log_getElem? (group.proposers server).inst
    rw [grown, ← replica.count runs.2.2, ← replica.log_length, List.getElem?_concat_length,
      replica.log_length, replica.count runs.2.2, after] at last
    rcases resolve_cases ((group.proposers server).won cfg.groupSize msg state) msg with
      ⟨error, _, same⟩ | ⟨lockSet, _, same⟩ <;> rw [same] at last
    · have found := (AList.lookup_insert _).symm.trans last.symm
      exact (Prod.mk.inj (Option.some.inj found)).1
    · have found := (AList.lookup_insert _).symm.trans last.symm
      exact (Prod.mk.inj (Option.some.inj found)).1
  obtain ⟨nodup, _⟩ := mem_lockSet_iff distinct reached runs.2.2
  have execution : executeCommand (group.proposers server).lockSet
      (.command ⟨.UNLOCK, resource⟩) = if resource ∉ (group.proposers server).lockSet then
        .error .executeAssertion else .ok ((group.proposers server).lockSet.erase resource) := by
    simpa using executeCommand_eq nodup (show (⟨.UNLOCK, resource⟩ : Command).commandType ≠ .NONE
      by simp)
  rw [← command] at execution
  rw [after]
  by_cases held : resource ∈ (group.proposers server).lockSet
  · rw [if_neg (not_not.mpr held)] at execution
    rcases resolve_cases ((group.proposers server).won cfg.groupSize msg state) msg with
      ⟨error, result, _⟩ | ⟨lockSet, result, same⟩
    · cases execution.symm.trans result
    · cases execution.symm.trans result
      rw [same]
      exact .inl ⟨held, nodup.not_mem_erase⟩
  · rw [if_pos held] at execution
    rcases resolve_cases ((group.proposers server).won cfg.groupSize msg state) msg with
      ⟨error, result, same⟩ | ⟨lockSet, result, _⟩
    · cases execution.symm.trans result
      rw [same]
      exact .inr ⟨held, rfl⟩
    · cases execution.symm.trans result

/-- An UNLOCK releases only what its client holds exactly when its client holds
the resource. -/
theorem releasesOwn_iff (distinct : cfg.DistinctIds) (reached : cfg.Reachable group)
    {resource clientId : ℤ}
    (executes : ExecutesUnlock cfg group label next server resource clientId) :
    ReleasesOwn (group.proposers server) (next.proposers server) resource clientId ↔
      (group.proposers server).lockHolder resource = some clientId := by
  constructor
  · intro releases
    by_contra stranger
    obtain ⟨same, ends⟩ := releases.harmless stranger
    rcases unlock_effect distinct reached executes with ⟨held, left⟩ | ⟨_, failed⟩
    · exact left (same ▸ held)
    · exact ends _ failed
  · intro owner
    exact ⟨fun _ _ => owner, fun stranger => absurd owner stranger⟩

/-- In a run, every UNLOCK releases only what its client holds exactly when
every UNLOCK is of a resource its client holds. -/
theorem unlocks_release_own_iff (distinct : cfg.DistinctIds) {labels : List Label}
    (run : cfg.machine.Run labels group) :
    cfg.machine.Meets (StepReleasesOwn cfg) cfg.initial labels ↔
      cfg.machine.Meets (StepUnlocksHeld cfg) cfg.initial labels := by
  refine Machine.meets_congr (fun state label next reached _ => ?_) run
  exact forall₄_congr fun next server resource clientId =>
    forall_congr' fun executes => releasesOwn_iff distinct reached executes

end Step

/-- Client 0 locks resource 7 and client 1 unlocks it. -/
def stolenLock : Config :=
  .connected 3 2 (fun client => if client = 0 then [⟨.LOCK, 7⟩] else [⟨.UNLOCK, 7⟩])
    (by intro client; split <;> simp)

/-- Server 1 learns the LOCK of client 0 at instance 0 and resolves the UNLOCK of
its own client at instance 1, up to the last acknowledgement. -/
def stealingRun : List Label :=
  learntRun ++ [.send 1 [], .connection 0 .keep, .connection 0 .keep, .acceptor 0 true,
    .acceptor 2 true, .connection 0 .keep, .connection 0 .keep, .get 1 0 false, .get 1 1 false,
    .send 1 [], .connection 0 .keep, .connection 0 .keep, .acceptor 0 true, .acceptor 2 true,
    .connection 0 .keep, .connection 0 .keep, .get 1 0 false]

theorem stolenLock_distinct : stolenLock.DistinctIds :=
  fun _ _ _ _ same => Int.ofNat_inj.mp same

/-- The run in which the stranger's UNLOCK is executed respects owners exactly
when that UNLOCK is of a resource its client holds. -/
theorem unlocks_release_own_stolen :
    stolenLock.machine.Meets (StepReleasesOwn stolenLock) stolenLock.initial
        (stealingRun ++ [.get 1 1 false]) ↔
      stolenLock.machine.Meets (StepUnlocksHeld stolenLock) stolenLock.initial
        (stealingRun ++ [.get 1 1 false]) :=
  unlocks_release_own_iff stolenLock_distinct (Config.run_after (by decide +kernel))

/-- The last step of the run takes resource 7 from client 0. -/
theorem stranger_releases_lock :
    stolenLock.DistinctIds ∧
      stolenLock.machine.Run (stealingRun ++ [.get 1 1 false])
        (stolenLock.after (stealingRun ++ [.get 1 1 false])) ∧
      ¬ stolenLock.machine.Meets (StepReleasesOwn stolenLock) stolenLock.initial
        (stealingRun ++ [.get 1 1 false]) := by
  have enabled : (stolenLock.machine.runFrom stolenLock.initial
      (stealingRun ++ [.get 1 1 false])).isSome = true := by decide +kernel
  have before : stolenLock.machine.Run stealingRun (stolenLock.after stealingRun) :=
    Config.run_after (by decide +kernel)
  refine ⟨stolenLock_distinct, Config.run_after enabled,
    Machine.not_meets_last before fun releases => ?_⟩
  have executes : ExecutesUnlock stolenLock (stolenLock.after stealingRun) (.get 1 1 false)
      (stolenLock.after (stealingRun ++ [.get 1 1 false])) 1 7 1 :=
    ⟨Config.step_after enabled, by decide +kernel⟩
  have leaves := (releases _ 1 7 1 executes).leaves (by decide +kernel) (by decide +kernel)
  have holder : ((stolenLock.after stealingRun).proposers 1).lockHolder 7 = some 0 := by
    decide +kernel
  rw [holder] at leaves
  cases leaves

end CSE550.Paxos
