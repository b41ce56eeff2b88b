import CSE550.LockFile.Generate

/-!
Owns the other generators of `lock_file.py`: `make_simple_file` and
`make_contentious_lock_file`, whose files are runnable whatever the number of
locks, and `make_deadlock_file`, which never gets to write one.

Does not own what a group of servers makes of the files.
-/

namespace CSE550.LockFile

open CSE550.Lib CSE550.Paxos

/-! ### Locking and unlocking in turn -/

/-- The loop of both generators: each round appends the lock and the unlock command
of one resource. -/
def lockedInTurn (newLock : ℕ → ℤ) (numLocks : ℤ) : List Command :=
  (List.range numLocks.toNat).flatMap fun i => [⟨.LOCK, newLock i⟩, ⟨.UNLOCK, newLock i⟩]

/-- The commands of `make_simple_file`. -/
def simpleCommands (numLocks : ℤ) : List Command := lockedInTurn (fun i => i) numLocks

/-- The file `make_simple_file` writes. -/
def makeSimpleFile (numLocks : ℤ) : Text := commandFile (simpleCommands numLocks)

/-- The commands of `make_contentious_lock_file`. -/
def contentiousCommands (numLocks : ℤ) : List Command := lockedInTurn (fun _ => 1337) numLocks

/-- The file `make_contentious_lock_file` writes. -/
def makeContentiousLockFile (numLocks : ℤ) : Text := commandFile (contentiousCommands numLocks)

section InTurn

variable {newLock : ℕ → ℤ} {numLocks : ℤ} {command : Command}

theorem mem_lockedInTurn : command ∈ lockedInTurn newLock numLocks ↔
    ∃ i : ℕ, (i : ℤ) < numLocks ∧
      (command = ⟨.LOCK, newLock i⟩ ∨ command = ⟨.UNLOCK, newLock i⟩) := by
  unfold lockedInTurn
  simp only [List.mem_flatMap, List.mem_range, List.mem_cons, List.not_mem_nil, or_false,
    Int.lt_toNat]

theorem lockedInTurn_isCommand : ∀ command ∈ lockedInTurn newLock numLocks,
    command.commandType ≠ .NONE := by
  intro command member
  obtain ⟨i, _, rfl | rfl⟩ := mem_lockedInTurn.mp member <;> simp

/-- Whoever executes the commands alone holds nothing after each round. -/
theorem replay_lockedInTurn (clientId : ℤ) :
    lockService.replay (entriesOf clientId (lockedInTurn newLock numLocks)) = some [] := by
  unfold lockedInTurn
  induction numLocks.toNat with
  | zero => rfl
  | succ rounds inductionHypothesis =>
      have locked := replay_lock List.nodup_nil inductionHypothesis (newLock rounds)
      rw [if_neg List.not_mem_nil] at locked
      have unlocked := replay_unlock (List.nodup_singleton _) locked (List.mem_singleton.mpr rfl)
      rw [List.range_succ, List.flatMap_append]
      simpa using unlocked

theorem count_lockedInTurn : ((lockedInTurn newLock numLocks).filter
    fun command => command.commandType = .LOCK).length = numLocks.toNat := by
  unfold lockedInTurn
  induction numLocks.toNat with
  | zero => rfl
  | succ rounds inductionHypothesis =>
      rw [List.range_succ, List.flatMap_append, List.filter_append, List.length_append,
        inductionHypothesis]
      rfl

theorem lockedInTurn_runnable (clientId : ℤ) :
    Runnable numLocks.toNat clientId (lockedInTurn newLock numLocks) where
  locks := count_lockedInTurn
  courteous := by
    apply (courteous_iff_replay lockedInTurn_isCommand).mpr
    rw [replay_lockedInTurn]
    rfl
  released := by
    intro resource held
    have inEmpty := ((replay_entriesOf lockedInTurn_isCommand
      (replay_lockedInTurn clientId)).2 resource).mp held
    cases inEmpty
  unblocked := by
    rw [replay_lockedInTurn]
    rfl

/-- A file of pairs is read back when its resources are machine integers. -/
theorem readCommandFile_lockedInTurn
    (machine : ∀ i : ℕ, (i : ℤ) < numLocks → MachineInt (newLock i)) :
    readCommandFile (commandFile (lockedInTurn newLock numLocks)) =
      some (lockedInTurn newLock numLocks) := by
  apply readCommandFile_commandFile
  intro command member
  refine ⟨lockedInTurn_isCommand command member, ?_⟩
  obtain ⟨i, inside, rfl | rfl⟩ := mem_lockedInTurn.mp member
  · exact machine i inside
  · exact machine i inside

end InTurn

/-! ### The deadlock file -/

/-- How `make_deadlock_file` ends. -/
inductive DeadlockEnding where
  /-- `locks[index]` with `index == len(locks)`. -/
  | indexError
  /-- One of the two assertions after the loop. -/
  | assertionFailed
  | wrote (content : Text)
deriving DecidableEq

/-- What follows the loop. -/
def finishDeadlock (cmdList : List Command) (lockSet : List ℤ) : DeadlockEnding :=
  if lockSet.length = 256 ∧ cmdList.length = 256 then
    .wrote (commandFile (cmdList ++
      (List.range 256).map fun i : ℕ => ⟨.UNLOCK, i⟩))
  else .assertionFailed

/-- The loop, on the results of `random.randint` in their order; `none` when the
draws end before the loop does or one is out of its range. No round changes
`lock_set`. -/
def deadlockLoop (numLocks : ℤ) (cmdList : List Command) (lockSet locks : List ℤ) :
    List ℕ → Option DeadlockEnding
  | [] => if lockSet.length < numLocks then none else some (finishDeadlock cmdList lockSet)
  | index :: draws =>
      if lockSet.length < numLocks then
        if index ≤ locks.length then
          match locks[index]? with
          | none => some .indexError
          | some lock =>
              deadlockLoop numLocks (cmdList ++ [⟨.LOCK, lock⟩]) lockSet (locks.eraseIdx index) draws
        else none
      else some (finishDeadlock cmdList lockSet)

/-- `make_deadlock_file`. -/
def makeDeadlockFile (numLocks : ℤ) (draws : List ℕ) : Option DeadlockEnding :=
  deadlockLoop numLocks [] [] ((List.range 256).map fun i : ℕ => (i : ℤ)) draws

/-- The draws are results of `random.randint(0, left)`, `random.randint(0, left - 1)` and so on,
down to `random.randint(0, 0)`. -/
def DrawsFrom (left : ℕ) (draws : List ℕ) : Prop :=
  ∀ position ≤ left, ∀ index, draws[position]? = some index → index + position ≤ left

section Deadlock

variable {numLocks : ℤ} {cmdList : List Command} {locks : List ℤ} {draws : List ℕ}

/-- Without locks to take the loop is not entered, and `lock_set` is not full. -/
theorem deadlockLoop_of_nonpos (none : numLocks ≤ 0) :
    deadlockLoop numLocks cmdList [] locks draws = some .assertionFailed := by
  cases draws <;> simp [deadlockLoop, finishDeadlock, none]

/-- The loop only ends with an exception. -/
theorem deadlockLoop_raises (positive : 0 < numLocks) {ending : DeadlockEnding}
    (ended : deadlockLoop numLocks cmdList [] locks draws = some ending) :
    ending = .indexError := by
  induction draws generalizing cmdList locks with
  | nil => simp [deadlockLoop, positive] at ended
  | cons index draws inductionHypothesis =>
      rw [deadlockLoop, if_pos (by simpa using positive)] at ended
      split at ended
      · split at ended
        · exact (Option.some.inj ended).symm
        · exact inductionHypothesis ended
      · cases ended

/-- It ends at the latest when no lock is left to draw. -/
theorem deadlockLoop_ends (positive : 0 < numLocks) (enough : locks.length < draws.length)
    (inRange : DrawsFrom locks.length draws) :
    deadlockLoop numLocks cmdList [] locks draws = some .indexError := by
  induction draws generalizing cmdList locks with
  | nil => cases enough
  | cons index draws inductionHypothesis =>
      have first : index ≤ locks.length := inRange 0 (Nat.zero_le _) index rfl
      rw [deadlockLoop, if_pos (by simpa using positive), if_pos first]
      cases found : locks[index]? with
      | none => rfl
      | some lock =>
          have inside := (List.getElem?_eq_some_iff.mp found).1
          have shorter := List.length_eraseIdx_of_lt inside
          apply inductionHypothesis
          · rw [List.length_cons] at enough
            omega
          · intro position bound other there
            rw [shorter] at bound ⊢
            have next := inRange (position + 1) (by omega) other there
            omega

end Deadlock

/-- `make_deadlock_file` never writes a file: without a lock to take it fails its
assertion, and otherwise it raises an exception after at most 257 draws. -/
theorem deadlock_file_never_written (numLocks : ℤ) (draws : List ℕ) :
    (∀ content, makeDeadlockFile numLocks draws ≠ some (.wrote content)) ∧
      (numLocks ≤ 0 → makeDeadlockFile numLocks draws = some .assertionFailed) ∧
      (0 < numLocks → 256 < draws.length → DrawsFrom 256 draws →
        makeDeadlockFile numLocks draws = some .indexError) := by
  have all : ((List.range 256).map fun i : ℕ => (i : ℤ)).length = 256 := by
    rw [List.length_map, List.length_range]
  refine ⟨fun content written => ?_, deadlockLoop_of_nonpos, fun positive enough inRange => ?_⟩
  · by_cases positive : 0 < numLocks
    · cases deadlockLoop_raises positive written
    · rw [makeDeadlockFile, deadlockLoop_of_nonpos (not_lt.mp positive)] at written
      cases written
  · apply deadlockLoop_ends positive
    · rwa [all]
    · rwa [all]

/-- Drawing the first lock that is left, to the end. -/
theorem deadlock_file_first_draws :
    makeDeadlockFile 4 (List.replicate 257 0) = some .indexError := by
  apply (deadlock_file_never_written 4 (List.replicate 257 0)).2.2 (by decide)
  · rw [List.length_replicate]
    omega
  · intro position bound index found
    obtain ⟨_, rfl⟩ := List.getElem?_eq_some_iff.mp found
    rw [List.getElem_replicate]
    omega

end CSE550.LockFile
