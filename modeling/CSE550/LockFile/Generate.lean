import CSE550.LockFile.CrossCheck
import CSE550.Paxos.LockSafety

/-!
Owns `make_lock_file`: the command files it writes, and when a client can run
such a file alone.

The generator draws the resource of a lock command without a look at the ones it
holds, so whether a file is runnable depends on the draws.
-/

namespace CSE550.LockFile

open CSE550.Lib CSE550.Paxos

/-! ### The code -/

/-- The local variables of the loop. -/
structure Generating where
  cmdList : List Command
  lockSet : List ℤ
  aLocks : ℕ

namespace Generating

/-- Before the loop. -/
def start : Generating := ⟨[], [], 0⟩

/-- The round that appends an unlock command for `lock_set[index]`. -/
def release (state : Generating) (index : ℕ) (releasedLock : ℤ) : Generating :=
  { state with
    lockSet := state.lockSet.eraseIdx index
    cmdList := state.cmdList ++ [⟨.UNLOCK, releasedLock⟩] }

/-- The round that appends a lock command. -/
def acquire (state : Generating) (newLock : ℤ) : Generating where
  cmdList := state.cmdList ++ [⟨.LOCK, newLock⟩]
  aLocks := state.aLocks + 1
  lockSet := state.lockSet ++ [newLock]

/-- The loop, on the results of `random.randint` in their order; `none` when the
draws end before the loop does or one is out of its range. -/
def loop (numLocks : ℕ) (state : Generating) : List ℕ → Option Generating
  | [] => if state.aLocks < numLocks then none else some state
  | chance :: draws =>
      if state.aLocks < numLocks then
        if chance < 50 then
          if state.lockSet.length = 0 then loop numLocks state draws
          else
            match draws with
            | [] => none
            | index :: draws =>
                match state.lockSet[index]? with
                | some releasedLock => loop numLocks (state.release index releasedLock) draws
                | none => none
        else if chance ≤ 100 then
          match draws with
          | [] => none
          | newLock :: draws =>
              if newLock ≤ 256 then loop numLocks (state.acquire newLock) draws else none
        else none
      else some state

/-- The commands after "release any remaining locks". -/
def releaseAll (state : Generating) : List Command :=
  state.cmdList ++ state.lockSet.map fun releasedLock => ⟨.UNLOCK, releasedLock⟩

end Generating

/-- The commands of `make_lock_file`. -/
def generatedCommands (numLocks : ℕ) (draws : List ℕ) : Option (List Command) :=
  (Generating.loop numLocks .start draws).map Generating.releaseAll

/-- A file of commands, one on a line. -/
def commandFile (commands : List Command) : Text :=
  commands.flatMap fun cmd => commandText cmd ++ ['\n']

/-- The file `make_lock_file` writes; `none` when its loop does not end. -/
def makeLockFile (numLocks : ℕ) (draws : List ℕ) : Option Text :=
  (generatedCommands numLocks draws).map commandFile

/-- The commands a client reads from a file; `none` when it fails on a line. -/
def readCommandFile (content : Text) : Option (List Command) :=
  (Text.lines content).mapM createCommand

/-! ### Runnable files -/

/-- The commands as those of one client. -/
def entriesOf (clientId : ℤ) (commands : List Command) : List Entry :=
  commands.map fun command => (command, clientId)

/-- What a generated file should be for the client that runs it alone. -/
structure Runnable (numLocks : ℕ) (clientId : ℤ) (commands : List Command) : Prop where
  locks : (commands.filter fun command => command.commandType = .LOCK).length = numLocks
  /-- It locks what it does not hold and unlocks what it holds. -/
  courteous : Access.Throughout Access.Courteous ((entriesOf clientId commands).map Entry.access)
  released : ∀ resource,
    ¬ Access.Holds clientId resource ((entriesOf clientId commands).map Entry.access)
  /-- Every command can be executed when its turn comes. -/
  unblocked : (lockService.replay (entriesOf clientId commands)).isSome = true

/-- Every round that appends a lock command draws a resource that is not in
`lock_set`. -/
def DrawsFree (numLocks : ℕ) (state : Generating) : List ℕ → Prop
  | [] => True
  | chance :: draws =>
      if state.aLocks < numLocks then
        if chance < 50 then
          if state.lockSet.length = 0 then DrawsFree numLocks state draws
          else
            match draws with
            | [] => True
            | index :: draws =>
                match state.lockSet[index]? with
                | some releasedLock => DrawsFree numLocks (state.release index releasedLock) draws
                | none => True
        else
          match draws with
          | [] => True
          | newLock :: draws =>
              (newLock : ℤ) ∉ state.lockSet ∧ DrawsFree numLocks (state.acquire newLock) draws
      else True

/-! ### Executing the commands alone -/

variable {clientId : ℤ} {commands : List Command} {lockSet : List ℤ}

@[simp] theorem entriesOf_append (clientId : ℤ) (commands more : List Command) :
    entriesOf clientId (commands ++ more) =
      entriesOf clientId commands ++ entriesOf clientId more := List.map_append

@[simp] theorem entriesOf_singleton (clientId : ℤ) (command : Command) :
    entriesOf clientId [command] = [(command, clientId)] := rfl

theorem owner_entriesOf (clientId : ℤ) (commands : List Command) :
    ∀ access ∈ (entriesOf clientId commands).map Entry.access, access.owner = clientId := by
  intro access member
  rcases List.mem_map.mp member with ⟨entry, inEntries, rfl⟩
  rcases List.mem_map.mp inEntries with ⟨command, _, rfl⟩
  rfl

/-- After its commands a client that runs alone holds what is in the lock set. -/
theorem replay_entriesOf (isCommand : ∀ command ∈ commands, command.commandType ≠ .NONE)
    (replayed : lockService.replay (entriesOf clientId commands) = some lockSet) :
    lockSet.Nodup ∧ ∀ resource,
      Access.Holds clientId resource ((entriesOf clientId commands).map Entry.access) ↔
        resource ∈ lockSet := by
  have isEntry : ∀ entry ∈ entriesOf clientId commands, entry.1.commandType ≠ .NONE := by
    intro entry member
    rcases List.mem_map.mp member with ⟨command, inCommands, rfl⟩
    exact isCommand command inCommands
  have own := Access.ofOwner_eq_self (owner_entriesOf clientId commands)
  rcases replay_spec isEntry replayed with ⟨nodup, members⟩
  refine ⟨nodup, fun resource => ?_⟩
  rw [members]
  constructor
  · intro held
    unfold Access.Holds at held
    rw [own] at held
    rw [held]
    rfl
  · intro held
    exact Access.holder_ofOwner (own.symm ▸ held)

/-- Commands can be executed one after the other exactly when the client locks
what it does not hold and unlocks what it holds. -/
theorem courteous_iff_replay (isCommand : ∀ command ∈ commands, command.commandType ≠ .NONE) :
    Access.Throughout Access.Courteous ((entriesOf clientId commands).map Entry.access) ↔
      (lockService.replay (entriesOf clientId commands)).isSome = true := by
  induction commands using List.reverseRecOn with
  | nil => simp [entriesOf, Access.Throughout, lockService, Service.replay]
  | append_singleton commands command inductionHypothesis =>
      have older : ∀ command ∈ commands, command.commandType ≠ .NONE :=
        fun other member => isCommand other (List.mem_append_left _ member)
      have last := isCommand command (by simp)
      rw [entriesOf_append, List.map_append, entriesOf_singleton, List.map_singleton,
        Access.throughout_concat, inductionHypothesis older, Service.replay_concat]
      cases replayed : lockService.replay (entriesOf clientId commands) with
      | none => simp
      | some lockSet =>
          rcases replay_entriesOf older replayed with ⟨nodup, held⟩
          simp only [Access.Courteous, Entry.access, held, Option.isSome_some, true_and,
            Option.bind_some, lockService, executeCommand_eq nodup last]
          by_cases isLock : command.commandType = .LOCK <;>
            by_cases inSet : command.resourceId ∈ lockSet <;>
              simp [isLock, inSet, Except.toOption]

/-- Alone, a client locks a resource exactly when it is not in the lock set. -/
theorem replay_lock (nodup : lockSet.Nodup)
    (replayed : lockService.replay (entriesOf clientId commands) = some lockSet) (newLock : ℤ) :
    lockService.replay (entriesOf clientId (commands ++ [⟨.LOCK, newLock⟩])) =
      if newLock ∈ lockSet then none else some (lockSet ++ [newLock]) := by
  rw [entriesOf_append, entriesOf_singleton, Service.replay_concat, replayed, Option.bind_some]
  by_cases held : newLock ∈ lockSet <;>
    simp [lockService, executeCommand_eq nodup, held, Except.toOption]

theorem replay_unlock (nodup : lockSet.Nodup)
    (replayed : lockService.replay (entriesOf clientId commands) = some lockSet)
    {releasedLock : ℤ} (held : releasedLock ∈ lockSet) :
    lockService.replay (entriesOf clientId (commands ++ [⟨.UNLOCK, releasedLock⟩])) =
      some (lockSet.erase releasedLock) := by
  rw [entriesOf_append, entriesOf_singleton, Service.replay_concat, replayed, Option.bind_some]
  simp [lockService, executeCommand_eq nodup, held, Except.toOption]

/-- Unlocking all of the lock set leaves nothing held. -/
theorem replay_unlock_all (nodup : lockSet.Nodup)
    (replayed : lockService.replay (entriesOf clientId commands) = some lockSet) :
    lockService.replay (entriesOf clientId
      (commands ++ lockSet.map fun releasedLock => ⟨.UNLOCK, releasedLock⟩)) = some [] := by
  induction lockSet generalizing commands with
  | nil => simpa using replayed
  | cons releasedLock lockSet inductionHypothesis =>
      have first := replay_unlock nodup replayed List.mem_cons_self
      rw [List.erase_cons_head] at first
      have rest := inductionHypothesis (List.nodup_cons.mp nodup).2 first
      rwa [List.append_assoc] at rest

/-! ### The rounds of the loop -/

namespace Generating

/-- The rounds from a state to the end of the loop, with the draws they use. -/
inductive Rounds (numLocks : ℕ) : Generating → List ℕ → Generating → Prop
  | finished (state : Generating) (draws : List ℕ) (enough : ¬ state.aLocks < numLocks) :
      Rounds numLocks state draws state
  | pass (state : Generating) (chance : ℕ) (draws : List ℕ) (done : Generating)
      (more : state.aLocks < numLocks) (low : chance < 50) (empty : state.lockSet.length = 0)
      (rest : Rounds numLocks state draws done) : Rounds numLocks state (chance :: draws) done
  | release (state : Generating) (chance index : ℕ) (draws : List ℕ) (done : Generating)
      (releasedLock : ℤ) (more : state.aLocks < numLocks) (low : chance < 50)
      (nonempty : ¬ state.lockSet.length = 0) (found : state.lockSet[index]? = some releasedLock)
      (rest : Rounds numLocks (state.release index releasedLock) draws done) :
      Rounds numLocks state (chance :: index :: draws) done
  | acquire (state : Generating) (chance newLock : ℕ) (draws : List ℕ) (done : Generating)
      (more : state.aLocks < numLocks) (high : ¬ chance < 50) (small : newLock ≤ 256)
      (rest : Rounds numLocks (state.acquire newLock) draws done) :
      Rounds numLocks state (chance :: newLock :: draws) done

variable {numLocks : ℕ} {state done : Generating} {draws : List ℕ}

theorem rounds_of_loop (ended : loop numLocks state draws = some done) :
    Rounds numLocks state draws done := by
  fun_induction loop numLocks state draws with
  | case1 | case4 | case6 | case7 | case9 | case10 => cases ended
  | case2 state enough | case11 state _ _ enough =>
      cases ended
      exact .finished _ _ enough
  | case3 state chance draws more low empty inductionHypothesis =>
      exact .pass state chance draws done more low empty (inductionHypothesis ended)
  | case5 state chance more low nonempty index draws releasedLock found inductionHypothesis =>
      exact .release state chance index draws done releasedLock more low nonempty found
        (inductionHypothesis ended)
  | case8 state chance more high _ newLock draws small inductionHypothesis =>
      exact .acquire state chance newLock draws done more high small (inductionHypothesis ended)

/-- The loop only appends commands. -/
theorem Rounds.appends (rounds : Rounds numLocks state draws done) :
    state.cmdList <+: done.cmdList := by
  induction rounds with
  | finished state draws => exact List.prefix_rfl
  | pass state chance draws done more low empty rest inductionHypothesis =>
      exact inductionHypothesis
  | release state chance index draws done releasedLock more low nonempty found rest
      inductionHypothesis => exact (List.prefix_append _ _).trans inductionHypothesis
  | acquire state chance newLock draws done more high small rest inductionHypothesis =>
      exact (List.prefix_append _ _).trans inductionHypothesis

/-- What the loop keeps whatever it draws. -/
structure Counted (numLocks : ℕ) (state : Generating) : Prop where
  locks : (state.cmdList.filter fun command => command.commandType = .LOCK).length = state.aLocks
  bound : state.aLocks ≤ numLocks
  drawn : ∀ resource ∈ state.lockSet, 0 ≤ resource ∧ resource ≤ 256
  isCommand : ∀ command ∈ state.cmdList,
    command.commandType ≠ .NONE ∧ 0 ≤ command.resourceId ∧ command.resourceId ≤ 256

theorem Counted.release (counted : Counted numLocks state) {index : ℕ} {releasedLock : ℤ}
    (found : state.lockSet[index]? = some releasedLock) :
    Counted numLocks (state.release index releasedLock) where
  locks := by simpa [Generating.release] using counted.locks
  bound := counted.bound
  drawn := fun resource member => counted.drawn resource (List.mem_of_mem_eraseIdx member)
  isCommand := by
    intro command member
    rcases List.mem_append.mp member with old | new
    · exact counted.isCommand command old
    · obtain rfl := List.mem_singleton.mp new
      exact ⟨by simp, counted.drawn releasedLock (List.mem_of_getElem? found)⟩

theorem Counted.acquire (counted : Counted numLocks state) (more : state.aLocks < numLocks)
    {newLock : ℕ} (small : newLock ≤ 256) : Counted numLocks (state.acquire newLock) where
  locks := by simpa [Generating.acquire] using counted.locks
  bound := more
  drawn := by
    intro resource member
    rcases List.mem_append.mp member with old | new
    · exact counted.drawn resource old
    · obtain rfl := List.mem_singleton.mp new
      omega
  isCommand := by
    intro command member
    rcases List.mem_append.mp member with old | new
    · exact counted.isCommand command old
    · obtain rfl := List.mem_singleton.mp new
      exact ⟨by simp, by simp, by simpa using small⟩

theorem Rounds.counted (rounds : Rounds numLocks state draws done)
    (counted : Counted numLocks state) : Counted numLocks done ∧ done.aLocks = numLocks := by
  induction rounds with
  | finished state draws enough =>
      have bound := counted.bound
      exact ⟨counted, by omega⟩
  | pass state chance draws done more low empty rest inductionHypothesis =>
      exact inductionHypothesis counted
  | release state chance index draws done releasedLock more low nonempty found rest
      inductionHypothesis => exact inductionHypothesis (counted.release found)
  | acquire state chance newLock draws done more high small rest inductionHypothesis =>
      exact inductionHypothesis (counted.acquire more small)

theorem start_counted : Counted numLocks start :=
  ⟨rfl, Nat.zero_le _, by simp [start], by simp [start]⟩

theorem Counted.releaseAll (counted : Counted numLocks state) :
    ∀ command ∈ state.releaseAll,
      command.commandType ≠ .NONE ∧ 0 ≤ command.resourceId ∧ command.resourceId ≤ 256 := by
  intro command member
  rcases List.mem_append.mp member with old | new
  · exact counted.isCommand command old
  · rcases List.mem_map.mp new with ⟨releasedLock, inSet, rfl⟩
    exact ⟨by simp, counted.drawn releasedLock inSet⟩

/-- The commands so far can be executed, and leave the lock set held. -/
structure Replays (clientId : ℤ) (state : Generating) : Prop where
  nodup : state.lockSet.Nodup
  replayed : lockService.replay (entriesOf clientId state.cmdList) = some state.lockSet

theorem Replays.release (replays : Replays clientId state) {index : ℕ} {releasedLock : ℤ}
    (found : state.lockSet[index]? = some releasedLock) :
    Replays clientId (state.release index releasedLock) := by
  rcases List.getElem?_eq_some_iff.mp found with ⟨inside, rfl⟩
  refine ⟨replays.nodup.sublist (List.eraseIdx_sublist _ _), ?_⟩
  have unlocked := replay_unlock replays.nodup replays.replayed (List.getElem_mem inside)
  rwa [replays.nodup.erase_getElem] at unlocked

theorem Replays.acquire (replays : Replays clientId state) {newLock : ℤ}
    (fresh : newLock ∉ state.lockSet) : Replays clientId (state.acquire newLock) where
  nodup := replays.nodup.append (List.nodup_singleton _) (List.disjoint_singleton.mpr fresh)
  replayed := by
    have locked := replay_lock replays.nodup replays.replayed newLock
    rwa [if_neg fresh] at locked

theorem drawsFree_finished (enough : ¬ state.aLocks < numLocks) :
    DrawsFree numLocks state draws := by
  rw [DrawsFree.eq_def]
  split
  · trivial
  · rw [if_neg enough]
    trivial

theorem drawsFree_pass {chance : ℕ} (more : state.aLocks < numLocks) (low : chance < 50)
    (empty : state.lockSet.length = 0) :
    DrawsFree numLocks state (chance :: draws) ↔ DrawsFree numLocks state draws := by
  rw [DrawsFree.eq_def]
  simp only [if_pos more, if_pos low, if_pos empty]

/-- While every drawn resource is free the commands can be executed. -/
theorem Rounds.replays (rounds : Rounds numLocks state draws done)
    (free : DrawsFree numLocks state draws) (replays : Replays clientId state) :
    Replays clientId done := by
  induction rounds with
  | finished state draws enough => exact replays
  | pass state chance draws done more low empty rest inductionHypothesis =>
      rw [drawsFree_pass more low empty] at free
      exact inductionHypothesis free replays
  | release state chance index draws done releasedLock more low nonempty found rest
      inductionHypothesis =>
      simp only [DrawsFree, if_pos more, if_pos low, if_neg nonempty, found] at free
      exact inductionHypothesis free (replays.release found)
  | acquire state chance newLock draws done more high small rest inductionHypothesis =>
      simp only [DrawsFree, if_pos more, if_neg high] at free
      exact inductionHypothesis free.2 (replays.acquire free.1)

/-- Once a held resource is drawn they cannot. -/
theorem Rounds.not_replays (rounds : Rounds numLocks state draws done)
    (notFree : ¬ DrawsFree numLocks state draws) (replays : Replays clientId state) :
    lockService.replay (entriesOf clientId done.cmdList) = none := by
  induction rounds with
  | finished state draws enough =>
      exact absurd (drawsFree_finished enough) notFree
  | pass state chance draws done more low empty rest inductionHypothesis =>
      rw [drawsFree_pass more low empty] at notFree
      exact inductionHypothesis notFree replays
  | release state chance index draws done releasedLock more low nonempty found rest
      inductionHypothesis =>
      simp only [DrawsFree, if_pos more, if_pos low, if_neg nonempty, found] at notFree
      exact inductionHypothesis notFree (replays.release found)
  | acquire state chance newLock draws done more high small rest inductionHypothesis =>
      simp only [DrawsFree, if_pos more, if_neg high] at notFree
      by_cases fresh : (newLock : ℤ) ∈ state.lockSet
      · have fails := replay_lock replays.nodup replays.replayed newLock
        rw [if_pos fresh] at fails
        rcases rest.appends with ⟨later, whole⟩
        rw [← whole, entriesOf_append]
        exact Service.replay_append_of_none fails _
      · exact inductionHypothesis (fun free => notFree ⟨fresh, free⟩) (replays.acquire fresh)

/-- The commands of a finished loop are runnable exactly when every drawn resource
was free. -/
theorem Rounds.runnable_iff (rounds : Rounds numLocks start draws done) :
    Runnable numLocks clientId done.releaseAll ↔ DrawsFree numLocks start draws := by
  have first : Replays clientId start := ⟨List.nodup_nil, rfl⟩
  constructor
  · intro runnable
    by_contra notFree
    have fails := rounds.not_replays notFree first
    have blocked : lockService.replay (entriesOf clientId done.releaseAll) = none := by
      rw [releaseAll, entriesOf_append]
      exact Service.replay_append_of_none fails _
    have unblocked := runnable.unblocked
    rw [blocked] at unblocked
    cases unblocked
  · intro free
    rcases rounds.counted start_counted with ⟨counted, all⟩
    have replays := rounds.replays free first
    have empty : lockService.replay (entriesOf clientId done.releaseAll) = some [] :=
      replay_unlock_all replays.nodup replays.replayed
    have isCommand : ∀ command ∈ done.releaseAll, command.commandType ≠ .NONE :=
      fun command member => (counted.releaseAll command member).1
    have unblocked : (lockService.replay (entriesOf clientId done.releaseAll)).isSome = true := by
      rw [empty]
      rfl
    refine ⟨?_, (courteous_iff_replay isCommand).mpr unblocked, fun resource held => ?_, unblocked⟩
    · have noLock : ((done.lockSet.map fun releasedLock => Command.mk .UNLOCK releasedLock).filter
          fun command => command.commandType = .LOCK) = [] := by
        rw [List.filter_eq_nil_iff]
        intro command member
        rcases List.mem_map.mp member with ⟨releasedLock, _, rfl⟩
        simp
      rw [releaseAll, List.filter_append, noLock, List.append_nil, counted.locks, all]
    · have inEmpty := ((replay_entriesOf isCommand empty).2 resource).mp held
      cases inEmpty

end Generating

/-! ### The file -/

/-- A client reads a lock or unlock line as the command it was written for. -/
theorem createCommand_commandText {command : Command} (isCommand : command.commandType ≠ .NONE)
    (isInt : MachineInt command.resourceId) :
    createCommand (commandText command ++ ['\n']) = some command := by
  have last := getLast?_commandText command
  have noBlanks : Text.rstrip [' '] (commandText command ++ ['\n']) =
      commandText command ++ ['\n'] := Text.rdropWhile_of_last (by simp)
  have noNewline : Text.rstrip ['\n'] (commandText command ++ ['\n']) = commandText command := by
    rw [Text.rstrip_append fun char member inside => last char member (by simp_all)]
    exact List.append_nil _
  have words : (commandText command).splitOn ' ' =
      [kindText command.commandType, Text.intText command.resourceId] := by
    rw [commandText, List.splitOn_append_cons_self_of_not_mem (not_mem_kindText (by decide)),
      List.splitOn_eq_singleton (Text.not_mem_intText (by decide) (by decide))]
  have lowered : (kindText command.commandType).map Char.toLower = "lock".toList ∨
      (kindText command.commandType).map Char.toLower = "unlock".toList := by
    cases kind : command.commandType with
    | LOCK => exact .inl (by decide)
    | UNLOCK => exact .inr (by decide)
    | NONE => exact absurd kind isCommand
  rw [createCommand, noBlanks, noNewline, words]
  simp only [if_pos lowered, Text.readInt_intText, if_pos isInt, lowered_kindText lowered]

/-- A client reads a command file back. -/
theorem readCommandFile_commandFile (all : ∀ command ∈ commands, command.commandType ≠ .NONE ∧
    MachineInt command.resourceId) : readCommandFile (commandFile commands) = some commands := by
  have oneLine : ∀ line ∈ commands.map commandText, '\n' ∉ line := by
    intro line member
    rcases List.mem_map.mp member with ⟨command, _, rfl⟩
    simp [commandText, @not_mem_kindText _ '\n' (by decide),
      @Text.not_mem_intText command.resourceId '\n' (by decide) (by decide)]
  have written : commandFile commands =
      (commands.map commandText).flatMap fun line => line ++ ['\n'] := by
    rw [commandFile, List.flatMap_map]
  rw [readCommandFile, written, Text.lines_flatMap oneLine, List.map_map]
  clear oneLine written
  induction commands with
  | nil => rfl
  | cons command commands inductionHypothesis =>
      rw [List.forall_mem_cons] at all
      rw [List.map_cons, List.mapM_cons, inductionHypothesis all.2]
      show (createCommand (commandText command ++ ['\n'])).bind _ = _
      rw [createCommand_commandText all.1.1 all.1.2]
      rfl

/-- The file `make_lock_file` writes is read back as commands that its client can
run alone, if and only if every lock command drew a resource that was free. -/
theorem lock_file_runnable_iff (numLocks : ℕ) (draws : List ℕ) (clientId : ℤ) (content : Text)
    (made : makeLockFile numLocks draws = some content) :
    (∃ commands, readCommandFile content = some commands ∧
        Runnable numLocks clientId commands) ↔ DrawsFree numLocks .start draws := by
  rcases Option.map_eq_some_iff.mp made with ⟨commands, generated, rfl⟩
  rcases Option.map_eq_some_iff.mp generated with ⟨done, ended, rfl⟩
  have rounds := Generating.rounds_of_loop ended
  have readBack : readCommandFile (commandFile done.releaseAll) = some done.releaseAll := by
    apply readCommandFile_commandFile
    intro command member
    have bounds := (rounds.counted Generating.start_counted).1.releaseAll command member
    exact ⟨bounds.1, by unfold MachineInt; omega⟩
  rw [← @Generating.Rounds.runnable_iff clientId _ _ _ rounds]
  constructor
  · rintro ⟨commands, isRead, runnable⟩
    rw [readBack] at isRead
    cases isRead
    exact runnable
  · intro runnable
    exact ⟨done.releaseAll, readBack, runnable⟩

/-- Resource 5 is drawn twice, and unlocked in between. -/
theorem lock_file_runnable_iff_between :
    (∃ commands,
        readCommandFile "lock 5\nunlock 5\nlock 5\nunlock 5\n".toList = some commands ∧
        Runnable 2 1 commands) ↔ DrawsFree 2 .start [60, 5, 10, 0, 60, 5] :=
  lock_file_runnable_iff 2 [60, 5, 10, 0, 60, 5] 1 _ (by decide +kernel)

/-- Resource 5 is drawn twice in a row. -/
theorem lock_file_locks_twice :
    makeLockFile 2 [60, 5, 60, 5] = some "lock 5\nlock 5\nunlock 5\nunlock 5\n".toList ∧
      ¬ ∃ commands,
        readCommandFile "lock 5\nlock 5\nunlock 5\nunlock 5\n".toList = some commands ∧
          Runnable 2 1 commands := by
  refine ⟨by decide +kernel, ?_⟩
  rintro ⟨commands, isRead, runnable⟩
  have readBack : readCommandFile "lock 5\nlock 5\nunlock 5\nunlock 5\n".toList =
      some [⟨.LOCK, 5⟩, ⟨.LOCK, 5⟩, ⟨.UNLOCK, 5⟩, ⟨.UNLOCK, 5⟩] := by
    decide +kernel
  rw [readBack] at isRead
  cases isRead
  exact absurd runnable.unblocked (by decide)

end CSE550.LockFile
