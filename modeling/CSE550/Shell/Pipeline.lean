import CSE550.Lib.DescriptorTable
import CSE550.Lib.Lists
import CSE550.Lib.Machine
import CSE550.Lib.Text

/-!
Owns the wiring of a pipeline: `fork_and_pipe_commands` and `child_process` as a
machine whose steps are the system calls of the parent and of the children, in any
interleaving.

`pipe` returns descriptors above 2 that are not open, and `fork` copies the table of
the parent. A command is the last call of its child that is followed here.

Does not own the execution of the commands, nor `waitpid`.
-/

namespace CSE550.Shell

open CSE550.Lib

/-- What a descriptor refers to. -/
inductive File where
  | readEnd (pipe : ℕ)
  | writeEnd (pipe : ℕ)
  /-- A file the shell had open before. -/
  | other (file : ℕ)
deriving DecidableEq

/-- The calls of a child. -/
inductive Call where
  | close (fd : ℤ)
  | dup2 (oldFd newFd : ℤ)
  | assert (condition : Bool)
  | execvp (command : Text)
deriving DecidableEq

/-- Whether a child runs, and what ended it. -/
inductive Status where
  | running
  /-- `exit(-1)` after a call that failed. -/
  | exited
  /-- A failed assertion. -/
  | aborted
deriving DecidableEq

/-- A child with the calls it has not made yet. -/
structure Child where
  table : DescriptorTable File
  calls : List Call
  status : Status

/-- The variables of `fork_and_pipe_commands` and the processes. -/
structure Console where
  /-- The descriptors of the parent. -/
  table : DescriptorTable File
  pipeFdPairs : List (ℤ × ℤ)
  children : List Child
  /-- How many calls of `close` the parent has made. -/
  closed : ℕ

/-! ### The child -/

/-- `STDIN_FILENO`. -/
def stdinFileno : ℤ := 0

/-- `STDOUT_FILENO`. -/
def stdoutFileno : ℤ := 1

/-- The calls of `child_process`. -/
def childProcess (command : Text) (readFd writeFd : ℤ) : List Call :=
  [.assert (command.length > 0), .assert (readFd ≥ -1), .assert (writeFd ≥ 0),
    if readFd = -1 then .close stdinFileno else .dup2 readFd stdinFileno,
    .dup2 writeFd stdoutFileno, .execvp command]

/-- The descriptor that child `index` reads from; -1 for no input. -/
def readFdOf (pipeFdPairs : List (ℤ × ℤ)) (index : ℕ) : ℤ :=
  if index = 0 then -1 else (pipeFdPairs.getD (index - 1) (0, 0)).1

/-- The descriptor that child `index` writes to. -/
def writeFdOf (numCommands : ℕ) (pipeFdPairs : List (ℤ × ℤ)) (index : ℕ) : ℤ :=
  if index + 1 < numCommands then (pipeFdPairs.getD index (0, 0)).2 else stdoutFileno

/-- The descriptors closed by the loop over the unused ones. -/
def unusedFds (pipeFdPairs : List (ℤ × ℤ)) (readFd writeFd : ℤ) : List ℤ :=
  pipeFdPairs.flatMap fun fdPair =>
    (if fdPair.1 ≠ readFd then [fdPair.1] else []) ++
      (if fdPair.2 ≠ writeFd then [fdPair.2] else [])

/-- The calls of child `index` after the fork. -/
def childCalls (commands : List Text) (pipeFdPairs : List (ℤ × ℤ)) (index : ℕ) : List Call :=
  let readFd := readFdOf pipeFdPairs index
  let writeFd := writeFdOf commands.length pipeFdPairs index
  (unusedFds pipeFdPairs readFd writeFd).map .close ++
    childProcess (commands.getD index []) readFd writeFd

/-- The next call of a child. -/
def Child.step (child : Child) : Option Child :=
  match child.status, child.calls with
  | .running, .close fd :: rest =>
      some { child with table := child.table.close fd, calls := rest }
  | .running, .dup2 oldFd newFd :: rest =>
      match child.table.dup2 oldFd newFd with
      | some table => some { child with table := table, calls := rest }
      | none => some { child with status := .exited }
  | .running, .assert condition :: rest =>
      if condition then some { child with calls := rest }
      else some { child with status := .aborted }
  | _, _ => none

/-- The child calls `execvp`. -/
def Child.Executes (child : Child) (command : Text) : Prop :=
  child.status = .running ∧ child.calls = [.execvp command]

/-! ### The parent -/

/-- The descriptors the parent closes. -/
def parentFds (pipeFdPairs : List (ℤ × ℤ)) : List ℤ :=
  pipeFdPairs.flatMap fun fd => [fd.1, fd.2]

/-- The labels of the steps. -/
inductive Label where
  /-- `pipe` returns two descriptors. -/
  | pipe (readFd writeFd : ℤ)
  | fork
  | close
  | child (index : ℕ)

/-- What `pipe` may return. -/
def Console.Fresh (console : Console) (readFd writeFd : ℤ) : Prop :=
  2 < readFd ∧ 2 < writeFd ∧ readFd ≠ writeFd ∧ console.table readFd = none ∧
    console.table writeFd = none

instance freshDecidable (console : Console) (readFd writeFd : ℤ) :
    Decidable (console.Fresh readFd writeFd) := by
  unfold Console.Fresh
  infer_instance

/-- The next call of the parent or of a child. -/
def Console.step (commands : List Text) (console : Console) : Label → Option Console
  | .pipe readFd writeFd =>
      if console.pipeFdPairs.length < commands.length - 1 ∧ console.Fresh readFd writeFd then
        some { console with
          table := (console.table.install readFd (.readEnd console.pipeFdPairs.length)).install
            writeFd (.writeEnd console.pipeFdPairs.length)
          pipeFdPairs := console.pipeFdPairs ++ [(readFd, writeFd)] }
      else none
  | .fork =>
      if console.pipeFdPairs.length = commands.length - 1 ∧
          console.children.length < commands.length then
        some { console with
          children := console.children ++ [{
            table := console.table
            calls := childCalls commands console.pipeFdPairs console.children.length
            status := .running }] }
      else none
  | .close =>
      if console.children.length = commands.length then
        ((parentFds console.pipeFdPairs)[console.closed]?).map fun fd =>
          { console with table := console.table.close fd, closed := console.closed + 1 }
      else none
  | .child index =>
      (console.children[index]?).bind fun child =>
        child.step.map fun next =>
          { console with children := console.children.set index next }

/-- A shell with its open files runs a list of commands. -/
def pipeline (commands : List Text) (files : ℤ → Option ℕ) : Machine Console Label where
  init := ⟨fun fd => (files fd).map .other, [], [], 0⟩
  step := Console.step commands

/-! ### What a child comes to -/

/-- Make some calls; none when one of them ends the process. -/
def execute : List Call → DescriptorTable File → Option (DescriptorTable File)
  | [], table => some table
  | .close fd :: rest, table => execute rest (table.close fd)
  | .dup2 oldFd newFd :: rest, table => (table.dup2 oldFd newFd).bind (execute rest)
  | .assert condition :: rest, table => if condition then execute rest table else none
  | .execvp _ :: _, _ => none

theorem execute_append (first later : List Call) (table : DescriptorTable File) :
    execute (first ++ later) table = (execute first table).bind (execute later) := by
  induction first generalizing table with
  | nil => rfl
  | cons call rest inductionHypothesis =>
      cases call with
      | close fd => exact inductionHypothesis _
      | dup2 oldFd newFd =>
          simp only [List.cons_append, execute]
          cases table.dup2 oldFd newFd with
          | none => rfl
          | some next => exact inductionHypothesis next
      | assert condition =>
          simp only [List.cons_append, execute]
          split
          · exact inductionHypothesis table
          · rfl
      | execvp command => rfl

theorem execute_close (fds : List ℤ) (table : DescriptorTable File) :
    execute (fds.map .close) table = some (table.closeAll fds) := by
  induction fds generalizing table with
  | nil => rfl
  | cons fd rest inductionHypothesis => exact inductionHypothesis _

/-- The child has made the first of the calls before `execvp`. -/
def Child.Ran (child : Child) (script : List Call) (command : Text)
    (start : DescriptorTable File) : Prop :=
  child.status = .running ∧ ∃ made left, script = made ++ left ∧
    child.calls = left ++ [.execvp command] ∧ execute made start = some child.table

section Script

variable {child next : Child} {script : List Call} {command : Text}
  {start final : DescriptorTable File}

/-- A child whose calls before `execvp` do not fail goes on with them. -/
theorem Child.Ran.step (ran : child.Ran script command start)
    (succeeds : execute script start = some final) (taken : child.step = some next) :
    next.Ran script command start := by
  rcases ran with ⟨running, made, left, split, calls, reached⟩
  unfold Child.step at taken
  cases left with
  | nil => simp [running, calls] at taken
  | cons call rest =>
      have going : script = (made ++ [call]) ++ rest := by simp [split]
      have after : execute (made ++ [call]) start = execute [call] child.table := by
        rw [execute_append, reached, Option.bind_some]
      rw [going, execute_append, after] at succeeds
      cases call with
      | close fd =>
          simp only [running, calls, List.cons_append, Option.some.injEq] at taken
          subst taken
          exact ⟨rfl, made ++ [.close fd], rest, going, rfl, after⟩
      | dup2 oldFd newFd =>
          simp only [running, calls, List.cons_append] at taken
          cases duplicated : child.table.dup2 oldFd newFd with
          | none => simp [execute, duplicated] at succeeds
          | some table =>
              rw [duplicated, Option.some.injEq] at taken
              subst taken
              refine ⟨rfl, made ++ [.dup2 oldFd newFd], rest, going, rfl, ?_⟩
              rw [after]
              simp [execute, duplicated]
      | assert condition =>
          simp only [running, calls, List.cons_append] at taken
          cases condition with
          | false => simp [execute] at succeeds
          | true =>
              simp only [if_true, Option.some.injEq] at taken
              subst taken
              exact ⟨rfl, made ++ [.assert true], rest, going, rfl, after⟩
      | execvp program => simp [running, calls] at taken

/-- At `execvp` all the calls before it have been made. -/
theorem Child.Ran.executes (ran : child.Ran script command start) {program : Text}
    (executes : child.Executes program) :
    program = command ∧ execute script start = some child.table := by
  rcases ran with ⟨_, made, left, split, calls, reached⟩
  rw [executes.2] at calls
  cases left with
  | nil =>
      simp only [List.nil_append, List.cons.injEq, Call.execvp.injEq, and_true] at calls
      rw [split, List.append_nil]
      exact ⟨calls, reached⟩
  | cons call rest => simp at calls

end Script

/-! ### The pipes -/

/-- The pipes have been made in the order of the list, and are all in the table. -/
structure Laid (files : ℤ → Option ℕ) (pipeFdPairs : List (ℤ × ℤ))
    (table : DescriptorTable File) : Prop where
  ends : ∀ pipe fdPair, pipeFdPairs[pipe]? = some fdPair →
    table fdPair.1 = some (.readEnd pipe) ∧ table fdPair.2 = some (.writeEnd pipe)
  above : ∀ fdPair ∈ pipeFdPairs, 2 < fdPair.1 ∧ 2 < fdPair.2
  readEnd : ∀ fd pipe, table fd = some (.readEnd pipe) →
    ∃ fdPair, pipeFdPairs[pipe]? = some fdPair ∧ fdPair.1 = fd
  writeEnd : ∀ fd pipe, table fd = some (.writeEnd pipe) →
    ∃ fdPair, pipeFdPairs[pipe]? = some fdPair ∧ fdPair.2 = fd
  output : table stdoutFileno = (files stdoutFileno).map .other

section Pipes

variable {files : ℤ → Option ℕ} {pipeFdPairs : List (ℤ × ℤ)} {table : DescriptorTable File}

theorem laid_nil (files : ℤ → Option ℕ) : Laid files [] fun fd => (files fd).map .other where
  ends := by simp
  above := by simp
  readEnd := by simp
  writeEnd := by simp
  output := rfl

/-- One more pipe. -/
theorem Laid.pipe (laid : Laid files pipeFdPairs table) {readFd writeFd : ℤ}
    (readAbove : 2 < readFd) (writeAbove : 2 < writeFd) (different : readFd ≠ writeFd)
    (readFree : table readFd = none) (writeFree : table writeFd = none) :
    Laid files (pipeFdPairs ++ [(readFd, writeFd)])
      ((table.install readFd (.readEnd pipeFdPairs.length)).install writeFd
        (.writeEnd pipeFdPairs.length)) := by
  have elsewhere : ∀ fd, fd ≠ readFd → fd ≠ writeFd →
      ((table.install readFd (.readEnd pipeFdPairs.length)).install writeFd
        (.writeEnd pipeFdPairs.length)) fd = table fd := by
    intro fd notRead notWrite
    rw [DescriptorTable.install_of_ne notWrite, DescriptorTable.install_of_ne notRead]
  have atRead : ((table.install readFd (.readEnd pipeFdPairs.length)).install writeFd
      (.writeEnd pipeFdPairs.length)) readFd = some (.readEnd pipeFdPairs.length) := by
    rw [DescriptorTable.install_of_ne different, DescriptorTable.install_same]
  have isOpen : ∀ fd file, table fd = some file → fd ≠ readFd ∧ fd ≠ writeFd := by
    rintro fd file found
    refine ⟨fun same => ?_, fun same => ?_⟩
    · rw [same, readFree] at found
      cases found
    · rw [same, writeFree] at found
      cases found
  constructor
  · intro pipe fdPair found
    rcases getElem?_concat_cases found with ⟨_, old⟩ | ⟨rfl, rfl⟩
    · rcases laid.ends pipe fdPair old with ⟨first, second⟩
      rw [elsewhere _ (isOpen _ _ first).1 (isOpen _ _ first).2,
        elsewhere _ (isOpen _ _ second).1 (isOpen _ _ second).2]
      exact ⟨first, second⟩
    · exact ⟨atRead, DescriptorTable.install_same⟩
  · intro fdPair member
    rcases List.mem_append.mp member with old | new
    · exact laid.above fdPair old
    · rw [List.mem_singleton.mp new]
      exact ⟨readAbove, writeAbove⟩
  · intro fd pipe found
    by_cases isRead : fd = readFd
    · subst isRead
      rw [atRead, Option.some.injEq, File.readEnd.injEq] at found
      subst found
      exact ⟨_, List.getElem?_concat_length, rfl⟩
    · by_cases isWrite : fd = writeFd
      · subst isWrite
        simp at found
      · rw [elsewhere fd isRead isWrite] at found
        rcases laid.readEnd fd pipe found with ⟨fdPair, old, same⟩
        exact ⟨fdPair, getElem?_concat old, same⟩
  · intro fd pipe found
    by_cases isWrite : fd = writeFd
    · subst isWrite
      rw [DescriptorTable.install_same, Option.some.injEq, File.writeEnd.injEq] at found
      subst found
      exact ⟨_, List.getElem?_concat_length, rfl⟩
    · by_cases isRead : fd = readFd
      · subst isRead
        rw [atRead] at found
        cases found
      · rw [elsewhere fd isRead isWrite] at found
        rcases laid.writeEnd fd pipe found with ⟨fdPair, old, same⟩
        exact ⟨fdPair, getElem?_concat old, same⟩
  · have notRead : stdoutFileno ≠ readFd := by
      simp only [stdoutFileno]
      omega
    have notWrite : stdoutFileno ≠ writeFd := by
      simp only [stdoutFileno]
      omega
    rw [elsewhere _ notRead notWrite]
    exact laid.output

end Pipes

/-! ### The table of a child -/

/-- Standard input and output of child `index`, and the ends it holds. -/
structure Wired (files : ℤ → Option ℕ) (numCommands index : ℕ)
    (table : DescriptorTable File) : Prop where
  input : table stdinFileno = if index = 0 then none else some (.readEnd (index - 1))
  output : table stdoutFileno =
    if index + 1 < numCommands then some (.writeEnd index) else (files stdoutFileno).map .other
  readEnds : ∀ pipe, table.Holds (.readEnd pipe) → pipe + 1 = index
  writeEnds : ∀ pipe, table.Holds (.writeEnd pipe) → pipe = index

theorem mem_unusedFds {pipeFdPairs : List (ℤ × ℤ)} {readFd writeFd fd : ℤ} :
    fd ∈ unusedFds pipeFdPairs readFd writeFd ↔ ∃ fdPair ∈ pipeFdPairs,
      (fd = fdPair.1 ∧ fdPair.1 ≠ readFd) ∨ (fd = fdPair.2 ∧ fdPair.2 ≠ writeFd) := by
  unfold unusedFds
  rw [List.mem_flatMap]
  refine exists_congr fun fdPair => and_congr_right fun _ => ?_
  rw [List.mem_append, List.mem_ite_nil_right, List.mem_ite_nil_right, List.mem_singleton,
    List.mem_singleton, and_comm, @and_comm (fdPair.2 ≠ writeFd)]

section Child

variable {files : ℤ → Option ℕ} {pipeFdPairs : List (ℤ × ℤ)} {start : DescriptorTable File}
  {numCommands index : ℕ}

theorem readFdOf_eq (complete : pipeFdPairs.length = numCommands - 1)
    (inside : index < numCommands) (notFirst : index ≠ 0) :
    ∃ fdPair, pipeFdPairs[index - 1]? = some fdPair ∧ readFdOf pipeFdPairs index = fdPair.1 := by
  have bound : index - 1 < pipeFdPairs.length := by omega
  refine ⟨pipeFdPairs[index - 1], List.getElem?_eq_getElem bound, ?_⟩
  rw [readFdOf, if_neg notFirst, List.getD_eq_getElem?_getD, List.getElem?_eq_getElem bound,
    Option.getD_some]

theorem writeFdOf_eq (complete : pipeFdPairs.length = numCommands - 1)
    (notLast : index + 1 < numCommands) :
    ∃ fdPair, pipeFdPairs[index]? = some fdPair ∧
      writeFdOf numCommands pipeFdPairs index = fdPair.2 := by
  have bound : index < pipeFdPairs.length := by omega
  refine ⟨pipeFdPairs[index], List.getElem?_eq_getElem bound, ?_⟩
  rw [writeFdOf, if_pos notLast, List.getD_eq_getElem?_getD, List.getElem?_eq_getElem bound,
    Option.getD_some]

/-- What is left after the unused descriptors are closed. -/
structure Narrowed (files : ℤ → Option ℕ) (numCommands : ℕ) (pipeFdPairs : List (ℤ × ℤ))
    (index : ℕ) (table : DescriptorTable File) : Prop where
  input : index ≠ 0 → table (readFdOf pipeFdPairs index) = some (.readEnd (index - 1))
  output : table (writeFdOf numCommands pipeFdPairs index) =
    if index + 1 < numCommands then some (.writeEnd index) else (files stdoutFileno).map .other
  readEnds : ∀ pipe, table.Holds (.readEnd pipe) → pipe + 1 = index
  writeEnds : ∀ pipe, table.Holds (.writeEnd pipe) → pipe = index

/-- The end that a child uses stays open. -/
theorem Laid.used (laid : Laid files pipeFdPairs start) {fd readFd writeFd : ℤ} {file : File}
    (found : start fd = some file) (reads : ∀ pipe, file = .readEnd pipe → fd = readFd)
    (writes : ∀ pipe, file = .writeEnd pipe → fd = writeFd) :
    start.closeAll (unusedFds pipeFdPairs readFd writeFd) fd = some file := by
  rw [DescriptorTable.closeAll_apply, if_neg, found]
  rw [mem_unusedFds]
  rintro ⟨fdPair, member, unused⟩
  rcases List.mem_iff_getElem?.mp member with ⟨pipe, position⟩
  rcases laid.ends pipe fdPair position with ⟨first, second⟩
  rcases unused with ⟨rfl, different⟩ | ⟨rfl, different⟩
  · exact different (reads pipe (Option.some.inj (found.symm.trans first)))
  · exact different (writes pipe (Option.some.inj (found.symm.trans second)))

/-- Standard output stays what it was. -/
theorem Laid.unused_stdout (laid : Laid files pipeFdPairs start) (readFd writeFd : ℤ) :
    start.closeAll (unusedFds pipeFdPairs readFd writeFd) stdoutFileno =
      (files stdoutFileno).map .other := by
  rw [DescriptorTable.closeAll_apply, if_neg, laid.output]
  rw [mem_unusedFds]
  rintro ⟨fdPair, member, unused⟩
  have above := laid.above fdPair member
  simp only [stdoutFileno] at unused
  omega

theorem Laid.readEnd_used (laid : Laid files pipeFdPairs start) {pipe : ℕ} {readFd writeFd : ℤ}
    (holds : (start.closeAll (unusedFds pipeFdPairs readFd writeFd)).Holds (.readEnd pipe)) :
    ∃ fdPair, pipeFdPairs[pipe]? = some fdPair ∧ fdPair.1 = readFd := by
  rcases holds with ⟨fd, found⟩
  rw [DescriptorTable.closeAll_apply, Option.ite_none_left_eq_some] at found
  rcases laid.readEnd fd pipe found.2 with ⟨fdPair, position, rfl⟩
  refine ⟨fdPair, position, ?_⟩
  by_contra different
  exact found.1 (mem_unusedFds.mpr ⟨fdPair, List.mem_of_getElem? position, .inl ⟨rfl, different⟩⟩)

theorem Laid.writeEnd_used (laid : Laid files pipeFdPairs start) {pipe : ℕ} {readFd writeFd : ℤ}
    (holds : (start.closeAll (unusedFds pipeFdPairs readFd writeFd)).Holds (.writeEnd pipe)) :
    ∃ fdPair, pipeFdPairs[pipe]? = some fdPair ∧ fdPair.2 = writeFd := by
  rcases holds with ⟨fd, found⟩
  rw [DescriptorTable.closeAll_apply, Option.ite_none_left_eq_some] at found
  rcases laid.writeEnd fd pipe found.2 with ⟨fdPair, position, rfl⟩
  refine ⟨fdPair, position, ?_⟩
  by_contra different
  exact found.1 (mem_unusedFds.mpr ⟨fdPair, List.mem_of_getElem? position, .inr ⟨rfl, different⟩⟩)

theorem Laid.narrowed (laid : Laid files pipeFdPairs start)
    (complete : pipeFdPairs.length = numCommands - 1) (inside : index < numCommands) :
    Narrowed files numCommands pipeFdPairs index (start.closeAll (unusedFds pipeFdPairs
      (readFdOf pipeFdPairs index) (writeFdOf numCommands pipeFdPairs index))) := by
  constructor
  · intro notFirst
    rcases readFdOf_eq complete inside notFirst with ⟨fdPair, position, same⟩
    refine laid.used (same ▸ (laid.ends _ _ position).1) (fun _ _ => rfl) ?_
    intro pipe isWrite
    cases isWrite
  · by_cases notLast : index + 1 < numCommands
    · rw [if_pos notLast]
      rcases writeFdOf_eq complete notLast with ⟨fdPair, position, same⟩
      refine laid.used (same ▸ (laid.ends _ _ position).2) ?_ (fun _ _ => rfl)
      intro pipe isRead
      cases isRead
    · have last : writeFdOf numCommands pipeFdPairs index = stdoutFileno := if_neg notLast
      rw [if_neg notLast, last]
      exact laid.unused_stdout _ _
  · intro pipe holds
    rcases laid.readEnd_used holds with ⟨fdPair, position, isRead⟩
    have above := laid.above fdPair (List.mem_of_getElem? position)
    by_cases isFirst : index = 0
    · rw [readFdOf, if_pos isFirst] at isRead
      omega
    · rcases readFdOf_eq complete inside isFirst with ⟨own, ownPosition, same⟩
      have found := (laid.ends _ _ position).1
      rw [isRead, same, (laid.ends _ _ ownPosition).1, Option.some.injEq,
        File.readEnd.injEq] at found
      omega
  · intro pipe holds
    rcases laid.writeEnd_used holds with ⟨fdPair, position, isWrite⟩
    have above := laid.above fdPair (List.mem_of_getElem? position)
    by_cases notLast : index + 1 < numCommands
    · rcases writeFdOf_eq complete notLast with ⟨own, ownPosition, same⟩
      have found := (laid.ends _ _ position).2
      rw [isWrite, same, (laid.ends _ _ ownPosition).2, Option.some.injEq,
        File.writeEnd.injEq] at found
      exact found.symm
    · rw [writeFdOf, if_neg notLast, stdoutFileno] at isWrite
      omega

/-- The calls of a child before `execvp`. -/
def setupCalls (commands : List Text) (pipeFdPairs : List (ℤ × ℤ)) (index : ℕ) : List Call :=
  let readFd := readFdOf pipeFdPairs index
  let writeFd := writeFdOf commands.length pipeFdPairs index
  (unusedFds pipeFdPairs readFd writeFd).map .close ++
    [.assert ((commands.getD index []).length > 0), .assert (readFd ≥ -1), .assert (writeFd ≥ 0),
      if readFd = -1 then .close stdinFileno else .dup2 readFd stdinFileno,
      .dup2 writeFd stdoutFileno]

theorem childCalls_eq (commands : List Text) (pipeFdPairs : List (ℤ × ℤ)) (index : ℕ) :
    childCalls commands pipeFdPairs index =
      setupCalls commands pipeFdPairs index ++ [.execvp (commands.getD index [])] := by
  simp [childCalls, setupCalls, childProcess]

/-- Standard input is redirected or closed. -/
theorem Narrowed.redirectInput {table : DescriptorTable File} {pipeFdPairs : List (ℤ × ℤ)}
    (narrowed : Narrowed files numCommands pipeFdPairs index table)
    (isFirst : readFdOf pipeFdPairs index = -1 ↔ index = 0) :
    ∃ next, execute [if readFdOf pipeFdPairs index = -1 then .close stdinFileno
        else .dup2 (readFdOf pipeFdPairs index) stdinFileno] table = some next ∧
      next stdinFileno = (if index = 0 then none else some (.readEnd (index - 1))) ∧
      (∀ fd, fd ≠ stdinFileno → next fd = table fd) ∧
      ∀ file, next.Holds file → table.Holds file := by
  by_cases first : index = 0
  · rw [if_pos (isFirst.mpr first), if_pos first]
    exact ⟨table.close stdinFileno, rfl, DescriptorTable.close_same,
      fun _ different => DescriptorTable.close_of_ne different, fun _ holds => holds.of_close⟩
  · rw [if_neg (mt isFirst.mp first), if_neg first]
    have duplicated : table.dup2 (readFdOf pipeFdPairs index) stdinFileno =
        some (table.install stdinFileno (.readEnd (index - 1))) := by
      rw [DescriptorTable.dup2, narrowed.input first, Option.map_some]
    refine ⟨_, ?_, DescriptorTable.install_same,
      fun _ different => DescriptorTable.install_of_ne different, fun _ holds =>
        holds.of_dup2 duplicated⟩
    simp [execute, duplicated]

/-- None of these calls fails, and they leave the child wired. -/
theorem Laid.wired {commands : List Text} (laid : Laid files pipeFdPairs start)
    (complete : pipeFdPairs.length = commands.length - 1) (inside : index < commands.length)
    (nonEmpty : ∀ command ∈ commands, command ≠ []) (stdoutOpen : files stdoutFileno ≠ none) :
    ∃ final, execute (setupCalls commands pipeFdPairs index) start = some final ∧
      Wired files commands.length index final := by
  have narrowed := laid.narrowed complete inside
  have readFd : (index = 0 ∧ readFdOf pipeFdPairs index = -1) ∨
      (index ≠ 0 ∧ 2 < readFdOf pipeFdPairs index) := by
    by_cases isFirst : index = 0
    · exact .inl ⟨isFirst, if_pos isFirst⟩
    · rcases readFdOf_eq complete inside isFirst with ⟨fdPair, position, same⟩
      exact .inr ⟨isFirst, same ▸ (laid.above fdPair (List.mem_of_getElem? position)).1⟩
  have writeFd : 0 < writeFdOf commands.length pipeFdPairs index := by
    by_cases notLast : index + 1 < commands.length
    · rcases writeFdOf_eq complete notLast with ⟨fdPair, position, same⟩
      have above := (laid.above fdPair (List.mem_of_getElem? position)).2
      omega
    · rw [writeFdOf, if_neg notLast, stdoutFileno]
      omega
  have command : commands.getD index [] ≠ [] := by
    rw [List.getD_eq_getElem?_getD, List.getElem?_eq_getElem inside, Option.getD_some]
    exact nonEmpty _ (List.getElem_mem inside)
  rcases narrowed.redirectInput (by omega) with ⟨next, redirected, input, elsewhere, nextHolds⟩
  -- the descriptor written to is open, at the latest as standard output
  have isOpen : ∃ file, next (writeFdOf commands.length pipeFdPairs index) = some file := by
    rw [elsewhere _ (by simp only [stdinFileno]; omega), narrowed.output]
    split
    · exact ⟨_, rfl⟩
    · exact Option.ne_none_iff_exists'.mp (by simpa using stdoutOpen)
  rcases isOpen with ⟨file, found⟩
  have duplicated : next.dup2 (writeFdOf commands.length pipeFdPairs index) stdoutFileno =
      some (next.install stdoutFileno file) := by
    rw [DescriptorTable.dup2, found, Option.map_some]
  refine ⟨next.install stdoutFileno file, ?_, ?_⟩
  · have split : setupCalls commands pipeFdPairs index =
        (unusedFds pipeFdPairs (readFdOf pipeFdPairs index)
          (writeFdOf commands.length pipeFdPairs index)).map .close ++
        ([.assert ((commands.getD index []).length > 0),
          .assert (readFdOf pipeFdPairs index ≥ -1),
          .assert (writeFdOf commands.length pipeFdPairs index ≥ 0)] ++
        ([if readFdOf pipeFdPairs index = -1 then .close stdinFileno
          else .dup2 (readFdOf pipeFdPairs index) stdinFileno] ++
        [.dup2 (writeFdOf commands.length pipeFdPairs index) stdoutFileno])) := rfl
    have asserted : execute [.assert ((commands.getD index []).length > 0),
        .assert (readFdOf pipeFdPairs index ≥ -1),
        .assert (writeFdOf commands.length pipeFdPairs index ≥ 0)]
        (start.closeAll (unusedFds pipeFdPairs (readFdOf pipeFdPairs index)
          (writeFdOf commands.length pipeFdPairs index))) =
        some (start.closeAll (unusedFds pipeFdPairs (readFdOf pipeFdPairs index)
          (writeFdOf commands.length pipeFdPairs index))) := by
      have readable : readFdOf pipeFdPairs index ≥ -1 := by omega
      have writable : writeFdOf commands.length pipeFdPairs index ≥ 0 := by omega
      simp only [execute, List.length_pos_of_ne_nil command, readable, writable, decide_true,
        if_true]
    rw [split, execute_append, execute_close, Option.bind_some, execute_append, asserted,
      Option.bind_some, execute_append, redirected, Option.bind_some]
    simp [execute, duplicated]
  · constructor
    · rw [DescriptorTable.install_of_ne (by decide), input]
    · rw [DescriptorTable.install_same, ← found, elsewhere _ (by simp only [stdinFileno]; omega),
        narrowed.output]
    · exact fun pipe holds => narrowed.readEnds pipe (nextHolds _ (holds.of_dup2 duplicated))
    · exact fun pipe holds => narrowed.writeEnds pipe (nextHolds _ (holds.of_dup2 duplicated))

end Child

/-! ### All processes -/

/-- What holds between the calls of all processes. -/
structure Sound (commands : List Text) (files : ℤ → Option ℕ) (console : Console) : Prop where
  /-- The parent's table is the one with all pipes, less what it has closed. -/
  opened : ∃ table, Laid files console.pipeFdPairs table ∧
    console.table = table.closeAll ((parentFds console.pipeFdPairs).take console.closed)
  forks : console.children.length ≤ commands.length
  /-- Children are forked when all pipes are made. -/
  forked : console.children ≠ [] → console.pipeFdPairs.length = commands.length - 1
  /-- The parent closes when all children are forked. -/
  closing : console.closed ≠ 0 → console.children.length = commands.length ∧
    console.pipeFdPairs.length = commands.length - 1
  pipes : console.pipeFdPairs.length ≤ commands.length - 1
  ran : ∀ index (child : Child), console.children[index]? = some child →
    ∃ start, Laid files console.pipeFdPairs start ∧
      child.Ran (setupCalls commands console.pipeFdPairs index) (commands.getD index []) start

section Run

variable {commands : List Text} {files : ℤ → Option ℕ} {console next : Console}

theorem sound_init (commands : List Text) (files : ℤ → Option ℕ) :
    Sound commands files (pipeline commands files).init where
  opened := ⟨_, laid_nil files, rfl⟩
  forks := Nat.zero_le _
  forked := fun some => absurd rfl some
  closing := fun some => absurd rfl some
  pipes := Nat.zero_le _
  ran := fun index child found => by simp [pipeline] at found

/-- Before the parent closes, its table has all the pipes. -/
theorem Sound.laid (sound : Sound commands files console) (open_ : console.closed = 0) :
    Laid files console.pipeFdPairs console.table := by
  rcases sound.opened with ⟨table, laid, same⟩
  rw [open_, List.take_zero] at same
  exact same ▸ laid

/-- A child that was forked is one of the commands', with all pipes made. -/
theorem Sound.of_child (sound : Sound commands files console) {index : ℕ} {child : Child}
    (found : console.children[index]? = some child) :
    index < commands.length ∧ console.pipeFdPairs.length = commands.length - 1 := by
  rcases List.getElem?_eq_some_iff.mp found with ⟨bound, _⟩
  refine ⟨Nat.lt_of_lt_of_le bound sound.forks, sound.forked ?_⟩
  intro none
  simp [none] at bound

theorem Sound.step (sound : Sound commands files console)
    (nonEmpty : ∀ command ∈ commands, command ≠ []) (stdoutOpen : files stdoutFileno ≠ none)
    {label : Label} (taken : console.step commands label = some next) :
    Sound commands files next := by
  cases label with
  | pipe readFd writeFd =>
      simp only [Console.step, Option.ite_none_right_eq_some, Option.some.injEq] at taken
      rcases taken with ⟨⟨more, readAbove, writeAbove, different, readFree, writeFree⟩, rfl⟩
      have noChild : console.children = [] := by
        by_contra some
        have complete := sound.forked some
        omega
      have notClosed : console.closed = 0 := by
        by_contra some
        have complete := (sound.closing some).2
        omega
      have laid := (sound.laid notClosed).pipe readAbove writeAbove different readFree writeFree
      refine ⟨⟨_, laid, ?_⟩, sound.forks, fun some => absurd noChild some,
        fun some => absurd notClosed some, ?_, ?_⟩
      · rw [notClosed, List.take_zero]
        rfl
      · simp only [List.length_append, List.length_singleton]
        omega
      · intro index child found
        simp [noChild] at found
  | fork =>
      simp only [Console.step, Option.ite_none_right_eq_some, Option.some.injEq] at taken
      rcases taken with ⟨⟨complete, more⟩, rfl⟩
      have notClosed : console.closed = 0 := by
        by_contra some
        have all := (sound.closing some).1
        omega
      refine ⟨sound.opened, ?_, fun _ => complete, fun some => absurd notClosed some, sound.pipes,
        ?_⟩
      · simp only [List.length_append, List.length_singleton]
        omega
      · intro index child found
        rcases getElem?_concat_cases found with ⟨_, old⟩ | ⟨rfl, rfl⟩
        · exact sound.ran index child old
        · exact ⟨console.table, sound.laid notClosed, rfl, [], _, rfl, childCalls_eq _ _ _, rfl⟩
  | close =>
      simp only [Console.step, Option.ite_none_right_eq_some, Option.map_eq_some_iff] at taken
      rcases taken with ⟨all, fd, position, rfl⟩
      rcases sound.opened with ⟨table, laid, same⟩
      have complete : console.pipeFdPairs.length = commands.length - 1 := by
        by_cases none : console.children = []
        · have few := sound.pipes
          simp only [none, List.length_nil] at all
          omega
        · exact sound.forked none
      refine ⟨⟨table, laid, ?_⟩, sound.forks, sound.forked, fun _ => ⟨all, complete⟩, sound.pipes,
        sound.ran⟩
      rw [List.take_add_one, position, DescriptorTable.closeAll_append, ← same]
      rfl
  | child index =>
      simp only [Console.step, Option.bind_eq_some_iff, Option.map_eq_some_iff] at taken
      rcases taken with ⟨child, found, after, step, rfl⟩
      refine ⟨sound.opened, ?_, ?_, ?_, sound.pipes, ?_⟩
      · rw [List.length_set]
        exact sound.forks
      · intro _
        exact (sound.of_child found).2
      · intro some
        rw [List.length_set]
        exact sound.closing some
      · intro other otherChild otherFound
        rw [List.getElem?_set] at otherFound
        split at otherFound
        · rename_i same
          subst same
          rw [Option.ite_none_right_eq_some, Option.some.injEq] at otherFound
          rcases otherFound with ⟨_, rfl⟩
          rcases sound.ran index child found with ⟨start, laid, ran⟩
          rcases sound.of_child found with ⟨inside, complete⟩
          rcases laid.wired complete inside nonEmpty stdoutOpen with ⟨final, succeeds, _⟩
          exact ⟨start, laid, ran.step succeeds step⟩
        · exact sound.ran other otherChild otherFound

theorem sound_of_run (nonEmpty : ∀ command ∈ commands, command ≠ [])
    (stdoutOpen : files stdoutFileno ≠ none) {labels : List Label}
    (run : (pipeline commands files).Run labels console) : Sound commands files console := by
  have reached : (pipeline commands files).Reachable console := ⟨labels, run⟩
  apply reached.invariant (sound_init commands files)
  intro state label after _ sound taken
  exact sound.step nonEmpty stdoutOpen taken

/-- What the children that call `execvp` are. -/
theorem Sound.executes (sound : Sound commands files console)
    (nonEmpty : ∀ command ∈ commands, command ≠ []) (stdoutOpen : files stdoutFileno ≠ none)
    {index : ℕ} {child : Child} (found : console.children[index]? = some child) {command : Text}
    (executes : child.Executes command) :
    commands[index]? = some command ∧ Wired files commands.length index child.table := by
  rcases sound.of_child found with ⟨inside, complete⟩
  rcases sound.ran index child found with ⟨start, laid, ran⟩
  rcases laid.wired complete inside nonEmpty stdoutOpen with ⟨final, succeeds, wired⟩
  rcases ran.executes executes with ⟨rfl, reached⟩
  obtain rfl : final = child.table := Option.some.inj (succeeds.symm.trans reached)
  refine ⟨?_, wired⟩
  rw [List.getD_eq_getElem?_getD, List.getElem?_eq_getElem inside, Option.getD_some]

end Run

/-- The parent and the children, by their commands. -/
inductive Process where
  | parent
  | child (index : ℕ)

/-- The process has the file open. -/
def Console.Holds (console : Console) (file : File) : Process → Prop
  | .parent => console.table.Holds file
  | .child index => ∃ child, console.children[index]? = some child ∧ child.table.Holds file

/-- Every child calls `execvp`. -/
def Console.AllExecute (console : Console) (numCommands : ℕ) : Prop :=
  ∀ index < numCommands, ∃ child command, console.children[index]? = some child ∧
    child.Executes command

/-- The parent has closed its copies. -/
def Console.Closed (console : Console) : Prop :=
  console.closed = (parentFds console.pipeFdPairs).length

section Wiring

variable {commands : List Text} {files : ℤ → Option ℕ} {console : Console}

/-- A parent that has closed its copies holds no end of a pipe. -/
theorem Sound.parent_holds (sound : Sound commands files console) (closed : console.Closed)
    (pipe : ℕ) :
    ¬ console.table.Holds (.readEnd pipe) ∧ ¬ console.table.Holds (.writeEnd pipe) := by
  rcases sound.opened with ⟨table, laid, same⟩
  rw [closed, List.take_length] at same
  rw [same]
  refine ⟨?_, ?_⟩
  · rintro ⟨fd, found⟩
    rw [DescriptorTable.closeAll_apply, Option.ite_none_left_eq_some] at found
    rcases laid.readEnd fd pipe found.2 with ⟨fdPair, position, rfl⟩
    exact found.1 (List.mem_flatMap.mpr ⟨fdPair, List.mem_of_getElem? position, by simp⟩)
  · rintro ⟨fd, found⟩
    rw [DescriptorTable.closeAll_apply, Option.ite_none_left_eq_some] at found
    rcases laid.writeEnd fd pipe found.2 with ⟨fdPair, position, rfl⟩
    exact found.1 (List.mem_flatMap.mpr ⟨fdPair, List.mem_of_getElem? position, by simp⟩)

/-- A child at `execvp` has its own command, standard input and output and no other
end. When all are there and the parent has closed its copies, each end has one
holder. -/
theorem pipelines_wired (nonEmpty : ∀ command ∈ commands, command ≠ [])
    (stdoutOpen : files stdoutFileno ≠ none) {labels : List Label}
    (run : (pipeline commands files).Run labels console) :
    (∀ index child, console.children[index]? = some child → child.status = .running ∧
      ∀ command, child.Executes command →
        commands[index]? = some command ∧ Wired files commands.length index child.table) ∧
    (console.AllExecute commands.length → console.Closed → ∀ pipe, pipe + 1 < commands.length →
      ∀ process, (console.Holds (.writeEnd pipe) process ↔ process = .child pipe) ∧
        (console.Holds (.readEnd pipe) process ↔ process = .child (pipe + 1))) := by
  have sound := sound_of_run nonEmpty stdoutOpen run
  refine ⟨fun index child found => ⟨?_, fun command executes => ?_⟩,
    fun all closed pipe inside process => ?_⟩
  · rcases sound.ran index child found with ⟨_, _, ran⟩
    exact ran.1
  · exact sound.executes nonEmpty stdoutOpen found executes
  · rcases sound.parent_holds closed pipe with ⟨noRead, noWrite⟩
    -- every child is wired
    have wired : ∀ index child, console.children[index]? = some child →
        Wired files commands.length index child.table := by
      intro index child found
      rcases all index (sound.of_child found).1 with ⟨same, command, foundSame, executes⟩
      obtain rfl : child = same := Option.some.inj (found.symm.trans foundSame)
      exact (sound.executes nonEmpty stdoutOpen found executes).2
    constructor
    · constructor
      · intro holds
        cases process with
        | parent => exact absurd holds noWrite
        | child index =>
            rcases holds with ⟨child, found, holds⟩
            rw [(wired index child found).writeEnds pipe holds]
      · rintro rfl
        rcases all pipe (by omega) with ⟨child, command, found, _⟩
        refine ⟨child, found, stdoutFileno, ?_⟩
        rw [(wired pipe child found).output, if_pos inside]
    · constructor
      · intro holds
        cases process with
        | parent => exact absurd holds noRead
        | child index =>
            rcases holds with ⟨child, found, holds⟩
            rw [(wired index child found).readEnds pipe holds]
      · rintro rfl
        rcases all (pipe + 1) inside with ⟨child, command, found, _⟩
        refine ⟨child, found, stdinFileno, ?_⟩
        rw [(wired (pipe + 1) child found).input, if_neg (by omega)]
        rfl

end Wiring

/-- Three commands of one letter. -/
def threeCommands : List Text := [['a'], ['b'], ['c']]

/-- A shell with its three standard descriptors. -/
def terminal (fd : ℤ) : Option ℕ := if 0 ≤ fd ∧ fd ≤ 2 then some 0 else none

/-- The children run while the parent forks and closes. -/
def interleaved : List Label :=
  List.flatten [[.pipe 3 4, .pipe 5 6, .fork], List.replicate 3 (.child 0), [.fork],
    List.replicate 7 (.child 1), [.fork, .close], List.replicate 5 (.child 0),
    [.close, .close], List.replicate 8 (.child 2), [.close]]

theorem pipelines_wired_interleaved : ∃ console,
    (pipeline threeCommands terminal).Run interleaved console ∧ console.AllExecute 3 ∧
      console.Closed ∧ (∀ process, console.Holds (.writeEnd 1) process ↔ process = .child 1) ∧
      ∀ process, console.Holds (.readEnd 1) process ↔ process = .child 2 := by
  have outcome : ((pipeline threeCommands terminal).runFrom
      (pipeline threeCommands terminal).init interleaved).any fun console =>
        (∀ index < 3, (console.children[index]?).map (fun child => (child.status, child.calls)) =
          some (.running, [.execvp (threeCommands.getD index [])])) ∧
        console.closed = (parentFds console.pipeFdPairs).length := by
    decide +kernel
  rw [Option.any_eq_true] at outcome
  rcases outcome with ⟨console, run, holds⟩
  rcases of_decide_eq_true holds with ⟨reached, closed⟩
  have all : console.AllExecute 3 := by
    intro index inside
    rcases Option.map_eq_some_iff.mp (reached index inside) with ⟨child, found, same⟩
    rw [Prod.mk.injEq] at same
    exact ⟨child, _, found, same⟩
  have wired := (pipelines_wired (by decide) (by decide) run).2 all closed 1 (by decide)
  exact ⟨console, run, all, closed, fun process => (wired process).1,
    fun process => (wired process).2⟩

end CSE550.Shell
