import CSE550.Shell.Parse
import CSE550.Shell.Pipeline
import Mathlib.Algebra.Order.BigOperators.Group.List
import Mathlib.Algebra.Group.Action.Defs
import Mathlib.Algebra.Order.Ring.Nat
import Mathlib.Data.List.Nodup
import Mathlib.Data.List.Perm.Subperm

/-!
Owns the loop of `main`: lines from `readline`, each parsed and run as a pipeline,
and the waits of the parent for the children of one line before it reads the next.

A child ends after its `execvp`, or by a failure before it. The steps of the
children, the parent and the system come in any order.

Does not own what the commands do, nor the files a child still has open at its end.
-/

namespace CSE550.Shell

open CSE550.Lib

/-! ### The code -/

/-- The processes of one line. -/
structure Job where
  commands : List Text
  console : Console
  /-- The children that have ended and were not waited for. -/
  ended : List ℕ
  /-- What the calls of `waitpid` have returned. -/
  reaped : List ℕ

/-- Where the shell is. -/
inductive Point where
  | prompting
  | running (job : Job)
  /-- The loop has ended and the message is printed. -/
  | terminated
  /-- An exception or a failed assertion. -/
  | aborted
  /-- `exit(-1)` after a `pipe` that failed. -/
  | exited

/-- The shell with its open files between two lines. -/
structure Session where
  table : DescriptorTable File
  /-- What `readline` has returned so far; none at the end of the input. -/
  lines : List (Option Text)
  point : Point

/-- `EXIT_STRING`. -/
def exitString : Text := "exit".toList

/-- What follows `readline`, up to the pipes. A null pointer makes the constructor of
`cmds_line` throw, before `line` is compared with NULL. -/
def Session.read (session : Session) (line : Option Text) : Session :=
  { session with
    lines := session.lines ++ [line]
    point :=
      match line with
      | none => .aborted
      | some line =>
          if line = exitString then .terminated
          else
            match parseCommands line with
            | none => .aborted
            | some commands => .running ⟨commands, ⟨session.table, [], [], 0⟩, [], []⟩ }

/-- The labels of the steps. -/
inductive Action where
  | readline (line : Option Text)
  /-- A call of the parent or of a child. -/
  | call (label : Label)
  | pipeFails
  /-- A child ends. -/
  | ends (index : ℕ)
  | waitpid (index : ℕ)
  /-- `fork_and_pipe_commands` returns. -/
  | done

/-- A child that makes no more calls of this program. -/
def Child.Over (child : Child) : Prop :=
  child.status ≠ .running ∨ ∃ command, child.calls = [.execvp command]

instance overDecidable (child : Child) : Decidable child.Over :=
  decidable_of_iff (child.status ≠ .running ∨
      (match child.calls with
        | [.execvp _] => true
        | _ => false) = true) (by
    unfold Child.Over
    apply or_congr_right
    split
    · rename_i command same
      simp [same]
    · rename_i other
      simpa using other)

/-- The parent has forked all children and closed its copies of the pipes. -/
def Job.Waits (job : Job) : Prop :=
  job.console.children.length = job.commands.length ∧
    job.console.closed = (parentFds job.console.pipeFdPairs).length

instance waitsDecidable (job : Job) : Decidable job.Waits := by
  unfold Job.Waits
  infer_instance

/-- One step while a line is run. -/
def Session.work (session : Session) (job : Job) : Action → Option Session
  | .readline _ => none
  | .call label =>
      (job.console.step job.commands label).map fun console =>
        { session with point := .running { job with console := console } }
  | .pipeFails =>
      if job.console.pipeFdPairs.length < job.commands.length - 1 then
        some { session with point := .exited }
      else none
  | .ends index =>
      match job.console.children[index]? with
      | none => none
      | some child =>
          if child.Over ∧ index ∉ job.ended ∧ index ∉ job.reaped then
            some { session with point := .running { job with ended := job.ended ++ [index] } }
          else none
  | .waitpid index =>
      if job.Waits ∧ index ∈ job.ended then
        some { session with point := .running { job with
          ended := job.ended.erase index
          reaped := job.reaped ++ [index] } }
      else none
  | .done =>
      if job.Waits ∧ job.reaped.length = job.commands.length then
        some { session with table := job.console.table, point := .prompting }
      else none

/-- One step of the shell. What `readline` returns is a C string. -/
def Session.step (session : Session) (action : Action) : Option Session :=
  match session.point, action with
  | .prompting, .readline line =>
      if ∀ text ∈ line, '\x00' ∉ text then some (session.read line) else none
  | .running job, action => session.work job action
  | _, _ => none

/-- The open files of a shell before it makes a pipe. -/
def opened (files : ℤ → Option ℕ) : DescriptorTable File := fun fd => (files fd).map .other

/-- A shell with its open files. -/
def shell (files : ℤ → Option ℕ) : Machine Session Action where
  init := ⟨opened files, [], .prompting⟩
  step := Session.step

/-! ### Parsed lines -/

/-- A line that is parsed gives commands that are not empty. -/
theorem parseCommands_nonempty {line : Text} {commands : List Text}
    (parsed : parseCommands line = some commands) : ∀ command ∈ commands, command ≠ [] := by
  have strips : ∀ (tokens : List Text) (results : List Text), (∀ token ∈ tokens, token ≠ []) →
      tokens.mapM trim = some results → ∀ command ∈ results, command ≠ [] := by
    intro tokens
    induction tokens with
    | nil =>
        intro results _ trimmed
        cases trimmed
        simp
    | cons token tokens inductionHypothesis =>
        intro results nonempty trimmed
        obtain ⟨tokenNonempty, others⟩ := List.forall_mem_cons.mp nonempty
        rw [List.mapM_cons] at trimmed
        obtain ⟨first, isFirst, rest⟩ := Option.bind_eq_some_iff.mp trimmed
        obtain ⟨later, isLater, same⟩ := Option.bind_eq_some_iff.mp rest
        rw [← Option.some.inj same, List.forall_mem_cons]
        refine ⟨?_, inductionHypothesis later others isLater⟩
        by_cases visible : Visible token
        · rw [trim_of_visible visible] at isFirst
          rw [← Option.some.inj isFirst]
          intro empty
          obtain ⟨char, member, isVisible⟩ := visible
          obtain ⟨left, right, allLeft, allRight, split⟩ := Text.strip_decompose whitespace token
          rw [split, empty, List.nil_append] at member
          rcases List.mem_append.mp member with inLeft | inRight
          · exact isVisible (allLeft char inLeft)
          · exact isVisible (allRight char inRight)
        · rw [trim_of_blank tokenNonempty visible] at isFirst
          cases isFirst
  rw [parseCommands, parseTokens_eq] at parsed
  obtain ⟨results, trimmed, same⟩ := Option.map_eq_some_iff.mp parsed
  rw [List.nil_append] at same
  subst same
  apply strips _ _ _ trimmed
  intro segment member
  simpa [segments] using (List.mem_filter.mp member).2

/-! ### The descriptors of the parent -/

section Restores

variable {commands : List Text} {files : ℤ → Option ℕ} {console next : Console}

/-- Closing the pipes that were made leaves the files the shell had open. -/
def Console.Restores (files : ℤ → Option ℕ) (console : Console) : Prop :=
  console.table.closeAll (parentFds console.pipeFdPairs) = opened files

theorem mem_parentFds_concat {pipeFdPairs : List (ℤ × ℤ)} {readFd writeFd fd : ℤ} :
    fd ∈ parentFds (pipeFdPairs ++ [(readFd, writeFd)]) ↔
      fd ∈ parentFds pipeFdPairs ∨ fd = readFd ∨ fd = writeFd := by
  simp [parentFds]

theorem Console.Restores.step {label : Label} (restores : console.Restores files)
    (taken : console.step commands label = some next) : next.Restores files := by
  unfold Console.Restores at restores ⊢
  cases label with
  | pipe readFd writeFd =>
      simp only [Console.step, Option.ite_none_right_eq_some, Option.some.injEq] at taken
      obtain ⟨⟨_, _, _, different, readFree, writeFree⟩, rfl⟩ := taken
      funext fd
      have before := congrFun restores fd
      rw [DescriptorTable.closeAll_apply] at before
      rw [DescriptorTable.closeAll_apply]
      simp only [mem_parentFds_concat]
      by_cases isRead : fd = readFd
      · rw [if_pos (.inr (.inl isRead)), ← before, isRead, readFree, ite_self]
      · by_cases isWrite : fd = writeFd
        · rw [if_pos (.inr (.inr isWrite)), ← before, isWrite, writeFree, ite_self]
        · rw [DescriptorTable.install_of_ne isWrite, DescriptorTable.install_of_ne isRead, ← before]
          simp only [isRead, isWrite, or_false]
  | fork =>
      simp only [Console.step, Option.ite_none_right_eq_some, Option.some.injEq] at taken
      obtain ⟨_, rfl⟩ := taken
      exact restores
  | close =>
      simp only [Console.step, Option.ite_none_right_eq_some, Option.map_eq_some_iff] at taken
      obtain ⟨_, fd, position, rfl⟩ := taken
      funext other
      rw [← congrFun restores other, DescriptorTable.closeAll_apply, DescriptorTable.closeAll_apply]
      by_cases same : other = fd
      · subst same
        rw [if_pos (List.mem_of_getElem? position), if_pos (List.mem_of_getElem? position)]
      · simp only [DescriptorTable.close_of_ne same]
  | child index =>
      simp only [Console.step, Option.bind_eq_some_iff, Option.map_eq_some_iff] at taken
      obtain ⟨child, _, after, _, rfl⟩ := taken
      exact restores

theorem restores_of_run {labels : List Label} (run : (pipeline commands files).Run labels console) :
    console.Restores files := by
  have reached : (pipeline commands files).Reachable console := ⟨labels, run⟩
  apply reached.invariant
  · rfl
  · intro state label after _ restores taken
    exact restores.step taken

/-- After the parent has closed its copies it has the files it had before. -/
theorem table_of_closed (sound : Sound commands files console) (restores : console.Restores files)
    (closed : console.closed = (parentFds console.pipeFdPairs).length) :
    console.table = opened files := by
  obtain ⟨table, _, same⟩ := sound.opened
  rw [closed, List.take_length] at same
  rw [← show console.table.closeAll (parentFds console.pipeFdPairs) = opened files from restores]
  funext fd
  rw [DescriptorTable.closeAll_apply, same, DescriptorTable.closeAll_apply]
  split
  · rfl
  · rfl

end Restores

/-! ### The runs of the shell -/

/-- The line is given to `fork_and_pipe_commands`. -/
def Runnable (line : Option Text) : Prop :=
  ∃ text commands, line = some text ∧ text ≠ exitString ∧ parseCommands text = some commands

/-- The processes of a line between two of their steps. -/
structure Job.Sound (files : ℤ → Option ℕ) (job : Job) : Prop where
  run : ∃ labels, (pipeline job.commands files).Run labels job.console
  nonempty : ∀ command ∈ job.commands, command ≠ []
  /-- A child is waited for at most once. -/
  once : (job.reaped ++ job.ended).Nodup
  forked : ∀ index ∈ job.reaped ++ job.ended, index < job.console.children.length

/-- How the shell is where it is. -/
inductive Point.Follows (files : ℤ → Option ℕ) (table : DescriptorTable File)
    (lines : List (Option Text)) : Point → Prop
  | prompting (all : ∀ line ∈ lines, Runnable line) (same : table = opened files) :
      Point.Follows files table lines .prompting
  | running (job : Job) (text : Text) (older : List (Option Text))
      (all : ∀ line ∈ older, Runnable line) (last : lines = older ++ [some text])
      (notExit : text ≠ exitString) (parsed : parseCommands text = some job.commands)
      (sound : job.Sound files) : Point.Follows files table lines (.running job)
  | terminated (older : List (Option Text)) (all : ∀ line ∈ older, Runnable line)
      (last : lines = older ++ [some exitString]) : Point.Follows files table lines .terminated
  | aborted (older : List (Option Text)) (line : Option Text)
      (all : ∀ line ∈ older, Runnable line) (last : lines = older ++ [line])
      (fails : ∀ text ∈ line, text ≠ exitString ∧ parseCommands text = none) :
      Point.Follows files table lines .aborted
  | exited (all : ∀ line ∈ lines, Runnable line) : Point.Follows files table lines .exited

section Runs

variable {files : ℤ → Option ℕ} {session next : Session} {job : Job} {action : Action}

/-- A call makes no child disappear. -/
theorem children_of_step {commands : List Text} {console after : Console} {label : Label}
    (taken : console.step commands label = some after) :
    console.children.length ≤ after.children.length := by
  cases label with
  | pipe readFd writeFd =>
      simp only [Console.step, Option.ite_none_right_eq_some, Option.some.injEq] at taken
      obtain ⟨_, rfl⟩ := taken
      exact le_rfl
  | fork =>
      simp only [Console.step, Option.ite_none_right_eq_some, Option.some.injEq] at taken
      obtain ⟨_, rfl⟩ := taken
      simp
  | close =>
      simp only [Console.step, Option.ite_none_right_eq_some, Option.map_eq_some_iff] at taken
      obtain ⟨_, fd, _, rfl⟩ := taken
      exact le_rfl
  | child index =>
      simp only [Console.step, Option.bind_eq_some_iff, Option.map_eq_some_iff] at taken
      obtain ⟨child, _, after, _, rfl⟩ := taken
      rw [List.length_set]

/-- What a step does while a line is run. -/
inductive Job.Step (job : Job) : Action → Job → Prop
  | call (label : Label) (console : Console)
      (taken : job.console.step job.commands label = some console) :
      Job.Step job (.call label) { job with console := console }
  | ends (index : ℕ) (child : Child) (found : job.console.children[index]? = some child)
      (finished : child.Over) (fresh : index ∉ job.reaped ++ job.ended) :
      Job.Step job (.ends index) { job with ended := job.ended ++ [index] }
  | waitpid (index : ℕ) (waits : job.Waits) (ended : index ∈ job.ended) :
      Job.Step job (.waitpid index)
        { job with ended := job.ended.erase index, reaped := job.reaped ++ [index] }

/-- The line goes on, is done, or ends the shell. -/
inductive Works (session : Session) (job : Job) (action : Action) : Session → Prop
  | goesOn (later : Job) (step : job.Step action later) :
      Works session job action { session with point := .running later }
  | done (named : action = .done) (waits : job.Waits)
      (all : job.reaped.length = job.commands.length) :
      Works session job action { session with table := job.console.table, point := .prompting }
  | exits (more : job.console.pipeFdPairs.length < job.commands.length - 1) :
      Works session job action { session with point := .exited }

theorem works_of_step (taken : session.work job action = some next) :
    Works session job action next := by
  cases action with
  | readline line => cases taken
  | call label =>
      obtain ⟨console, step, rfl⟩ := Option.map_eq_some_iff.mp taken
      exact .goesOn _ (.call label console step)
  | pipeFails =>
      simp only [Session.work, Option.ite_none_right_eq_some, Option.some.injEq] at taken
      obtain ⟨more, rfl⟩ := taken
      exact .exits more
  | ends index =>
      simp only [Session.work] at taken
      split at taken
      · cases taken
      · rename_i child found
        rw [Option.ite_none_right_eq_some, Option.some.injEq] at taken
        obtain ⟨⟨finished, notEnded, notReaped⟩, rfl⟩ := taken
        exact .goesOn _ (.ends index child found finished (by simp [notEnded, notReaped]))
  | waitpid index =>
      simp only [Session.work, Option.ite_none_right_eq_some, Option.some.injEq] at taken
      obtain ⟨⟨waits, ended⟩, rfl⟩ := taken
      exact .goesOn _ (.waitpid index waits ended)
  | done =>
      simp only [Session.work, Option.ite_none_right_eq_some, Option.some.injEq] at taken
      obtain ⟨⟨waits, all⟩, rfl⟩ := taken
      exact .done rfl waits all

/-- The processes of a line stay sound. -/
theorem Job.Sound.step {later : Job} (sound : job.Sound files) (step : job.Step action later) :
    later.Sound files := by
  obtain ⟨⟨labels, run⟩, nonempty, once, forked⟩ := sound
  cases step with
  | call label console taken =>
      refine ⟨⟨labels ++ [label], Machine.runFrom_snoc run taken⟩, nonempty, once, ?_⟩
      intro index member
      exact Nat.lt_of_lt_of_le (forked index member) (children_of_step taken)
  | ends index child found finished fresh =>
      refine ⟨⟨labels, run⟩, nonempty, ?_, ?_⟩
      · rw [← List.append_assoc]
        exact List.Nodup.append once (List.nodup_singleton index)
          (List.disjoint_singleton.mpr fresh)
      · intro other member
        rw [← List.append_assoc] at member
        rcases List.mem_append.mp member with old | new
        · exact forked other old
        · rw [List.mem_singleton.mp new]
          exact (List.getElem?_eq_some_iff.mp found).1
  | waitpid index waits ended =>
      have moved : (job.reaped ++ [index] ++ job.ended.erase index).Perm
          (job.reaped ++ job.ended) := by
        rw [List.append_assoc]
        exact (List.perm_cons_erase ended).symm.append_left job.reaped
      exact ⟨⟨labels, run⟩, nonempty, moved.nodup_iff.mpr once,
        fun other member => forked other (moved.mem_iff.mp member)⟩

/-- The first state of a line. -/
theorem Job.Sound.start {commands : List Text}
    (nonempty : ∀ command ∈ commands, command ≠ []) :
    Job.Sound files ⟨commands, ⟨opened files, [], [], 0⟩, [], []⟩ :=
  ⟨⟨[], rfl⟩, nonempty, List.nodup_nil, by simp⟩

/-- The parent that is done has the files it had before the line. -/
theorem Job.Sound.table (sound : job.Sound files) (stdoutOpen : files stdoutFileno ≠ none)
    (waits : job.Waits) : job.console.table = opened files := by
  obtain ⟨labels, run⟩ := sound.run
  exact table_of_closed (sound_of_run sound.nonempty stdoutOpen run) (restores_of_run run) waits.2

theorem follows_read (line : Option Text) (all : ∀ line ∈ session.lines, Runnable line)
    (same : session.table = opened files) :
    Point.Follows files (session.read line).table (session.read line).lines
      (session.read line).point := by
  unfold Session.read
  cases line with
  | none => exact .aborted session.lines none all rfl (by simp)
  | some text =>
      by_cases isExit : text = exitString
      · simp only [if_pos isExit]
        exact .terminated session.lines all (by rw [isExit])
      · simp only [if_neg isExit]
        cases parsed : parseCommands text with
        | none => exact .aborted session.lines (some text) all rfl (by simp [isExit, parsed])
        | some commands =>
            rw [same]
            exact .running _ text session.lines all rfl isExit parsed
              (.start (parseCommands_nonempty parsed))

/-- Every step of the shell follows. -/
theorem follows_step (stdoutOpen : files stdoutFileno ≠ none)
    (follows : session.point.Follows files session.table session.lines)
    (taken : session.step action = some next) :
    next.point.Follows files next.table next.lines := by
  unfold Session.step at taken
  split at taken
  · rename_i line prompting
    rw [Option.ite_none_right_eq_some, Option.some.injEq] at taken
    obtain ⟨_, rfl⟩ := taken
    rw [prompting] at follows
    cases follows with
    | prompting all same => exact follows_read line all same
  · rename_i job isRunning
    rw [isRunning] at follows
    cases follows with
    | running _ text older all last notExit parsed sound =>
        have ran : ∀ line ∈ session.lines, Runnable line := by
          rw [last, List.forall_mem_append]
          exact ⟨all, by simpa using ⟨text, _, rfl, notExit, parsed⟩⟩
        cases works_of_step taken with
        | goesOn later step =>
            have same : later.commands = job.commands := by
              cases step <;> rfl
            exact .running later text older all last notExit (same ▸ parsed) (sound.step step)
        | done named waits every => exact .prompting ran (sound.table stdoutOpen waits)
        | exits more => exact .exited ran
  · cases taken

theorem follows_of_run (stdoutOpen : files stdoutFileno ≠ none) {actions : List Action}
    (run : (shell files).Run actions session) :
    session.point.Follows files session.table session.lines := by
  have reached : (shell files).Reachable session := ⟨actions, run⟩
  apply reached.invariant
  · exact .prompting (by simp [shell]) rfl
  · intro state action after _ follows taken
    exact follows_step stdoutOpen follows taken

end Runs

/-! ### The end of the shell -/

/-- A line is not parsed when one of its segments has nothing visible in it. -/
theorem parseCommands_eq_none_iff {line : Text} :
    parseCommands line = none ↔ ∃ segment ∈ segments (cStr line), ¬ Visible segment := by
  have nonempty : ∀ segment ∈ segments (cStr line), segment ≠ [] := by
    intro segment member
    simpa [segments] using (List.mem_filter.mp member).2
  rw [parseCommands, parseTokens_eq, Option.map_eq_none_iff]
  generalize segments (cStr line) = tokens at nonempty
  induction tokens with
  | nil => simp
  | cons token tokens inductionHypothesis =>
      obtain ⟨tokenNonempty, others⟩ := List.forall_mem_cons.mp nonempty
      simp only [List.mem_cons, or_and_right, exists_or, exists_eq_left,
        ← inductionHypothesis others, List.mapM_cons]
      by_cases visible : Visible token
      · rw [trim_of_visible visible]
        cases tokens.mapM trim <;> simp [visible]
      · rw [trim_of_blank tokenNonempty visible]
        simp [visible]

/-- What the state of a shell says about its input and its processes. -/
structure WellRun (files : ℤ → Option ℕ) (session : Session) : Prop where
  /-- At the prompt the shell has the open files it started with. -/
  restored : session.point = .prompting → session.table = opened files
  /-- The commands that are run are those of the last line. -/
  parsed : ∀ job, session.point = .running job → ∃ text,
    session.lines.getLast? = some (some text) ∧ parseCommands text = some job.commands
  /-- A child at `execvp` has its own command, standard input and output and no other end. -/
  wired : ∀ job, session.point = .running job → ∀ index child,
    job.console.children[index]? = some child → child.status = .running ∧
      ∀ command, child.Executes command →
        job.commands[index]? = some command ∧ Wired files job.commands.length index child.table
  /-- The message is printed after the `exit` line and never at the end of the input. -/
  terminates : session.point = .terminated ↔ session.lines.getLast? = some (some exitString)
  /-- The shell dies at the end of the input, and of a segment of blanks. -/
  aborts : session.point = .aborted ↔ ∃ line, session.lines.getLast? = some line ∧
    ∀ text ∈ line, text ≠ exitString ∧ ∃ segment ∈ segments (cStr text), ¬ Visible segment

/-- A line the shell has run is no reason to end. -/
theorem Runnable.not_last {lines : List (Option Text)} (all : ∀ line ∈ lines, Runnable line) :
    lines.getLast? ≠ some (some exitString) ∧ ¬ ∃ line, lines.getLast? = some line ∧
      ∀ text ∈ line, text ≠ exitString ∧ ∃ segment ∈ segments (cStr text), ¬ Visible segment := by
  constructor
  · intro last
    obtain ⟨text, _, same, notExit, _⟩ := all _ (List.mem_of_mem_getLast? last)
    exact notExit (Option.some.inj same).symm
  · rintro ⟨line, last, fails⟩
    obtain ⟨text, commands, rfl, _, parsed⟩ := all _ (List.mem_of_mem_getLast? last)
    have unparsed := parseCommands_eq_none_iff.mpr (fails text rfl).2
    rw [unparsed] at parsed
    cases parsed

/-- The shell ends as its last line says. -/
theorem Point.Follows.ends {files : ℤ → Option ℕ} {table : DescriptorTable File}
    {lines : List (Option Text)} {point : Point} (follows : point.Follows files table lines) :
    (point = .terminated ↔ lines.getLast? = some (some exitString)) ∧
      (point = .aborted ↔ ∃ line, lines.getLast? = some line ∧ ∀ text ∈ line,
        text ≠ exitString ∧ ∃ segment ∈ segments (cStr text), ¬ Visible segment) := by
  cases follows with
  | prompting all same =>
      obtain ⟨noExit, noFailure⟩ := Runnable.not_last all
      exact ⟨iff_of_false nofun noExit, iff_of_false nofun noFailure⟩
  | exited all =>
      obtain ⟨noExit, noFailure⟩ := Runnable.not_last all
      exact ⟨iff_of_false nofun noExit, iff_of_false nofun noFailure⟩
  | running job text older all last notExit parsed sound =>
      have ran : ∀ line ∈ lines, Runnable line := by
        rw [last, List.forall_mem_append]
        exact ⟨all, by simpa using ⟨text, _, rfl, notExit, parsed⟩⟩
      obtain ⟨noExit, noFailure⟩ := Runnable.not_last ran
      exact ⟨iff_of_false nofun noExit, iff_of_false nofun noFailure⟩
  | terminated older all last =>
      subst last
      refine ⟨iff_of_true rfl (by simp), iff_of_false nofun ?_⟩
      rintro ⟨line, isLast, fails⟩
      rw [List.getLast?_concat, Option.some.injEq] at isLast
      exact (fails exitString (by rw [← isLast]; rfl)).1 rfl
  | aborted older line all last fails =>
      subst last
      refine ⟨iff_of_false nofun ?_, iff_of_true rfl ⟨line, by simp, ?_⟩⟩
      · rw [List.getLast?_concat, Option.some.injEq]
        intro same
        exact (fails exitString (by rw [same]; rfl)).1 rfl
      · intro text isText
        obtain ⟨notExit, unparsed⟩ := fails text isText
        exact ⟨notExit, parseCommands_eq_none_iff.mp unparsed⟩

/-- In every run of the shell each line starts from the files of the first one, its
children are wired as its commands, and the shell ends as its last line says. -/
theorem shell_well_run {files : ℤ → Option ℕ} (stdoutOpen : files stdoutFileno ≠ none)
    {actions : List Action} {session : Session} (run : (shell files).Run actions session) :
    WellRun files session := by
  have follows := follows_of_run stdoutOpen run
  constructor
  · intro prompting
    rw [prompting] at follows
    cases follows with
    | prompting all same => exact same
  · intro job isRunning
    rw [isRunning] at follows
    cases follows with
    | running _ text older all last notExit parsed sound =>
        exact ⟨text, by rw [last, List.getLast?_concat], parsed⟩
  · intro job isRunning index child found
    rw [isRunning] at follows
    cases follows with
    | running _ text older all last notExit parsed sound =>
        obtain ⟨labels, ran⟩ := sound.run
        have pipes := sound_of_run sound.nonempty stdoutOpen ran
        refine ⟨?_, fun command executes => ?_⟩
        · obtain ⟨_, _, going⟩ := pipes.ran index child found
          exact going.1
        · exact pipes.executes sound.nonempty stdoutOpen found executes
  · exact follows.ends.1
  · exact follows.ends.2

/-- The line of three commands. -/
def threeLine : Text := "a|b|c".toList

/-- Its first state. -/
def threeStart : Session :=
  let console : Console := ⟨opened terminal, [], [], 0⟩
  ⟨opened terminal, [some threeLine], .running ⟨threeCommands, console, [], []⟩⟩

theorem threeStart_read : (shell terminal).Run [.readline (some threeLine)] threeStart := by
  have parsed : parseCommands threeLine = some threeCommands := by
    rw [parseCommands, parseTokens_eq]
    decide
  have named : threeLine ≠ exitString := by decide
  have noNul : '\x00' ∉ threeLine := by decide
  have read : (shell terminal).init.read (some threeLine) = threeStart := by
    simp only [Session.read, if_neg named, parsed]
    rfl
  have stepped : (shell terminal).step (shell terminal).init (.readline (some threeLine)) =
      some threeStart := by
    show Session.step (shell terminal).init (.readline (some threeLine)) = some threeStart
    simp only [Session.step, shell, Option.mem_some_iff, forall_eq', noNul, not_false_eq_true,
      if_true]
    exact congrArg some read
  exact Machine.runFrom_cons stepped rfl

/-- The children end and are waited for in another order. -/
def threeWork : List Action :=
  interleaved.map .call ++ [.ends 0, .ends 2, .waitpid 2, .ends 1, .waitpid 0, .waitpid 1]

/-- The shell that has run the line dies at the end of the input. -/
theorem three_commands_well_run : ∃ session, WellRun terminal session ∧
    session.point = .aborted := by
  have outcome : ((shell terminal).runFrom threeStart (threeWork ++ [.done, .readline none])).any
      (fun session => match session.point with
        | .aborted => true
        | _ => false) = true := by
    decide +kernel
  obtain ⟨session, onward, isAborted⟩ := (Option.any_eq_true _ _).mp outcome
  refine ⟨session, shell_well_run (by decide) (Machine.run_append threeStart_read onward), ?_⟩
  cases point : session.point <;> simp [point] at isAborted
  rfl

/-! ### A line comes to its end -/

/-- How many steps a child has left. -/
def Child.left (child : Child) : ℕ := if child.status = .running then child.calls.length + 1 else 0

/-- More than the steps a line has left, by the number of its commands: each child has at
most two calls for each pipe and six others. -/
def Job.left (job : Job) : ℕ :=
  (job.commands.length - 1 - job.console.pipeFdPairs.length) +
    (job.commands.length - job.console.children.length) * (2 * job.commands.length + 8) +
    (job.console.children.map Child.left).sum +
    (2 * (job.commands.length - 1) - job.console.closed) +
    (job.commands.length - (job.reaped ++ job.ended).length) +
    (job.commands.length - job.reaped.length) + 1

/-- What that is at most for a line of so many commands. -/
def lineSteps (count : ℕ) : ℕ :=
  (count - 1) + count * (2 * count + 8) + 2 * (count - 1) + count + count + 1

section Left

variable {files : ℤ → Option ℕ} {job : Job}

theorem Child.left_step {child next : Child} (taken : child.step = some next) :
    next.left < child.left := by
  unfold Child.step at taken
  split at taken
  · rename_i status calls
    cases taken
    simp [Child.left, status, calls]
  · rename_i oldFd newFd rest status calls
    split at taken
    · cases taken
      simp [Child.left, status, calls]
    · cases taken
      simp [Child.left, status]
  · rename_i condition rest status calls
    split at taken
    · cases taken
      simp [Child.left, status, calls]
    · cases taken
      simp [Child.left, status]
  · cases taken

theorem length_parentFds (pipeFdPairs : List (ℤ × ℤ)) :
    (parentFds pipeFdPairs).length = 2 * pipeFdPairs.length := by
  induction pipeFdPairs with
  | nil => rfl
  | cons fdPair pipeFdPairs inductionHypothesis =>
      unfold parentFds at inductionHypothesis ⊢
      rw [List.flatMap_cons, List.length_append, inductionHypothesis]
      simp only [List.length_cons, List.length_nil]
      omega

theorem length_unusedFds (pipeFdPairs : List (ℤ × ℤ)) (readFd writeFd : ℤ) :
    (unusedFds pipeFdPairs readFd writeFd).length ≤ 2 * pipeFdPairs.length := by
  induction pipeFdPairs with
  | nil => exact le_rfl
  | cons fdPair pipeFdPairs inductionHypothesis =>
      unfold unusedFds at inductionHypothesis ⊢
      rw [List.flatMap_cons, List.length_append, List.length_append, List.length_cons]
      have first : (if fdPair.1 ≠ readFd then [fdPair.1] else []).length ≤ 1 := by
        split <;> simp
      have second : (if fdPair.2 ≠ writeFd then [fdPair.2] else []).length ≤ 1 := by
        split <;> simp
      omega

theorem length_childCalls (commands : List Text) (pipeFdPairs : List (ℤ × ℤ)) (index : ℕ) :
    (childCalls commands pipeFdPairs index).length ≤ 2 * pipeFdPairs.length + 6 := by
  have unused := length_unusedFds pipeFdPairs (readFdOf pipeFdPairs index)
    (writeFdOf commands.length pipeFdPairs index)
  simp only [childCalls, childProcess, List.length_append, List.length_map, List.length_cons,
    List.length_nil]
  omega

/-- The parent waits for a child at most once. -/
theorem Job.Sound.counted (sound : job.Sound files) :
    (job.reaped ++ job.ended).length ≤ job.console.children.length := by
  have inside : (job.reaped ++ job.ended) ⊆ List.range job.console.children.length := by
    intro index member
    exact List.mem_range.mpr (sound.forked index member)
  have counted := (List.subperm_of_subset sound.once inside).length_le
  rwa [List.length_range] at counted

/-- A child has at most its own calls left. -/
theorem Sound.child_left {commands : List Text} {console : Console}
    (sound : Sound commands files console) {child : Child} (member : child ∈ console.children) :
    child.left ≤ 2 * commands.length + 8 := by
  obtain ⟨index, inside, isChild⟩ := List.getElem_of_mem member
  obtain ⟨_, _, running, made, left, split, calls, _⟩ :=
    sound.ran index child (isChild ▸ List.getElem?_eq_getElem inside)
  have all := length_childCalls commands console.pipeFdPairs index
  rw [childCalls_eq, split, List.length_append, List.length_append] at all
  have few := sound.pipes
  simp only [Child.left, running, if_true, calls, List.length_append]
  omega

/-- A line never has more left than its number of commands allows. -/
theorem Job.Sound.left_le (sound : job.Sound files) (stdoutOpen : files stdoutFileno ≠ none) :
    job.left ≤ lineSteps job.commands.length := by
  obtain ⟨labels, run⟩ := sound.run
  have pipes := sound_of_run sound.nonempty stdoutOpen run
  have children : (job.console.children.map Child.left).sum ≤
      job.console.children.length * (2 * job.commands.length + 8) := by
    have each : ∀ left ∈ job.console.children.map Child.left,
        left ≤ 2 * job.commands.length + 8 := by
      intro left member
      obtain ⟨child, isChild, rfl⟩ := List.mem_map.mp member
      exact pipes.child_left isChild
    have total := List.sum_le_card_nsmul _ _ each
    rwa [List.length_map, smul_eq_mul] at total
  have split : (job.commands.length - job.console.children.length) *
      (2 * job.commands.length + 8) +
        job.console.children.length * (2 * job.commands.length + 8) =
      job.commands.length * (2 * job.commands.length + 8) := by
    rw [← Nat.add_mul, Nat.sub_add_cancel pipes.forks]
  unfold Job.left lineSteps
  omega

/-- Every step of a line leaves fewer. -/
theorem Job.Sound.left_step (sound : job.Sound files) (stdoutOpen : files stdoutFileno ≠ none)
    {action : Action} {later : Job} (step : job.Step action later) : later.left < job.left := by
  obtain ⟨labels, run⟩ := sound.run
  have pipes := sound_of_run sound.nonempty stdoutOpen run
  have counted := (sound.step step).counted
  have few := pipes.pipes
  have forks := pipes.forks
  unfold Job.left
  cases step with
  | call label console taken =>
      dsimp only
      cases label with
      | pipe readFd writeFd =>
          simp only [Console.step, Option.ite_none_right_eq_some, Option.some.injEq] at taken
          obtain ⟨⟨more, _⟩, rfl⟩ := taken
          simp only [List.length_append, List.length_singleton]
          omega
      | fork =>
          simp only [Console.step, Option.ite_none_right_eq_some, Option.some.injEq] at taken
          obtain ⟨⟨complete, more⟩, rfl⟩ := taken
          have calls := length_childCalls job.commands job.console.pipeFdPairs
            job.console.children.length
          obtain ⟨missing, isMissing⟩ : ∃ missing,
              job.commands.length - job.console.children.length = missing + 1 :=
            ⟨job.commands.length - job.console.children.length - 1, by omega⟩
          have lessMissing : job.commands.length - (job.console.children.length + 1) = missing := by
            omega
          simp only [List.length_append, List.length_singleton, List.map_append, List.map_singleton,
            List.sum_append, List.sum_singleton, Child.left, if_true, isMissing, lessMissing,
            Nat.succ_mul]
          omega
      | close =>
          simp only [Console.step, Option.ite_none_right_eq_some, Option.map_eq_some_iff] at taken
          obtain ⟨_, fd, position, rfl⟩ := taken
          have bound := (List.getElem?_eq_some_iff.mp position).1
          rw [length_parentFds] at bound
          dsimp only
          omega
      | child index =>
          simp only [Console.step, Option.bind_eq_some_iff, Option.map_eq_some_iff] at taken
          obtain ⟨child, found, after, moved, rfl⟩ := taken
          have less := sum_set_lt found (Child.left_step moved)
          dsimp only
          rw [List.length_set]
          omega
  | ends index child found finished fresh =>
      simp only [List.length_append, List.length_singleton] at counted ⊢
      omega
  | waitpid index waits ended =>
      have shorter := List.length_erase_of_mem ended
      have positive := List.length_pos_of_mem ended
      simp only [List.length_append, List.length_singleton] at counted ⊢
      omega

/-- A child that has not ended has a call to make or is at `execvp`. -/
theorem Sound.child_goes_on {commands : List Text} {console : Console}
    (sound : Sound commands files console) (nonempty : ∀ command ∈ commands, command ≠ [])
    (stdoutOpen : files stdoutFileno ≠ none) {index : ℕ} {child : Child}
    (found : console.children[index]? = some child) :
    child.Over ∨ ∃ next, child.step = some next := by
  obtain ⟨start, laid, running, made, left, split, calls, reached⟩ := sound.ran index child found
  obtain ⟨inside, complete⟩ := sound.of_child found
  obtain ⟨final, succeeds, _⟩ := laid.wired complete inside nonempty stdoutOpen
  cases left with
  | nil => exact .inl (.inr ⟨_, calls⟩)
  | cons call rest =>
      right
      rw [split, execute_append, reached, Option.bind_some] at succeeds
      unfold Child.step
      rw [running, calls]
      cases call with
      | close fd => exact ⟨_, rfl⟩
      | dup2 oldFd newFd =>
          dsimp only [List.cons_append]
          cases child.table.dup2 oldFd newFd with
          | none => exact ⟨_, rfl⟩
          | some table => exact ⟨_, rfl⟩
      | assert condition => cases condition <;> exact ⟨_, rfl⟩
      | execvp command => cases succeeds

/-- The parent closes each descriptor once. -/
theorem closed_step {commands : List Text} {console next : Console} {label : Label}
    (bound : console.closed ≤ (parentFds console.pipeFdPairs).length)
    (taken : console.step commands label = some next) :
    next.closed ≤ (parentFds next.pipeFdPairs).length := by
  cases label with
  | pipe readFd writeFd =>
      simp only [Console.step, Option.ite_none_right_eq_some, Option.some.injEq] at taken
      obtain ⟨_, rfl⟩ := taken
      simp only [length_parentFds, List.length_append] at bound ⊢
      omega
  | fork =>
      simp only [Console.step, Option.ite_none_right_eq_some, Option.some.injEq] at taken
      obtain ⟨_, rfl⟩ := taken
      exact bound
  | close =>
      simp only [Console.step, Option.ite_none_right_eq_some, Option.map_eq_some_iff] at taken
      obtain ⟨_, fd, position, rfl⟩ := taken
      exact (List.getElem?_eq_some_iff.mp position).1
  | child index =>
      simp only [Console.step, Option.bind_eq_some_iff, Option.map_eq_some_iff] at taken
      obtain ⟨child, _, after, _, rfl⟩ := taken
      exact bound

theorem closed_le {commands : List Text} {labels : List Label} {console : Console}
    (run : (pipeline commands files).Run labels console) :
    console.closed ≤ (parentFds console.pipeFdPairs).length := by
  have reached : (pipeline commands files).Reachable console := ⟨labels, run⟩
  apply @Machine.Reachable.invariant _ _ _
    (fun console => console.closed ≤ (parentFds console.pipeFdPairs).length) (Nat.zero_le _) _ _
      reached
  intro state label after _ bound taken
  exact closed_step bound taken

/-- While a line is run there is always a next step. -/
theorem Job.Sound.goes_on (sound : job.Sound files) (stdoutOpen : files stdoutFileno ≠ none)
    (session : Session) : ∃ action next, session.work job action = some next := by
  obtain ⟨labels, run⟩ := sound.run
  have pipes := sound_of_run sound.nonempty stdoutOpen run
  by_cases morePipes : job.console.pipeFdPairs.length < job.commands.length - 1
  · exact ⟨.pipeFails, _, if_pos morePipes⟩
  have complete : job.console.pipeFdPairs.length = job.commands.length - 1 := by
    have few := pipes.pipes
    omega
  by_cases moreForks : job.console.children.length < job.commands.length
  · exact ⟨.call .fork, _, by simp only [Session.work, Console.step, complete, moreForks,
      and_self, if_true, Option.map_some]; rfl⟩
  have all : job.console.children.length = job.commands.length := by
    have forks := pipes.forks
    omega
  by_cases moreCloses : job.console.closed < (parentFds job.console.pipeFdPairs).length
  · exact ⟨.call .close, _, by simp only [Session.work, Console.step, all, if_true,
      List.getElem?_eq_getElem moreCloses, Option.map_some]; rfl⟩
  have waits : job.Waits := ⟨all, Nat.le_antisymm (closed_le run) (not_lt.mp moreCloses)⟩
  by_cases everyOne : job.reaped.length = job.commands.length
  · exact ⟨.done, _, if_pos ⟨waits, everyOne⟩⟩
  have missing : ∃ index < job.commands.length, index ∉ job.reaped := by
    by_contra none
    push Not at none
    have inside : List.range job.commands.length ⊆ job.reaped :=
      fun index member => none index (List.mem_range.mp member)
    have many := (List.subperm_of_subset List.nodup_range inside).length_le
    have counted := sound.counted
    rw [List.length_range] at many
    rw [List.length_append] at counted
    omega
  obtain ⟨index, inside, notReaped⟩ := missing
  by_cases ended : index ∈ job.ended
  · exact ⟨.waitpid index, _, if_pos ⟨waits, ended⟩⟩
  have found := List.getElem?_eq_getElem (all ▸ inside : index < job.console.children.length)
  rcases pipes.child_goes_on sound.nonempty stdoutOpen found with finished | ⟨next, step⟩
  · exact ⟨.ends index, _, by
      simp only [Session.work, found]; exact if_pos ⟨finished, ended, notReaped⟩⟩
  · exact ⟨.call (.child index), _, by simp only [Session.work, Console.step, found, step,
      Option.bind_some, Option.map_some]; rfl⟩

theorem step_of_running {session : Session} (isRunning : session.point = .running job)
    (action : Action) : session.step action = session.work job action := by
  simp only [Session.step, isRunning]

/-- The steps from a line on, up to the next call of `readline`. -/
theorem Job.Sound.ends (stdoutOpen : files stdoutFileno ≠ none) {session final : Session}
    (sound : job.Sound files) (isRunning : session.point = .running job) {later : List Action}
    (noLine : ∀ line, .readline line ∉ later)
    (onward : (shell files).runFrom session later = some final) :
    later.length ≤ job.left ∧ (final.point = .prompting ∨ final.point = .exited ∨
      ∃ action next, (shell files).step final action = some next) := by
  induction later generalizing session job with
  | nil =>
      obtain rfl := Option.some.inj onward
      obtain ⟨action, next, taken⟩ := sound.goes_on stdoutOpen session
      refine ⟨Nat.zero_le _, .inr (.inr ⟨action, next, ?_⟩)⟩
      show Session.step session action = some next
      rw [step_of_running isRunning]
      exact taken
  | cons action later inductionHypothesis =>
      obtain ⟨next, taken, rest⟩ := Machine.runFrom_cons_iff.mp onward
      have others : ∀ line, .readline line ∉ later :=
        fun line member => noLine line (List.mem_cons_of_mem _ member)
      have works : Works session job action next := by
        apply works_of_step
        rw [← taken]
        exact (step_of_running isRunning action).symm
      -- at the prompt only `readline` can follow, and after an exit nothing
      have stopped (finished : next.point = .prompting ∨ next.point = .exited) :
          later = [] ∧ final = next := by
        cases later with
        | nil => exact ⟨rfl, (Option.some.inj rest).symm⟩
        | cons following later =>
            obtain ⟨after, step, _⟩ := Machine.runFrom_cons_iff.mp rest
            change Session.step next following = some after at step
            rcases finished with prompting | exited
            · cases following with
              | readline line => exact absurd List.mem_cons_self (others line)
              | call | pipeFails | ends | waitpid | done => simp [Session.step, prompting] at step
            · simp [Session.step, exited] at step
      have positive : 1 ≤ job.left := Nat.le_add_left _ _
      cases works with
      | goesOn job' step =>
          have less := sound.left_step stdoutOpen step
          obtain ⟨few, outcome⟩ := inductionHypothesis (sound.step step) rfl others rest
          exact ⟨by rw [List.length_cons]; omega, outcome⟩
      | done named waits all =>
          obtain ⟨rfl, rfl⟩ := stopped (.inl rfl)
          exact ⟨positive, .inl rfl⟩
      | exits more =>
          obtain ⟨rfl, rfl⟩ := stopped (.inr rfl)
          exact ⟨positive, .inr (.inl rfl)⟩

end Left

/-- A line that is run takes a number of steps that its number of commands bounds, in
whatever order its processes make them, and there is a next one until the shell is back at
the prompt or a `pipe` has failed. -/
theorem line_comes_to_end {files : ℤ → Option ℕ} (stdoutOpen : files stdoutFileno ≠ none)
    {actions later : List Action} {session final : Session} {job : Job}
    (run : (shell files).Run actions session) (isRunning : session.point = .running job)
    (noLine : ∀ line, .readline line ∉ later)
    (onward : (shell files).runFrom session later = some final) :
    later.length ≤ job.left ∧ job.left ≤ lineSteps job.commands.length ∧
      (final.point = .prompting ∨ final.point = .exited ∨
        ∃ action next, (shell files).step final action = some next) := by
  have follows := follows_of_run stdoutOpen run
  rw [isRunning] at follows
  cases follows with
  | running _ text older all last notExit parsed sound =>
      obtain ⟨few, outcome⟩ := sound.ends stdoutOpen isRunning noLine onward
      exact ⟨few, sound.left_le stdoutOpen, outcome⟩

/-- The line of three commands up to its last wait. -/
theorem three_commands_end : ∃ final,
    (shell terminal).runFrom threeStart threeWork = some final ∧ threeWork.length ≤ 55 ∧
      (final.point = .prompting ∨ final.point = .exited ∨
        ∃ action next, (shell terminal).step final action = some next) := by
  have outcome : ((shell terminal).runFrom threeStart threeWork).isSome = true := by
    decide +kernel
  obtain ⟨final, onward⟩ := Option.isSome_iff_exists.mp outcome
  have noLine : ∀ line, .readline line ∉ threeWork := by simp [threeWork]
  obtain ⟨few, atFirst, outcome⟩ :=
    line_comes_to_end (by decide) threeStart_read rfl noLine onward
  exact ⟨final, onward, few.trans atFirst, outcome⟩

end CSE550.Shell
