import CSE550.LockFile.Format

/-!
Owns `validate_lock_file`: the check of one server log against the lock rules,
and how far it agrees with executing the logged commands.

It agrees on every log without negative ids. A negative client id or resource id
adds a `-` to the line, which the check takes for a separator.
-/

namespace CSE550.LockFile

open CSE550.Lib CSE550.Paxos

/-- The loop of `validate_lock_file`; `none` where an assertion fails or an
exception leaves the function. -/
def validateLines (lockSet : List ℤ) : List Text → Option Bool
  | [] => some true
  | line :: rest =>
      match readLine line with
      | none => none
      | some fields =>
          if fields.cmdType = "lock".toList then
            if fields.lockNum ∈ lockSet then none
            else validateLines (lockSet ++ [fields.lockNum]) rest
          else if fields.cmdType = "unlock".toList then
            if fields.lockNum ∈ lockSet then
              if fields.lockNum ∈ lockSet.erase fields.lockNum then none
              else validateLines (lockSet.erase fields.lockNum) rest
            else none
          else some false

/-- `validate_lock_file` on the content of the file. -/
def validateLockFile (content : Text) : Option Bool := validateLines [] (Text.lines content)

/-- The log file of a sequence of resolutions. -/
def logFile (resolutions : List Resolution) : Text := logText (resolutions.map Resolution.logLine)

/-- Executing the commands in order with `execute_command`. -/
def executeAll (lockSet : List ℤ) (resolutions : List Resolution) : Except Raised (List ℤ) :=
  resolutions.foldlM
    (fun lockSet resolution => executeCommand lockSet (.command resolution.command)) lockSet

/-- No assertion of `execute_command` fails on the way. -/
def Executes (lockSet : List ℤ) (resolutions : List Resolution) : Prop :=
  ∃ after, executeAll lockSet resolutions = .ok after

theorem newline_not_mem_lineText (resolution : Resolution) :
    '\n' ∉ lineText resolution.logLine := by
  have noNumber {number : ℤ} : '\n' ∉ Text.intText number :=
    Text.not_mem_intText (by decide) (by decide)
  have noKind : '\n' ∉ kindText resolution.command.commandType := not_mem_kindText (by decide)
  have noInst : '\n' ∉ Text.natText resolution.inst := Text.not_mem_natText (by decide)
  have noArrow : '\n' ∉ " -> cid:".toList := by decide
  have noDash : '\n' ∉ " - ".toList := by decide
  simp only [lineText, Resolution.logLine, clientText, valueText, commandText, List.mem_append,
    List.mem_cons, not_or]
  exact ⟨noInst, noArrow, noNumber, noDash, noKind, by decide, noNumber⟩

theorem lines_logFile (resolutions : List Resolution) :
    Text.lines (logFile resolutions) =
      resolutions.map fun resolution => lineText resolution.logLine ++ ['\n'] := by
  have written : logFile resolutions =
      (resolutions.map fun resolution => lineText resolution.logLine).flatMap
        fun line => line ++ ['\n'] := by
    simp only [logFile, logText, List.flatMap_map]
  rw [written, Text.lines_flatMap, List.map_map]
  · rfl
  · intro line member
    rcases List.mem_map.mp member with ⟨resolution, _, rfl⟩
    exact newline_not_mem_lineText resolution

theorem executeAll_cons (lockSet : List ℤ) (resolution : Resolution) (rest : List Resolution) :
    executeAll lockSet (resolution :: rest) =
      match executeCommand lockSet (.command resolution.command) with
      | .error error => .error error
      | .ok after => executeAll after rest := by
  rw [executeAll, List.foldlM_cons]
  cases executeCommand lockSet (.command resolution.command) <;> rfl

/-- One line without signs is judged as `execute_command` judges its command. -/
theorem validateLines_cons (lockSet : List ℤ) (resolution : Resolution) (rest : List Text)
    (unsigned : resolution.Unsigned) :
    validateLines lockSet ((lineText resolution.logLine ++ ['\n']) :: rest) = some true ↔
      ∃ after, executeCommand lockSet (.command resolution.command) = .ok after ∧
        validateLines after rest = some true := by
  rw [validateLines, readLine_lineText, if_pos unsigned]
  simp only [kindText_eq_lock, kindText_eq_unlock]
  rcases resolution with ⟨inst, clientId, kind, resource⟩
  cases kind with
  | LOCK =>
      by_cases held : resource ∈ lockSet
      · simp [executeCommand, held]
      · simp [executeCommand, held]
  | UNLOCK =>
      by_cases held : resource ∈ lockSet
      · by_cases again : resource ∈ lockSet.erase resource
        · simp [executeCommand, held, again]
        · simp [executeCommand, held, again]
      · simp [executeCommand, held]
  | NONE => simp [executeCommand]

/-- The check accepts the logs without signs whose commands can be executed. -/
theorem validateLines_iff (lockSet : List ℤ) (resolutions : List Resolution) :
    validateLines lockSet
        (resolutions.map fun resolution => lineText resolution.logLine ++ ['\n']) = some true ↔
      (∀ resolution ∈ resolutions, resolution.Unsigned) ∧ Executes lockSet resolutions := by
  induction resolutions generalizing lockSet with
  | nil => simp [validateLines, Executes, executeAll, pure, Except.pure]
  | cons resolution rest inductionHypothesis =>
      rw [List.map_cons, List.forall_mem_cons]
      by_cases unsigned : resolution.Unsigned
      · rw [validateLines_cons lockSet resolution _ unsigned]
        unfold Executes
        rw [executeAll_cons]
        cases executed : executeCommand lockSet (.command resolution.command) with
        | error error => simp
        | ok after =>
            have later := inductionHypothesis after
            unfold Executes at later
            simp [later, unsigned]
      · have rejected : readLine (lineText resolution.logLine ++ ['\n']) = none := by
          rw [readLine_lineText, if_neg unsigned]
        simp [validateLines, rejected, unsigned]

/-- `validate_lock_file` accepts the log of a sequence of resolutions exactly when
its commands can be executed, if and only if no logged id has a sign or the
commands cannot be executed anyway. -/
theorem lock_file_check_agrees_iff (resolutions : List Resolution) :
    (validateLockFile (logFile resolutions) = some true ↔ Executes [] resolutions) ↔
      (∀ resolution ∈ resolutions, resolution.Unsigned) ∨ ¬ Executes [] resolutions := by
  rw [validateLockFile, lines_logFile, validateLines_iff]
  tauto

/-- The log of a client that locks resource -7 is rejected. -/
theorem negative_resource_rejected :
    ¬ (validateLockFile (logFile [⟨0, 0, ⟨.LOCK, -7⟩⟩]) = some true ↔
      Executes [] [⟨0, 0, ⟨.LOCK, -7⟩⟩]) := by
  intro agrees
  have executes : Executes [] [⟨0, 0, ⟨.LOCK, -7⟩⟩] := ⟨[-7], rfl⟩
  exact absurd (agrees.mpr executes) (by decide)

end CSE550.LockFile
