import CSE550.Lib.Text
import CSE550.Paxos.Proposer

/-!
Owns the lines of a server's log file: how the proposer writes them and how the
checkers of `lock_file.py` take them apart, at the `-` signs of the line and
at the blank of the command.

Does not own what the checkers do with the parts.
-/

namespace CSE550.LockFile

open CSE550.Lib CSE550.Paxos

/-! ### Writing -/

/-- The word `command.__str__` starts with. -/
def kindText : CommandType → Text
  | .LOCK => "lock".toList
  | .UNLOCK => "unlock".toList
  | .NONE => "none".toList

/-- `command.__str__`. -/
def commandText (command : Command) : Text :=
  kindText command.commandType ++ ' ' :: Text.intText command.resourceId

/-- `str` of the learnt command. -/
def valueText : Value → Text
  | .none => "None".toList
  | .command command => commandText command
  | .int number => Text.intText number

/-- `str` of the learnt client id. -/
def clientText : Option ℤ → Text
  | none => "None".toList
  | some clientId => Text.intText clientId

/-- `"{} -> cid:{} - {}"` of a resolution. -/
def lineText (line : LogLine) : Text :=
  Text.natText line.inst ++ (" -> cid:".toList ++
    (clientText line.clientId ++ (" - ".toList ++ valueText line.command)))

/-- The log file of a proposer. -/
def logText (lines : List LogLine) : Text := lines.flatMap fun line => lineText line ++ ['\n']

/-- A resolved command: its instance, its client and the command. -/
structure Resolution where
  inst : ℕ
  clientId : ℤ
  command : Command
deriving DecidableEq

/-- The line a proposer logs for it. -/
def Resolution.logLine (resolution : Resolution) : LogLine :=
  ⟨resolution.inst, some resolution.clientId, .command resolution.command⟩

/-- Neither id is written with a sign. -/
def Resolution.Unsigned (resolution : Resolution) : Prop :=
  0 ≤ resolution.clientId ∧ 0 ≤ resolution.command.resourceId

instance (resolution : Resolution) : Decidable resolution.Unsigned := by
  unfold Resolution.Unsigned
  infer_instance

/-! ### Reading -/

/-- What the checkers use of a line. -/
structure Fields where
  /-- `fields[0]`. -/
  inst : Text
  cmdType : Text
  lockNum : ℤ

/-- The two parts of the command; `none` where an assertion fails or `int` raises. -/
def readCommand (cmd : Text) : Option (Text × ℤ) :=
  match cmd.splitOn ' ' with
  | [cmdType, lockNum] => (Text.readInt lockNum).map fun number => (cmdType, number)
  | _ => none

/-- `line.strip(" \t\n").split("-")` and what follows in all three loops. -/
def readLine (line : Text) : Option Fields :=
  match (Text.strip [' ', '\t', '\n'] line).splitOn '-' with
  | [inst, _, command] =>
      (readCommand (Text.strip ['\n', ' ', '\t'] command)).map fun (cmdType, lockNum) =>
        ⟨inst, cmdType, lockNum⟩
  | _ => none

/-! ### Reading what was written -/

theorem not_mem_kindText {kind : CommandType} {char : Char} (other : char.isAlpha = false) :
    char ∉ kindText kind := by
  have letters : (kindText kind).all Char.isAlpha = true := by
    cases kind <;> decide
  intro member
  rw [List.all_eq_true.mp letters char member] at other
  cases other

@[simp] theorem kindText_eq_lock {kind : CommandType} :
    kindText kind = "lock".toList ↔ kind = .LOCK := by
  cases kind <;> decide

@[simp] theorem kindText_eq_unlock {kind : CommandType} :
    kindText kind = "unlock".toList ↔ kind = .UNLOCK := by
  cases kind <;> decide

theorem kindText_ne_nil (kind : CommandType) : kindText kind ≠ [] := by
  cases kind <;> decide

theorem readCommand_commandText (command : Command) :
    readCommand (commandText command) =
      some (kindText command.commandType, command.resourceId) := by
  have noBlank : ' ' ∉ Text.intText command.resourceId :=
    Text.not_mem_intText (by decide) (by decide)
  rw [readCommand, commandText,
    List.splitOn_append_cons_self_of_not_mem (not_mem_kindText (by decide)),
    List.splitOn_eq_singleton noBlank]
  simp only [Text.readInt_intText, Option.map_some]

/-- A line in the three parts between its own `-` signs. -/
theorem lineText_parts (resolution : Resolution) :
    lineText resolution.logLine = (Text.natText resolution.inst ++ [' ']) ++
      '-' :: (("> cid:".toList ++ (Text.intText resolution.clientId ++ [' '])) ++
        '-' :: ' ' :: commandText resolution.command) := by
  have arrow : " -> cid:".toList = ' ' :: '-' :: "> cid:".toList := by decide
  have dash : " - ".toList = [' ', '-', ' '] := by decide
  simp only [lineText, Resolution.logLine, clientText, valueText, arrow, dash, List.append_assoc,
    List.cons_append, List.nil_append]

/-- Splitting at a separator that occurs gives at least two parts. -/
theorem two_le_length_splitOn {left right : Text} {sep : Char} :
    2 ≤ ((left ++ sep :: right).splitOn sep).length := by
  have first := List.length_pos_iff.mpr (List.splitOn_ne_nil sep left)
  have second := List.length_pos_iff.mpr (List.splitOn_ne_nil sep right)
  rw [List.splitOn_append_cons_self, List.length_append]
  omega

/-- The blanks the checkers strip off a line are not part of it. -/
theorem strip_lineText (resolution : Resolution) :
    Text.strip [' ', '\t', '\n'] (lineText resolution.logLine ++ ['\n']) =
      lineText resolution.logLine := by
  have bare : Text.Bare [' ', '\t', '\n'] (lineText resolution.logLine) := by
    have whole : lineText resolution.logLine = Text.natText resolution.inst ++
        ((" -> cid:".toList ++ (Text.intText resolution.clientId ++ (" - ".toList ++
          (kindText resolution.command.commandType ++ [' '])))) ++
            Text.intText resolution.command.resourceId) := by
      simp only [lineText, Resolution.logLine, clientText, valueText, commandText,
        List.append_assoc, List.cons_append, List.nil_append]
    rw [whole]
    apply Text.Bare.of_ends (Text.natText_ne_nil _) (Text.intText_ne_nil _)
    · exact .of_all fun char member =>
        Text.not_mem_of_isDigit (by simp) (Text.isDigit_of_mem_natText member)
    · exact .of_all fun char member => Text.not_mem_of_mem_intText (by simp) member
  exact @Text.strip_pad _ [] _ _ (by simp) (by simp) bare

theorem strip_commandText (command : Command) :
    Text.strip ['\n', ' ', '\t'] (' ' :: commandText command) = commandText command := by
  have bare : Text.Bare ['\n', ' ', '\t'] (commandText command) := by
    have whole : commandText command = kindText command.commandType ++
        ([' '] ++ Text.intText command.resourceId) := rfl
    have noBlank : ∀ blank ∈ ['\n', ' ', '\t'], blank.isAlpha = false := by simp
    rw [whole]
    apply Text.Bare.of_ends (kindText_ne_nil _) (Text.intText_ne_nil _)
    · exact .of_all fun char member inside => not_mem_kindText (noBlank char inside) member
    · exact .of_all fun char member => Text.not_mem_of_mem_intText (by simp) member
  have pad := @Text.strip_pad _ [' '] _ [] (by simp) (by simp) bare
  rwa [List.append_nil] at pad

/-- A line that does not split into three parts is rejected. -/
theorem readLine_eq_none {line : Text}
    (parts : ((Text.strip [' ', '\t', '\n'] line).splitOn '-').length ≠ 3) :
    readLine line = none := by
  unfold readLine
  split
  · rename_i same
    rw [same] at parts
    exact absurd rfl parts
  · rfl

/-- The checkers read a line back when neither of its ids has a sign. -/
theorem readLine_lineText (resolution : Resolution) :
    readLine (lineText resolution.logLine ++ ['\n']) =
      if resolution.Unsigned then
        some ⟨Text.natText resolution.inst ++ [' '], kindText resolution.command.commandType,
          resolution.command.resourceId⟩
      else none := by
  have noDash : '-' ∉ Text.natText resolution.inst ++ [' '] := by
    simp [@Text.not_mem_natText _ '-' (by decide)]
  have parts : (lineText resolution.logLine).splitOn '-' =
      (Text.natText resolution.inst ++ [' ']) ::
        (("> cid:".toList ++ (Text.intText resolution.clientId ++ [' '])).splitOn '-' ++
          (' ' :: commandText resolution.command).splitOn '-') := by
    rw [lineText_parts, List.splitOn_append_cons_self_of_not_mem noDash,
      List.splitOn_append_cons_self]
  have oneClient := List.length_pos_iff.mpr
    (List.splitOn_ne_nil '-' ("> cid:".toList ++ (Text.intText resolution.clientId ++ [' '])))
  have oneCommand := List.length_pos_iff.mpr
    (List.splitOn_ne_nil '-' (' ' :: commandText resolution.command))
  by_cases client : 0 ≤ resolution.clientId
  · by_cases resource : 0 ≤ resolution.command.resourceId
    · have noClientDash : '-' ∉ "> cid:".toList ++ (Text.intText resolution.clientId ++ [' ']) := by
        rw [← Int.toNat_of_nonneg client]
        simp [Text.intText, @Text.not_mem_natText _ '-' (by decide)]
      have noCommandDash : '-' ∉ ' ' :: commandText resolution.command := by
        rw [commandText, ← Int.toNat_of_nonneg resource]
        simp [Text.intText, @Text.not_mem_natText _ '-' (by decide),
          @not_mem_kindText _ '-' (by decide)]
      rw [readLine, strip_lineText, parts, List.splitOn_eq_singleton noClientDash,
        List.splitOn_eq_singleton noCommandDash, if_pos ⟨client, resource⟩]
      simp only [List.singleton_append, strip_commandText, readCommand_commandText,
        Option.map_some]
    · rw [if_neg fun both => resource both.2]
      apply readLine_eq_none
      have twoCommand : 2 ≤ ((' ' :: commandText resolution.command).splitOn '-').length := by
        obtain ⟨digits, sign⟩ := Text.intText_of_neg (not_le.mp resource)
        have split := @two_le_length_splitOn
          (' ' :: (kindText resolution.command.commandType ++ [' '])) digits '-'
        simpa [commandText, sign] using split
      rw [strip_lineText, parts]
      simp only [List.length_cons, List.length_append]
      omega
  · rw [if_neg fun both => client both.1]
    apply readLine_eq_none
    have twoClient : 2 ≤ (("> cid:".toList ++
        (Text.intText resolution.clientId ++ [' '])).splitOn '-').length := by
      obtain ⟨digits, sign⟩ := Text.intText_of_neg (not_le.mp client)
      have split := @two_le_length_splitOn "> cid:".toList (digits ++ [' ']) '-'
      rwa [sign]
    rw [strip_lineText, parts]
    simp only [List.length_cons, List.length_append]
    omega

end CSE550.LockFile
