import CSE550.Lib.Counts
import CSE550.LockFile.Validate
import Mathlib.Data.List.MinMax
import Mathlib.Data.Multiset.Count

/-!
Owns `validate_client_file`: the check of the client files against the server
logs and of the server logs against each other, and how far it agrees with what
a good run is.

It compares the text of the client lines with the commands the server printed,
looks only at the commands the clients sent, and never reads the client id of a
log line.
-/

namespace CSE550.LockFile

open CSE550.Lib CSE550.Paxos

/-! ### The code -/

/-- `type(resource_id) == int` of a value that `int` returned. -/
def MachineInt (number : ℤ) : Prop :=
  -9223372036854775808 ≤ number ∧ number ≤ 9223372036854775807

instance (number : ℤ) : Decidable (MachineInt number) := by
  unfold MachineInt
  infer_instance

/-- `client.create_command`; `none` where an assertion fails or an exception is raised. -/
def createCommand (cmdStr : Text) : Option Command :=
  match (Text.rstrip ['\n'] (Text.rstrip [' '] cmdStr)).splitOn ' ' with
  | [action, resId] =>
      let lowered := action.map Char.toLower
      if lowered = "lock".toList ∨ lowered = "unlock".toList then
        match Text.readInt resId with
        | some number =>
            if MachineInt number then
              some ⟨if lowered = "unlock".toList then .UNLOCK else .LOCK, number⟩
            else none
        | none => none
      else none
  | _ => none

/-- What the checker knows of the longest log. -/
structure Master where
  cmdList : Dict ℤ Text
  serverDist : Counts Text

/-- `log_size` of a file: `wc -l` counts its newlines. -/
def logLength (content : Text) : ℤ := (content.count '\n' : ℕ)

/-- One round of the loop that looks for the most complete log. -/
def longer {Name : Type} (content : Name → Text) (best : Option Name × ℤ) (name : Name) :
    Option Name × ℤ :=
  if best.2 < logLength (content name) then (some name, logLength (content name)) else best

/-- `entry` of a line that was read. -/
def Fields.entry (fields : Fields) : Text := fields.cmdType ++ ' ' :: Text.intText fields.lockNum

/-- The loop over the longest log. -/
def loadLines (master : Master) : List Text → Option Master
  | [] => some master
  | line :: rest =>
      match readLine line with
      | none => none
      | some fields =>
          match Text.readInt fields.inst with
          | none => none
          | some inst =>
              if inst ∈ master.cmdList then none
              else
                loadLines ⟨master.cmdList.insert inst fields.entry,
                  master.serverDist.bump fields.entry⟩ rest

/-- The text of a client line that is counted. -/
def linet (line : Text) : Text := Text.strip [' ', '\t', '\n'] line

/-- The loops over the client files. -/
def clientDist (contents : List Text) : Counts Text :=
  contents.foldl (fun dist content => dist.tally ((Text.lines content).map linet)) ∅

/-- The comparison of the two distributions. -/
def sameDist {Key : Type} [DecidableEq Key] (cliDist serverDist : Counts Key) : Bool :=
  cliDist.keys.all fun key => key ∈ serverDist ∧ cliDist.lookup key = serverDist.lookup key

/-- The assertion about one line of another log. -/
def checkLine (cmdList : Dict ℤ Text) (line : Text) : Bool :=
  match readLine line with
  | none => false
  | some fields =>
      match Text.readInt fields.inst with
      | none => false
      | some inst => cmdList.lookup inst = some fields.entry

/-- `validate_client_file`: whether it gets to its end. -/
def validateClientFile {Name : Type} [DecidableEq Name] (content : Name → Text)
    (clientFiles : List Text) (serverFiles : List Name) : Bool :=
  if clientFiles = [] ∨ serverFiles = [] then false
  else
    match (serverFiles.foldl (longer content) (none, -1)).1 with
    | none => false
    | some serverLog =>
        match loadLines ⟨∅, ∅⟩ (Text.lines (content serverLog)) with
        | none => false
        | some master =>
            sameDist (clientDist clientFiles) master.serverDist &&
              serverFiles.all fun name => name = serverLog ||
                (Text.lines (content name)).all (checkLine master.cmdList)

/-! ### The two commands of one client line -/

theorem kindText_injective : Function.Injective kindText := by
  intro left right
  cases left <;> cases right <;> decide

theorem commandText_injective : Function.Injective commandText := by
  intro left right same
  have read := congrArg readCommand same
  rw [readCommand_commandText, readCommand_commandText] at read
  have parts := Prod.mk.inj (Option.some.inj read)
  exact congrArg₂ Command.mk (kindText_injective parts.1) parts.2

theorem getLast?_commandText (command : Command) :
    ∀ char ∈ (commandText command).getLast?, char ∉ [' ', '\t', '\n'] := by
  intro char member
  have whole : commandText command = (kindText command.commandType ++ [' ']) ++
      Text.intText command.resourceId := by
    simp [commandText]
  rw [whole, List.getLast?_append_of_ne_nil _ (Text.intText_ne_nil _)] at member
  exact Text.not_mem_of_mem_intText (by simp) (List.mem_of_mem_getLast? member)

/-- A word in small letters with a blank before it is no word of a command. -/
theorem nil_of_lower_kind {left : Text} {kind : CommandType}
    (blanks : ∀ char ∈ left, char ∈ ['\t', '\n'])
    (word : (left ++ kindText kind).map Char.toLower = "lock".toList ∨
      (left ++ kindText kind).map Char.toLower = "unlock".toList) : left = [] := by
  cases left with
  | nil => rfl
  | cons char left =>
      have blank := blanks char (by simp)
      have noLetter : ∀ blank ∈ ['\t', '\n'],
          blank.toLower ≠ 'l' ∧ blank.toLower ≠ 'u' := by simp
      rcases word with word | word
      · exact absurd (List.cons.inj word).1 (noLetter char blank).1
      · exact absurd (List.cons.inj word).1 (noLetter char blank).2

/-- The word of a lock or unlock command stands for its kind. -/
theorem lowered_kindText {kind : CommandType}
    (word : (kindText kind).map Char.toLower = "lock".toList ∨
      (kindText kind).map Char.toLower = "unlock".toList) :
    (if (kindText kind).map Char.toLower = "unlock".toList then CommandType.UNLOCK else .LOCK) =
      kind := by
  cases kind with
  | LOCK => decide
  | UNLOCK => decide
  | NONE => revert word; decide

/-- With two words, the blanks around a command do not include the separator. -/
theorem words_of_padded {left right action resId : Text} {command : Command}
    (words : (left ++ (commandText command ++ right)).splitOn ' ' = [action, resId]) :
    ' ' ∉ left ∧ action = left ++ kindText command.commandType ∧
      resId = Text.intText command.resourceId ++ right ∧ ' ' ∉ right := by
  have noKind : ' ' ∉ kindText command.commandType := not_mem_kindText (by decide)
  have one := Text.length_splitOn (left ++ (commandText command ++ right)) ' '
  rw [words] at one
  simp only [commandText, List.length_cons, List.length_nil, List.count_append,
    List.count_cons_self] at one
  have noLeft : ' ' ∉ left := List.count_eq_zero.mp (by omega)
  have noRight : ' ' ∉ right := List.count_eq_zero.mp (by omega)
  have whole : left ++ (commandText command ++ right) = (left ++ kindText command.commandType) ++
      ' ' :: (Text.intText command.resourceId ++ right) := by
    simp [commandText]
  have noAction : ' ' ∉ left ++ kindText command.commandType := by
    simp [noLeft, noKind]
  have noResId : ' ' ∉ Text.intText command.resourceId ++ right := by
    simp [noRight, @Text.not_mem_intText command.resourceId ' ' (by decide) (by decide)]
  rw [whole, List.splitOn_append_cons_self_of_not_mem noAction,
    List.splitOn_eq_singleton noResId] at words
  simp only [List.cons.injEq, and_true] at words
  exact ⟨noLeft, words.1.symm, words.2.symm, noRight⟩

/-- A line whose text is that of a command is parsed to that command, or not at all. -/
theorem createCommand_of_linet {line : Text} {command sent : Command}
    (text : linet line = commandText command) (parsed : createCommand line = some sent) :
    sent = command := by
  obtain ⟨left, right, blankLeft, blankRight, whole⟩ :=
    Text.strip_decompose [' ', '\t', '\n'] line
  rw [show Text.strip [' ', '\t', '\n'] line = commandText command from text] at whole
  have kept (chars : List Char) (among : ∀ char ∈ chars, char ∈ [' ', '\t', '\n'])
      (pad : Text) : Text.rstrip chars (left ++ (commandText command ++ pad)) =
        left ++ (commandText command ++ Text.rstrip chars pad) := by
    rw [← List.append_assoc, Text.rstrip_append, List.append_assoc]
    rw [List.getLast?_append_of_ne_nil _ (by simp [commandText])]
    exact fun char member inside => getLast?_commandText command char member (among char inside)
  unfold createCommand at parsed
  rw [whole, kept [' '] (by simp), kept ['\n'] (by simp)] at parsed
  split at parsed
  · rename_i action resId words
    obtain ⟨noLeft, rfl, rfl, noRight⟩ := words_of_padded words
    have tabs : ∀ char ∈ left, char ∈ ['\t', '\n'] := by
      intro char member
      rcases List.mem_cons.mp (blankLeft char member) with rfl | other
      · exact absurd member noLeft
      · exact other
    have allBlank : ∀ char ∈ Text.rstrip ['\n'] (Text.rstrip [' '] right), char ∈ Text.blanks := by
      intro char member
      have blank := blankRight char (Text.mem_of_mem_rstrip (Text.mem_of_mem_rstrip member))
      revert blank
      exact fun inside => (by decide : [' ', '\t', '\n'] ⊆ Text.blanks) inside
    have number := @Text.readInt_pad [] _ command.resourceId (by simp) allBlank
    rw [List.nil_append] at number
    by_cases word : (left ++ kindText command.commandType).map Char.toLower = "lock".toList ∨
        (left ++ kindText command.commandType).map Char.toLower = "unlock".toList
    · obtain rfl := nil_of_lower_kind tabs word
      rw [List.nil_append] at word
      simp only [number, List.nil_append, if_pos word] at parsed
      by_cases machine : MachineInt command.resourceId
      · rw [if_pos machine, Option.some_inj] at parsed
        rw [← parsed, lowered_kindText word]
      · rw [if_neg machine] at parsed
        cases parsed
    · simp only [word, if_false, reduceCtorEq] at parsed
  · cases parsed

/-! ### The server logs -/

theorem logLength_logFile (log : List Resolution) : logLength (logFile log) = log.length := by
  have lines : ∀ log : List Resolution, (logFile log).count '\n' = log.length := by
    intro log
    induction log with
    | nil => rfl
    | cons resolution log inductionHypothesis =>
        have split : logFile (resolution :: log) =
            lineText resolution.logLine ++ '\n' :: logFile log := by
          simp [logFile, logText]
        rw [split, List.count_append, List.count_eq_zero.mpr (newline_not_mem_lineText resolution),
          List.count_cons_self, inductionHypothesis, List.length_cons]
        omega
  rw [logLength, lines]

/-- The loop finds the first of the logs of greatest length. -/
theorem foldl_longer {Name : Type} {content : Name → Text} {size : Name → ℕ}
    (length : ∀ name, logLength (content name) = size name) (names : List Name) :
    names.foldl (longer content) (none, -1) =
      match names.argmax size with
      | none => (none, -1)
      | some name => (some name, (size name : ℤ)) := by
  induction names using List.reverseRecOn with
  | nil => rfl
  | append_singleton names last inductionHypothesis =>
      rw [List.foldl_append, inductionHypothesis, List.argmax_concat]
      cases names.argmax size with
      | none => simp [longer, length]; omega
      | some best =>
          by_cases more : size best < size last
          · simp [longer, length, more]
          · simp [longer, length, more]

theorem readEntry {resolution : Resolution} (unsigned : resolution.Unsigned) :
    ∃ fields, readLine (lineText resolution.logLine ++ ['\n']) = some fields ∧
      Text.readInt fields.inst = some (resolution.inst : ℤ) ∧
      fields.entry = commandText resolution.command := by
  refine ⟨_, by rw [readLine_lineText, if_pos unsigned], ?_, rfl⟩
  exact @Text.readInt_pad [] [' '] (resolution.inst : ℤ) (by simp) (by simp [Text.blanks])

/-- One resolution of the longest log, loaded. -/
def Master.record (master : Master) (resolution : Resolution) : Master :=
  ⟨master.cmdList.insert resolution.inst (commandText resolution.command),
    master.serverDist.bump (commandText resolution.command)⟩

theorem loadLines_cons (master : Master) {resolution : Resolution}
    (unsigned : resolution.Unsigned) (rest : List Text) :
    loadLines master ((lineText resolution.logLine ++ ['\n']) :: rest) =
      if (resolution.inst : ℤ) ∈ master.cmdList then none
      else loadLines (master.record resolution) rest := by
  rcases readEntry unsigned with ⟨fields, line, inst, entry⟩
  simp only [loadLines, line, inst, entry, Master.record]

/-- A log is loaded when its instances are distinct. -/
theorem loadLines_eq (master : Master) {log : List Resolution}
    (unsigned : ∀ resolution ∈ log, resolution.Unsigned) :
    loadLines master (log.map fun resolution => lineText resolution.logLine ++ ['\n']) =
      if (log.map Resolution.inst).Nodup ∧
          ∀ resolution ∈ log, (resolution.inst : ℤ) ∉ master.cmdList then
        some (log.foldl Master.record master)
      else none := by
  induction log generalizing master with
  | nil => simp [loadLines]
  | cons resolution log inductionHypothesis =>
      rw [List.forall_mem_cons] at unsigned
      rw [List.map_cons, loadLines_cons master unsigned.1,
        inductionHypothesis (master.record resolution) unsigned.2, List.foldl_cons]
      by_cases known : (resolution.inst : ℤ) ∈ master.cmdList
      · rw [if_pos known, if_neg]
        exact fun both => both.2 resolution (by simp) known
      · rw [if_neg known]
        refine if_congr ?_ rfl rfl
        simp only [Master.record, AList.mem_insert, List.map_cons, List.nodup_cons, List.mem_map,
          List.forall_mem_cons, Int.natCast_inj, not_or]
        constructor
        · rintro ⟨distinct, fresh⟩
          refine ⟨⟨?_, distinct⟩, known, fun other member => (fresh other member).2⟩
          rintro ⟨other, member, same⟩
          exact (fresh other member).1 same
        · rintro ⟨⟨absent, distinct⟩, _, fresh⟩
          exact ⟨distinct, fun other member =>
            ⟨fun same => absent ⟨other, member, same⟩, fresh other member⟩⟩

theorem serverDist_foldl (master : Master) (log : List Resolution) :
    (log.foldl Master.record master).serverDist =
      master.serverDist.tally (log.map fun resolution => commandText resolution.command) := by
  induction log generalizing master with
  | nil => rfl
  | cons resolution log inductionHypothesis => exact inductionHypothesis (master.record resolution)

/-- What the loaded dictionary has for an instance. -/
theorem lookup_foldl_record {master : Master} {log : List Resolution}
    (distinct : (log.map Resolution.inst).Nodup)
    (fresh : ∀ resolution ∈ log, (resolution.inst : ℤ) ∉ master.cmdList) {inst : ℕ} {text : Text} :
    (log.foldl Master.record master).cmdList.lookup (inst : ℤ) = some text ↔
      master.cmdList.lookup (inst : ℤ) = some text ∨
        ∃ resolution ∈ log, resolution.inst = inst ∧ commandText resolution.command = text := by
  induction log generalizing master with
  | nil => simp
  | cons resolution log inductionHypothesis =>
      rw [List.map_cons, List.nodup_cons] at distinct
      rw [List.forall_mem_cons] at fresh
      have later : ∀ other ∈ log, (other.inst : ℤ) ∉ (master.record resolution).cmdList := by
        intro other member inside
        rcases AList.mem_insert _ |>.mp inside with same | old
        · exact distinct.1 (List.mem_map.mpr ⟨other, member, Int.natCast_inj.mp same⟩)
        · exact fresh.2 other member old
      rw [List.foldl_cons, inductionHypothesis distinct.2 later, List.exists_mem_cons_iff,
        ← or_assoc]
      refine or_congr_left ?_
      by_cases same : inst = resolution.inst
      · subst same
        simp [Master.record, AList.lookup_eq_none.mpr fresh.1]
      · have other : (inst : ℤ) ≠ resolution.inst := fun equal => same (Int.natCast_inj.mp equal)
        simp [Master.record, AList.lookup_insert_ne other, Ne.symm same]

theorem checkLine_eq (cmdList : Dict ℤ Text) {resolution : Resolution}
    (unsigned : resolution.Unsigned) :
    checkLine cmdList (lineText resolution.logLine ++ ['\n']) =
      decide (cmdList.lookup (resolution.inst : ℤ) = some (commandText resolution.command)) := by
  rcases readEntry unsigned with ⟨fields, line, inst, entry⟩
  simp only [checkLine, line, inst, entry]

/-! ### The client files -/

theorem clientDist_eq (contents : List Text) :
    clientDist contents = Counts.tally ∅ ((contents.flatMap Text.lines).map linet) := by
  have general (dist : Counts Text) :
      contents.foldl (fun dist content => dist.tally ((Text.lines content).map linet)) dist =
        dist.tally ((contents.flatMap Text.lines).map linet) := by
    induction contents generalizing dist with
    | nil => rfl
    | cons content contents inductionHypothesis =>
        rw [List.foldl_cons, inductionHypothesis, List.flatMap_cons, List.map_append]
        simp only [Counts.tally, List.foldl_append]
  exact general ∅

/-- The comparison passes when every key that was sent was logged as often. -/
theorem sameDist_iff {Key : Type} [DecidableEq Key] (sent logged : List Key) :
    sameDist (Counts.tally ∅ sent) (Counts.tally ∅ logged) = true ↔
      ∀ key ∈ sent, sent.count key = logged.count key := by
  have key (text : Key) : text ∈ (Counts.tally ∅ sent).keys ↔ text ∈ sent := by
    rw [← AList.mem_keys, Counts.mem_tally]
    simp
  simp only [sameDist, List.all_eq_true, key, Bool.decide_and, Bool.and_eq_true, decide_eq_true_eq]
  refine forall₂_congr fun text member => ?_
  rw [Counts.lookup_tally_eq_iff member, Counts.mem_tally, and_iff_right_iff_imp]
  exact fun same => .inl (Counts.mem_of_count_eq member same)

/-! ### Good runs -/

/-- What the checker is run on: client files, and logs by the names of their files. -/
structure Files (Name : Type) where
  clientFiles : List Text
  serverFiles : List Name
  logs : Name → List Resolution

namespace Files

variable {Name : Type}

/-- `validate_client_file` gets to its end. -/
def validated [DecidableEq Name] (files : Files Name) : Bool :=
  validateClientFile (fun name => logFile (files.logs name)) files.clientFiles files.serverFiles

/-- The lines of all client files. -/
def clientLines (files : Files Name) : List Text := files.clientFiles.flatMap Text.lines

/-- What the clients send for them. -/
def clientCommands (files : Files Name) : List Command := files.clientLines.filterMap createCommand

/-- The first of the logs of greatest length. -/
def longest (files : Files Name) : Option Name :=
  files.serverFiles.argmax fun name => (files.logs name).length

/-- The commands in the log of a server. -/
def logged (files : Files Name) (name : Name) : List Command :=
  (files.logs name).map Resolution.command

/-- Client files that the clients can send, and logs without signs. -/
structure WellFormed (files : Files Name) : Prop where
  clients : files.clientFiles ≠ []
  servers : files.serverFiles ≠ []
  accepted : ∀ line ∈ files.clientLines, (createCommand line).isSome
  unsigned : ∀ name ∈ files.serverFiles, ∀ resolution ∈ files.logs name, resolution.Unsigned

/-- The clients' commands are the logged ones, and the logs resolve alike. -/
structure Good (files : Files Name) (master : Name) : Prop where
  commands : (files.clientCommands : Multiset Command) = files.logged master
  distinct : ((files.logs master).map Resolution.inst).Nodup
  entries : ∀ name ∈ files.serverFiles, name ≠ master →
    ∀ resolution ∈ files.logs name, resolution ∈ files.logs master

/-- As far as the commands the clients sent go, and the commands of the instances. -/
structure CommandsAgree (files : Files Name) (master : Name) : Prop where
  counts : ∀ command ∈ files.clientCommands,
    files.clientCommands.count command = (files.logged master).count command
  distinct : ((files.logs master).map Resolution.inst).Nodup
  entries : ∀ name ∈ files.serverFiles, name ≠ master →
    ∀ resolution ∈ files.logs name, ∃ known ∈ files.logs master,
      known.inst = resolution.inst ∧ known.command = resolution.command

/-- Every client line is written the way the servers print its command. -/
def Canonical (files : Files Name) : Prop :=
  ∀ line ∈ files.clientLines, ∀ command ∈ createCommand line, linet line = commandText command

/-- Every logged command was sent by a client. -/
def NoSurplus (files : Files Name) (master : Name) : Prop :=
  ∀ command ∈ files.logged master, command ∈ files.clientCommands

/-- The logs name the same client for an instance. -/
def SameClients (files : Files Name) (master : Name) : Prop :=
  ∀ name ∈ files.serverFiles, name ≠ master → ∀ resolution ∈ files.logs name,
    ∀ known ∈ files.logs master, known.inst = resolution.inst →
      known.clientId = resolution.clientId

variable {files : Files Name} {master : Name}

/-- Canonical lines are the printed commands. -/
theorem linet_eq_of_canonical (wellFormed : files.WellFormed) (canonical : files.Canonical) :
    files.clientLines.map linet = files.clientCommands.map commandText := by
  have general (lines : List Text) (accepted : ∀ line ∈ lines, (createCommand line).isSome)
      (canonical : ∀ line ∈ lines, ∀ command ∈ createCommand line,
        linet line = commandText command) :
      lines.map linet = (lines.filterMap createCommand).map commandText := by
    induction lines with
    | nil => rfl
    | cons line lines inductionHypothesis =>
        rw [List.forall_mem_cons] at accepted canonical
        rcases Option.isSome_iff_exists.mp accepted.1 with ⟨command, parsed⟩
        rw [List.map_cons, List.filterMap_cons_some parsed, List.map_cons,
          canonical.1 command parsed, inductionHypothesis accepted.2 canonical.2]
  exact general files.clientLines wellFormed.accepted canonical

/-- The texts are logged as often as they were sent when the lines are canonical
and the commands are. -/
theorem sameDist_clientDist_iff (wellFormed : files.WellFormed) :
    sameDist (clientDist files.clientFiles)
        (Counts.tally ∅ ((files.logged master).map commandText)) = true ↔
      files.Canonical ∧ ∀ command ∈ files.clientCommands,
        files.clientCommands.count command = (files.logged master).count command := by
  rw [clientDist_eq, sameDist_iff, show files.clientFiles.flatMap Text.lines = files.clientLines
    from rfl]
  constructor
  · intro counts
    have canonical : files.Canonical := by
      intro line member command parsed
      have sent : linet line ∈ files.clientLines.map linet := List.mem_map_of_mem member
      have found := Counts.mem_of_count_eq sent (counts _ sent)
      rcases List.mem_map.mp found with ⟨known, _, text⟩
      rw [createCommand_of_linet text.symm parsed, text]
    rw [linet_eq_of_canonical wellFormed canonical] at counts
    exact ⟨canonical, (Counts.count_map_eq_iff commandText_injective).mp counts⟩
  · rintro ⟨canonical, counts⟩
    rw [linet_eq_of_canonical wellFormed canonical]
    exact (Counts.count_map_eq_iff commandText_injective).mpr counts

theorem checkLine_iff (distinct : ((files.logs master).map Resolution.inst).Nodup)
    {resolution : Resolution} (unsigned : resolution.Unsigned) :
    checkLine ((files.logs master).foldl Master.record ⟨∅, ∅⟩).cmdList
        (lineText resolution.logLine ++ ['\n']) = true ↔
      ∃ known ∈ files.logs master,
        known.inst = resolution.inst ∧ known.command = resolution.command := by
  rw [checkLine_eq _ unsigned, decide_eq_true_eq, lookup_foldl_record distinct (by simp)]
  simp only [AList.lookup_empty, reduceCtorEq, false_or, commandText_injective.eq_iff]

/-- The loop over the other logs. -/
theorem all_checkLine_iff [DecidableEq Name] (wellFormed : files.WellFormed)
    (distinct : ((files.logs master).map Resolution.inst).Nodup) :
    (files.serverFiles.all fun name => name = master ||
        (Text.lines (logFile (files.logs name))).all
          (checkLine ((files.logs master).foldl Master.record ⟨∅, ∅⟩).cmdList)) = true ↔
      ∀ name ∈ files.serverFiles, name ≠ master → ∀ resolution ∈ files.logs name,
        ∃ known ∈ files.logs master,
          known.inst = resolution.inst ∧ known.command = resolution.command := by
  simp only [List.all_eq_true, Bool.or_eq_true, decide_eq_true_eq, or_iff_not_imp_left,
    lines_logFile, List.forall_mem_map]
  refine forall₃_congr fun name listed other => forall₂_congr fun resolution inside => ?_
  exact checkLine_iff distinct (wellFormed.unsigned name listed resolution inside)

/-- What the checker accepts. -/
theorem validated_iff [DecidableEq Name] (wellFormed : files.WellFormed)
    (longest : files.longest = some master) :
    files.validated = true ↔ files.Canonical ∧ files.CommandsAgree master := by
  have chosen := @foldl_longer _ (fun name => logFile (files.logs name)) _
    (fun name => logLength_logFile (files.logs name)) files.serverFiles
  rw [show files.serverFiles.argmax (fun name => (files.logs name).length) = some master from
    longest] at chosen
  have loaded := loadLines_eq ⟨∅, ∅⟩
    (wellFormed.unsigned master (List.argmax_mem longest))
  unfold validated validateClientFile
  rw [if_neg (not_or.mpr ⟨wellFormed.clients, wellFormed.servers⟩), chosen]
  simp only [lines_logFile (files.logs master), loaded]
  by_cases distinct : ((files.logs master).map Resolution.inst).Nodup
  · rw [if_pos ⟨distinct, fun _ _ => AList.notMem_empty _⟩]
    have dist : ((files.logs master).foldl Master.record ⟨∅, ∅⟩).serverDist =
        Counts.tally ∅ ((files.logged master).map commandText) := by
      rw [serverDist_foldl, logged, List.map_map]
      rfl
    simp only [Bool.and_eq_true, dist, all_checkLine_iff wellFormed distinct,
      sameDist_clientDist_iff wellFormed]
    constructor
    · rintro ⟨⟨canonical, counts⟩, entries⟩
      exact ⟨canonical, counts, distinct, entries⟩
    · rintro ⟨canonical, agree⟩
      exact ⟨⟨canonical, agree.counts⟩, agree.entries⟩
  · rw [if_neg fun both => distinct both.1]
    simp only [Bool.false_eq_true, false_iff, not_and]
    exact fun _ agree => distinct agree.distinct

/-- The clients' commands are the logged ones when none is left out and none is surplus. -/
theorem commands_eq_iff :
    (files.clientCommands : Multiset Command) = files.logged master ↔
      (∀ command ∈ files.clientCommands,
        files.clientCommands.count command = (files.logged master).count command) ∧
      files.NoSurplus master := by
  rw [Multiset.coe_eq_coe, List.perm_iff_count]
  constructor
  · intro counts
    exact ⟨fun command _ => counts command,
      fun command member => Counts.mem_of_count_eq member (counts command).symm⟩
  · rintro ⟨counts, noSurplus⟩ command
    by_cases sent : command ∈ files.clientCommands
    · exact counts command sent
    · rw [List.count_eq_zero.mpr sent,
        List.count_eq_zero.mpr fun member => sent (noSurplus command member)]

/-- What a good run has beyond the agreement on commands. -/
theorem good_iff : files.Good master ↔
    files.CommandsAgree master ∧ files.NoSurplus master ∧ files.SameClients master := by
  constructor
  · rintro ⟨commands, distinct, entries⟩
    rw [commands_eq_iff] at commands
    refine ⟨⟨commands.1, distinct, ?_⟩, commands.2, ?_⟩
    · intro name listed other resolution member
      exact ⟨resolution, entries name listed other resolution member, rfl, rfl⟩
    · intro name listed other resolution member known inside same
      have inMaster := entries name listed other resolution member
      rw [List.inj_on_of_nodup_map distinct inside inMaster same]
  · rintro ⟨⟨counts, distinct, entries⟩, noSurplus, sameClients⟩
    refine ⟨commands_eq_iff.mpr ⟨counts, noSurplus⟩, distinct, ?_⟩
    intro name listed other resolution member
    rcases entries name listed other resolution member with ⟨known, inside, inst, command⟩
    have client := sameClients name listed other resolution member known inside inst
    rcases known with ⟨knownInst, knownClient, knownCommand⟩
    rcases resolution with ⟨resolvedInst, resolvedClient, resolvedCommand⟩
    subst inst client command
    exact inside

end Files

/-- The cross-checker accepts exactly the good runs, if and only if a run whose
commands agree is one whose client lines are printed ones exactly when it has no
surplus command and the same clients. -/
theorem cross_check_agrees_iff {Name : Type} [DecidableEq Name] (files : Files Name)
    (wellFormed : files.WellFormed) :
    (files.validated = true ↔ ∃ master ∈ files.longest, files.Good master) ↔
      ∀ master ∈ files.longest, files.CommandsAgree master →
        (files.Canonical ↔ files.NoSurplus master ∧ files.SameClients master) := by
  cases longest : files.longest with
  | none => exact absurd (List.argmax_eq_none.mp longest) wellFormed.servers
  | some master =>
      simp only [Option.mem_some_iff, exists_eq_left', forall_eq']
      rw [Files.validated_iff wellFormed longest, Files.good_iff]
      tauto

/-- Two clients, and three servers of which one is behind. -/
def threeLogs : Files ℕ where
  clientFiles := ["lock 7\nunlock 7\n".toList, "lock 8\n".toList]
  serverFiles := [0, 1, 2]
  logs := fun server =>
    [⟨0, 0, ⟨.LOCK, 7⟩⟩, ⟨1, 1, ⟨.LOCK, 8⟩⟩, ⟨2, 0, ⟨.UNLOCK, 7⟩⟩].take (server + 2)

/-- The client lines are those that the servers print. -/
theorem cross_check_agrees_printed :
    threeLogs.longest = some 1 ∧
      (threeLogs.validated = true ↔ ∃ master ∈ threeLogs.longest, threeLogs.Good master) := by
  have isLongest : threeLogs.longest = some 1 := by decide
  refine ⟨isLongest, (cross_check_agrees_iff threeLogs ?_).mpr fun master longest _ => ?_⟩
  · exact ⟨by decide, by decide, by decide, by decide⟩
  obtain rfl : 1 = master := Option.some.inj (isLongest.symm.trans longest)
  have noSurplus : threeLogs.NoSurplus 1 := by
    unfold Files.NoSurplus
    decide
  have sameClients : threeLogs.SameClients 1 := by
    unfold Files.SameClients
    decide
  have canonical : threeLogs.Canonical := by
    unfold Files.Canonical
    decide
  exact ⟨fun _ => ⟨noSurplus, sameClients⟩, fun _ => canonical⟩

/-- One client file, and one server that logged a lock of resource 7. -/
def oneLock (content : String) : Files ℕ where
  clientFiles := [content.toList]
  serverFiles := [0]
  logs := fun _ => [⟨0, 0, ⟨.LOCK, 7⟩⟩]

/-- A good run of a client that writes its command in capitals is rejected. -/
theorem capitals_rejected :
    (oneLock "LOCK 7\n").WellFormed ∧
      ¬ ((oneLock "LOCK 7\n").validated = true ↔
        ∃ master ∈ (oneLock "LOCK 7\n").longest, (oneLock "LOCK 7\n").Good master) := by
  refine ⟨⟨by decide, by decide, by decide, by decide⟩, fun agrees => ?_⟩
  have good : (oneLock "LOCK 7\n").Good 0 :=
    ⟨by decide, by decide, fun name listed other => absurd (List.mem_singleton.mp listed) other⟩
  exact absurd (agrees.mpr ⟨0, rfl, good⟩) (by decide)

end CSE550.LockFile
