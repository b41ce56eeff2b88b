import CSE550.LockFile.Pairs
import CSE550.Paxos.Schedules

/-!
Owns what `integration_test.py` checks when it tears a group down: the log files
its servers have written under `validate_lock_file`, and under
`validate_client_file` with the files its clients have run.

Does not own the protocol: it uses that all servers log beginnings of one list
of entries, and that each client's entries in it are its commands in order.
-/

namespace CSE550.LockFile

open CSE550.Lib CSE550.Paxos

/-! ### The log file of a server -/

/-- The file `server<id>.txt`. -/
def serverLog (group : Group) (server : ℕ) : Text := logText (group.proposers server).logfile

/-- The resolutions of the instances from 0. -/
def resolutions (log : List Entry) : List Resolution :=
  log.mapIdx fun inst entry => ⟨inst, entry.2, entry.1⟩

section Log

variable {cfg : Config} {group : Group} {log : List Entry} {proposer : Proposer}

@[simp] theorem length_resolutions (log : List Entry) : (resolutions log).length = log.length :=
  List.length_mapIdx

theorem resolutions_insts (log : List Entry) :
    (resolutions log).map Resolution.inst = List.range log.length := by
  unfold resolutions
  apply List.ext_getElem <;> simp

theorem resolutions_commands (log : List Entry) :
    (resolutions log).map Resolution.command = log.map Prod.fst := by
  unfold resolutions
  apply List.ext_getElem <;> simp

theorem resolutions_take (log : List Entry) {less more : ℕ} (bound : less ≤ more) :
    resolutions (log.take less) ⊆ resolutions (log.take more) := by
  intro resolution member
  unfold resolutions at member ⊢
  obtain ⟨index, inside, rfl⟩ := List.mem_iff_getElem.mp member
  rw [List.length_mapIdx, List.length_take] at inside
  refine List.mem_iff_getElem.mpr ⟨index, ?_, ?_⟩
  · rw [List.length_mapIdx, List.length_take]
    omega
  · simp

/-- Executing resolutions in order, by their commands. -/
theorem executeAll_commands (lockSet : List ℤ) (resolutions : List Resolution) :
    (executeAll lockSet resolutions).toOption = (resolutions.map Resolution.command).foldlM
      (fun lockSet command => (executeCommand lockSet (.command command)).toOption) lockSet := by
  induction resolutions generalizing lockSet with
  | nil => rfl
  | cons resolution resolutions inductionHypothesis =>
      rw [executeAll_cons, List.map_cons, List.foldlM_cons]
      cases executeCommand lockSet (.command resolution.command) with
      | error error => rfl
      | ok after => exact inductionHypothesis after

/-- It is what the lock service does with the log. -/
theorem executes_resolutions (log : List Entry) :
    Executes [] (resolutions log) ↔ (lockService.replay log).isSome = true := by
  have replayed : lockService.replay log = (executeAll [] (resolutions log)).toOption := by
    rw [executeAll_commands, resolutions_commands, List.foldlM_map]
    rfl
  unfold Executes
  rw [replayed]
  cases executeAll [] (resolutions log) <;> simp [Except.toOption]

/-- A server's log file is the file of its entries. -/
theorem serverLog_eq (replica : Replica log proposer) :
    logText proposer.logfile = logFile (resolutions (log.take proposer.logfile.length)) := by
  have lines : proposer.logfile =
      (resolutions (log.take proposer.logfile.length)).map Resolution.logLine := by
    apply List.ext_getElem?
    intro index
    rw [replica.lines, resolutions, List.getElem?_map, List.getElem?_mapIdx, Option.map_map]
    rfl
  rw [logFile, ← lines]

/-- The ids of the clients and of what they lock have no sign. -/
structure UnsignedIds (cfg : Config) : Prop where
  clients : ∀ index < cfg.clientCount, 0 ≤ cfg.clientId index
  resources : ∀ index < cfg.clientCount, ∀ command ∈ cfg.commands index, 0 ≤ command.resourceId

theorem unsigned_resolutions (unsigned : UnsignedIds cfg) (clients : Clients cfg log group)
    (count : ℕ) : ∀ resolution ∈ resolutions (log.take count), resolution.Unsigned := by
  intro resolution member
  obtain ⟨index, bound, rfl⟩ := List.mem_mapIdx.mp member
  have inLog := List.mem_of_mem_take (List.getElem_mem bound)
  obtain ⟨client, known, owner⟩ := clients.known _ inLog
  have inFile : (log.take count)[index].1 ∈ cfg.commands client := by
    have inOrder := (clients.progress client known).commandsOf_log
    apply List.mem_of_mem_take
    apply inOrder.subset
    exact List.mem_map.mpr ⟨_, List.mem_filter.mpr ⟨inLog, decide_eq_true owner⟩, rfl⟩
  exact ⟨owner ▸ unsigned.clients client known, unsigned.resources client known _ inFile⟩

/-- What a server has logged can be executed unless it has failed on the last line. -/
theorem replay_logfile_iff (replica : Replica log proposer) :
    (lockService.replay (log.take proposer.logfile.length)).isSome = true ↔
      proposer.status ≠ .raised .executeAssertion := by
  cases replica.progress with
  | current count fine =>
      rw [count, replica.lockSet]
      simpa using fine
  | stuck entry found fails count status =>
      rw [count, Service.replay_take_succ found replica.lockSet, fails]
      simp [status]

/-- At every moment of every run `validate_lock_file` accepts the log of a server if and
only if no assertion of `execute_command` has failed in the server. -/
theorem validate_lock_file_iff_no_failure (distinct : cfg.DistinctIds)
    (unsigned : UnsignedIds cfg) (reached : cfg.Reachable group) (server : ℕ) :
    validateLockFile (serverLog group server) = some true ↔
      (group.proposers server).status ≠ .raised .executeAssertion := by
  obtain ⟨ledger, _, refines, clients⟩ := clients_reachable distinct reached
  have replica := refines.replicas server
  rw [serverLog, serverLog_eq replica, validateLockFile, lines_logFile, validateLines_iff,
    executes_resolutions, replay_logfile_iff replica]
  exact and_iff_right (unsigned_resolutions unsigned clients _)

end Log

/-- The log of server 1, which has learnt the entry of client 0 from the others. -/
theorem learnt_log_validates :
    validateLockFile (serverLog (twoLocks.after learntRun) 1) = some true ↔
      ((twoLocks.after learntRun).proposers 1).status ≠ .raised .executeAssertion := by
  have distinct : twoLocks.DistinctIds := fun _ _ _ _ same => Int.ofNat_inj.mp same
  have unsigned : UnsignedIds twoLocks := ⟨by decide, by decide⟩
  exact validate_lock_file_iff_no_failure distinct unsigned (Config.reachable_after _ _) 1

/-! ### The files of the clients -/

/-- A generated file that its client can run: of pairs, or of draws that were free. -/
inductive Generated : Text → Prop
  | simple (numLocks : ℤ) : Generated (makeSimpleFile numLocks)
  | contentious (numLocks : ℤ) : Generated (makeContentiousLockFile numLocks)
  | drawn (numLocks : ℕ) (draws : List ℕ) (content : Text)
      (made : makeLockFile numLocks draws = some content)
      (free : DrawsFree numLocks .start draws) : Generated content

/-- Each client runs the file with its number. -/
def RunsFiles (cfg : Config) (content : ℕ → Text) : Prop :=
  ∀ index < cfg.clientCount, readCommandFile (content index) = some (cfg.commands index)

section Files

variable {commands read : List Command} {content : Text}

/-- What the blanks of a client line leave. -/
theorem linet_commandText (command : Command) :
    linet (commandText command ++ ['\n']) = commandText command := by
  have bare : Text.Bare [' ', '\t', '\n'] (commandText command) := by
    have whole : commandText command = kindText command.commandType ++
        ([' '] ++ Text.intText command.resourceId) := rfl
    have noBlank : ∀ blank ∈ [' ', '\t', '\n'], blank.isAlpha = false := by simp
    rw [whole]
    apply Text.Bare.of_ends (kindText_ne_nil _) (Text.intText_ne_nil _)
    · exact .of_all fun char member inside => not_mem_kindText (noBlank char inside) member
    · exact .of_all fun char member => Text.not_mem_of_mem_intText (by simp) member
  exact @Text.strip_pad _ [] _ _ (by simp) (by simp) bare

theorem lines_commandFile (commands : List Command) :
    Text.lines (commandFile commands) =
      commands.map fun command => commandText command ++ ['\n'] := by
  have oneLine : ∀ line ∈ commands.map commandText, '\n' ∉ line := by
    intro line member
    obtain ⟨command, _, rfl⟩ := List.mem_map.mp member
    simp [commandText, @not_mem_kindText _ '\n' (by decide),
      @Text.not_mem_intText command.resourceId '\n' (by decide) (by decide)]
  have written : commandFile commands =
      (commands.map commandText).flatMap fun line => line ++ ['\n'] := by
    rw [commandFile, List.flatMap_map]
  rw [written, Text.lines_flatMap oneLine, List.map_map]
  rfl

/-- A client that reads a written file reads the commands it was made of, line by line. -/
theorem readCommandFile_eq_some (isRead : readCommandFile (commandFile commands) = some read) :
    read = commands ∧ ∀ command ∈ commands,
      createCommand (commandText command ++ ['\n']) = some command := by
  rw [readCommandFile, lines_commandFile] at isRead
  induction commands generalizing read with
  | nil => exact ⟨(Option.some.inj isRead).symm, by simp⟩
  | cons command commands inductionHypothesis =>
      rw [List.map_cons, List.mapM_cons] at isRead
      obtain ⟨first, parsed, rest⟩ := Option.bind_eq_some_iff.mp isRead
      obtain ⟨others, parsedOthers, same⟩ := Option.bind_eq_some_iff.mp rest
      obtain ⟨rfl, each⟩ := inductionHypothesis parsedOthers
      obtain rfl := createCommand_of_linet (linet_commandText command) parsed
      exact ⟨(Option.some.inj same).symm, List.forall_mem_cons.mpr ⟨parsed, each⟩⟩

/-- What the commands of a generated file are like. -/
structure Orderly (commands : List Command) : Prop where
  isCommand : ∀ command ∈ commands, command.commandType ≠ .NONE
  unsigned : ∀ command ∈ commands, 0 ≤ command.resourceId
  replayed : ∀ clientId, lockService.replay (entriesOf clientId commands) = some []

theorem lockedInTurn_orderly {newLock : ℕ → ℤ} (unsigned : ∀ i, 0 ≤ newLock i) (numLocks : ℤ) :
    Orderly (lockedInTurn newLock numLocks) where
  isCommand := lockedInTurn_isCommand
  unsigned := by
    intro command member
    obtain ⟨i, _, rfl | rfl⟩ := mem_lockedInTurn.mp member
    · exact unsigned i
    · exact unsigned i
  replayed := fun clientId => replay_lockedInTurn clientId

theorem drawn_orderly {numLocks : ℕ} {draws : List ℕ} {done : Generating}
    (ended : Generating.loop numLocks .start draws = some done)
    (free : DrawsFree numLocks .start draws) : Orderly done.releaseAll where
  isCommand := by
    have rounds := Generating.rounds_of_loop ended
    intro command member
    exact ((rounds.counted Generating.start_counted).1.releaseAll command member).1
  unsigned := by
    have rounds := Generating.rounds_of_loop ended
    intro command member
    exact ((rounds.counted Generating.start_counted).1.releaseAll command member).2.1
  replayed := by
    intro clientId
    have rounds := Generating.rounds_of_loop ended
    have replays := rounds.replays free (⟨List.nodup_nil, rfl⟩ : Generating.Replays clientId .start)
    exact replay_unlock_all replays.nodup replays.replayed

theorem Generated.orderly (generated : Generated content) :
    ∃ commands, content = commandFile commands ∧ Orderly commands := by
  cases generated with
  | simple numLocks =>
      exact ⟨_, rfl, lockedInTurn_orderly (fun i => Int.natCast_nonneg i) numLocks⟩
  | contentious numLocks =>
      exact ⟨_, rfl, lockedInTurn_orderly (fun _ => by decide) numLocks⟩
  | drawn numLocks draws content made free =>
      obtain ⟨commands, generated, rfl⟩ := Option.map_eq_some_iff.mp made
      obtain ⟨done, ended, rfl⟩ := Option.map_eq_some_iff.mp generated
      exact ⟨_, rfl, drawn_orderly ended free⟩

/-- What a group whose clients run generated files is given. -/
theorem RunsFiles.orderly {cfg : Config} {content : ℕ → Text} (runs : RunsFiles cfg content)
    (generated : ∀ index < cfg.clientCount, Generated (content index)) :
    ∀ index < cfg.clientCount,
      content index = commandFile (cfg.commands index) ∧ Orderly (cfg.commands index) := by
  intro index inside
  obtain ⟨commands, written, orderly⟩ := (generated index inside).orderly
  have isRead := runs index inside
  rw [written] at isRead
  obtain ⟨rfl, _⟩ := readCommandFile_eq_some isRead
  exact ⟨written, orderly⟩

end Files

/-! ### The entries of orderly clients -/

section Entries

variable {cfg : Config} {group : Group} {log : List Entry}

theorem Orderly.courteous {commands : List Command} (orderly : Orderly commands) (clientId : ℤ) :
    Access.Throughout Access.Courteous ((entriesOf clientId commands).map Entry.access) := by
  apply (courteous_iff_replay orderly.isCommand).mpr
  rw [orderly.replayed clientId]
  rfl

/-- What the clients have in the log is courteous when their files are. -/
theorem courteous_of_orderly (clients : Clients cfg log group)
    (orderly : ∀ index < cfg.clientCount, Orderly (cfg.commands index)) :
    Access.Throughout Access.Courteous (log.map Entry.access) := by
  apply Access.Throughout.of_owners
  intro owner
  rw [ofOwner_access]
  by_cases known : ∃ index < cfg.clientCount, owner = cfg.clientId index
  · obtain ⟨index, inside, rfl⟩ := known
    have inOrder : commandsOf (cfg.clientId index) log <+: cfg.commands index :=
      (clients.progress index inside).commandsOf_log.trans (List.take_prefix _ _)
    have whole := ((orderly index inside).courteous (cfg.clientId index)).take
      (commandsOf (cfg.clientId index) log).length
    have taken : ((entriesOf (cfg.clientId index) (cfg.commands index)).map Entry.access).take
        (commandsOf (cfg.clientId index) log).length =
          (commandsOf (cfg.clientId index) log).map
            fun command => Entry.access (command, cfg.clientId index) := by
      rw [entriesOf, List.map_map, ← List.map_take, ← List.prefix_iff_eq_take.mp inOrder]
      rfl
    rwa [taken] at whole
  · have none : commandsOf owner log = [] := by
      rw [commandsOf, List.map_eq_nil_iff, List.filter_eq_nil_iff]
      intro entry member own
      obtain ⟨index, inside, same⟩ := clients.known entry member
      exact known ⟨index, inside, (of_decide_eq_true own).symm.trans same⟩
    rw [none]
    intro index access found
    simp at found

end Entries

/-! ### When the clients have finished -/

/-- Every client has received the acknowledgement of its last command. -/
def Finished (cfg : Config) (group : Group) : Prop :=
  ∀ index < cfg.clientCount, (group.clients index).got = (cfg.commands index).length

/-- What `validate_client_file` is called with. -/
def tornDown (cfg : Config) (content : ℕ → Text) (log : List Entry) (group : Group) :
    Files ℕ where
  clientFiles := (List.range cfg.clientCount).map content
  serverFiles := List.range cfg.groupSize
  logs := fun server => resolutions (log.take (group.proposers server).logfile.length)

section Finish

variable {cfg : Config} {content : ℕ → Text} {log : List Entry} {group : Group} {master : ℕ}

/-- The lines of the client files. -/
theorem clientLines_tornDown
    (written : ∀ index < cfg.clientCount, content index = commandFile (cfg.commands index)) :
    (tornDown cfg content log group).clientLines = ((List.range cfg.clientCount).flatMap
      cfg.commands).map fun command => commandText command ++ ['\n'] := by
  unfold Files.clientLines tornDown
  rw [List.flatMap_map, List.map_flatMap]
  apply List.flatMap_congr
  intro index member
  rw [written index (List.mem_range.mp member), lines_commandFile]

/-- A log at least as long as that of every client's server holds the commands of each
client, in their order. -/
theorem commandsOf_longest (clients : Clients cfg log group) (finished : Finished cfg group)
    {count index : ℕ} (inside : index < cfg.clientCount)
    (longest : (group.proposers (cfg.clientServer index)).logfile.length ≤ count) :
    commandsOf (cfg.clientId index) (log.take count) = cfg.commands index := by
  have progress := clients.progress index inside
  have recorded := progress.recorded
  have got := progress.got
  rw [finished index inside] at got
  rw [List.take_of_length_le got] at recorded
  have less : cfg.commands index <+: commandsOf (cfg.clientId index) (log.take count) := by
    have shorter := commandsOf_take_initial (cfg.clientId index) (log.take count)
      (group.proposers (cfg.clientServer index)).logfile.length
    rwa [List.take_take, min_eq_left longest, recorded] at shorter
  have more : commandsOf (cfg.clientId index) (log.take count) <+: cfg.commands index :=
    (commandsOf_take_initial _ _ _).trans (progress.commandsOf_log.trans (List.take_prefix _ _))
  exact more.eq_of_length_le less.length_le

/-- The longest log holds exactly the commands of the clients. -/
theorem commands_longest (distinct : cfg.DistinctIds) (clients : Clients cfg log group)
    (finished : Finished cfg group) {count : ℕ} (longest : ∀ index < cfg.clientCount,
      (group.proposers (cfg.clientServer index)).logfile.length ≤ count) :
    ((List.range cfg.clientCount).flatMap cfg.commands).Perm ((log.take count).map Prod.fst) := by
  have nodup : ((List.range cfg.clientCount).map cfg.clientId).Nodup := by
    apply List.Nodup.map_on _ List.nodup_range
    intro first firstInside second secondInside same
    exact distinct first (List.mem_range.mp firstInside) second (List.mem_range.mp secondInside)
      same
  have known : ∀ entry ∈ log.take count,
      entry.2 ∈ (List.range cfg.clientCount).map cfg.clientId := by
    intro entry member
    obtain ⟨index, inside, owner⟩ := clients.known entry (List.mem_of_mem_take member)
    exact owner ▸ List.mem_map_of_mem (List.mem_range.mpr inside)
  have collected := (flatMap_filter_perm Prod.snd nodup known).map Prod.fst
  rw [List.flatMap_map, List.map_flatMap] at collected
  have each : ((List.range cfg.clientCount).flatMap cfg.commands) =
      (List.range cfg.clientCount).flatMap fun index =>
        commandsOf (cfg.clientId index) (log.take count) := by
    apply List.flatMap_congr
    intro index member
    have inside := List.mem_range.mp member
    exact (commandsOf_longest clients finished inside (longest index inside)).symm
  rw [each]
  exact collected

/-- `validate_client_file` accepts the logs of a group whose clients have finished. -/
theorem tornDown_validated (distinct : cfg.DistinctIds) (unsigned : UnsignedIds cfg)
    (clients : Clients cfg log group) (finished : Finished cfg group)
    (bound : ∀ server, (group.proposers server).logfile.length ≤ log.length)
    (runs : RunsFiles cfg content)
    (written : ∀ index < cfg.clientCount, content index = commandFile (cfg.commands index))
    (some : 0 < cfg.clientCount)
    (onServers : ∀ index < cfg.clientCount, cfg.clientServer index < cfg.groupSize) :
    (tornDown cfg content log group).validated = true := by
  have lines := @clientLines_tornDown _ _ log group written
  have created : ∀ index < cfg.clientCount, ∀ command ∈ cfg.commands index,
      createCommand (commandText command ++ ['\n']) = Option.some command := by
    intro index inside
    have isRead := runs index inside
    rw [written index inside] at isRead
    exact (readCommandFile_eq_some isRead).2
  have parsed : ∀ command ∈ (List.range cfg.clientCount).flatMap cfg.commands,
      createCommand (commandText command ++ ['\n']) = Option.some command := by
    intro command member
    obtain ⟨index, inside, inFile⟩ := List.mem_flatMap.mp member
    exact created index (List.mem_range.mp inside) command inFile
  have wellFormed : (tornDown cfg content log group).WellFormed := by
    refine ⟨?_, ?_, ?_, fun server _ => unsigned_resolutions unsigned clients _⟩
    · simp [tornDown, some.ne']
    · have first := onServers 0 some
      simp only [tornDown, ne_eq, List.range_eq_nil]
      omega
    · rw [lines]
      intro line member
      obtain ⟨command, inFiles, rfl⟩ := List.mem_map.mp member
      rw [parsed command inFiles]
      rfl
  have sent : (tornDown cfg content log group).clientCommands =
      (List.range cfg.clientCount).flatMap cfg.commands := by
    rw [Files.clientCommands, lines, List.filterMap_map]
    refine (List.filterMap_congr fun command member => ?_).trans List.filterMap_some
    exact parsed command member
  cases longest : (tornDown cfg content log group).longest with
  | none => exact absurd (List.argmax_eq_none.mp longest) wellFormed.servers
  | some master =>
      have most : ∀ server < cfg.groupSize,
          (group.proposers server).logfile.length ≤ (group.proposers master).logfile.length := by
        intro server known
        have shorter := List.le_of_mem_argmax (List.mem_range.mpr known) longest
        simpa [tornDown, bound] using shorter
      have collected := commands_longest distinct clients finished
        (fun index inside => most _ (onServers index inside))
      apply (Files.validated_iff wellFormed longest).mpr
      refine ⟨?_, ⟨?_, ?_, ?_⟩⟩
      · unfold Files.Canonical
        rw [lines]
        intro line member command created
        obtain ⟨written, inFiles, rfl⟩ := List.mem_map.mp member
        rw [parsed written inFiles, Option.mem_some_iff] at created
        rw [linet_commandText, created]
      · intro command _
        rw [sent, collected.count_eq, Files.logged, ← resolutions_commands]
        rfl
      · show ((resolutions _).map Resolution.inst).Nodup
        rw [resolutions_insts]
        exact List.nodup_range
      · intro server listed _ resolution member
        have shorter := most server (List.mem_range.mp listed)
        exact ⟨resolution, resolutions_take log shorter member, rfl, rfl⟩

/-- What the tear-down of a group has of its clients and their files. -/
structure Tested (cfg : Config) (content : ℕ → Text) : Prop where
  distinct : cfg.DistinctIds
  named : ∀ index < cfg.clientCount, 0 ≤ cfg.clientId index
  nonempty : 0 < cfg.clientCount
  onServers : ∀ index < cfg.clientCount, cfg.clientServer index < cfg.groupSize
  runs : RunsFiles cfg content
  generated : ∀ index < cfg.clientCount, Generated (content index)

theorem Tested.unsigned (tested : Tested cfg content) : UnsignedIds cfg :=
  ⟨tested.named, fun index inside =>
    (tested.runs.orderly tested.generated index inside).2.unsigned⟩

/-- At every moment each server's log can be executed. -/
theorem Tested.validate_lock (tested : Tested cfg content) (reached : cfg.Reachable group)
    (server : ℕ) : validateLockFile (serverLog group server) = some true := by
  obtain ⟨ledger, sound, refines, clients⟩ := clients_reachable tested.distinct reached
  have replayed := replay_of_courteous clients.isCommand
    (courteous_of_orderly clients fun index inside =>
      (tested.runs.orderly tested.generated index inside).2)
    (guarded_of_sound sound clients.isCommand)
  rw [serverLog, serverLog_eq (refines.replicas server), validateLockFile, lines_logFile,
    validateLines_iff, executes_resolutions]
  refine ⟨unsigned_resolutions tested.unsigned clients _, ?_⟩
  apply replay_initial_isSome
  rw [List.take_append_drop]
  exact replayed

/-- Once the clients have finished the logs hold their commands. -/
theorem Tested.validate_client (tested : Tested cfg content) (reached : cfg.Reachable group)
    (finished : Finished cfg group) : validateClientFile (serverLog group)
      ((List.range cfg.clientCount).map content) (List.range cfg.groupSize) = true := by
  obtain ⟨ledger, _, refines, clients⟩ := clients_reachable tested.distinct reached
  have logs : serverLog group = fun server => logFile (resolutions
      (ledger.log.take (group.proposers server).logfile.length)) := by
    funext server
    exact serverLog_eq (refines.replicas server)
  rw [logs]
  exact tornDown_validated tested.distinct tested.unsigned clients finished
    (fun server => (refines.replicas server).bound) tested.runs
    (fun index inside => (tested.runs.orderly tested.generated index inside).1)
    tested.nonempty tested.onServers

end Finish

/-! ### One client after the other -/

/-- The schedule in which each client runs its whole file before the next one begins. -/
def inTurn (cfg : Config) : List ℕ :=
  (List.range cfg.clientCount).flatMap fun index =>
    List.replicate (cfg.commands index).length index

section InTurn

variable {cfg : Config} {content : ℕ → Text} {served : ℕ → ℕ}

/-- The next commands of one client in a row. -/
theorem entriesFrom_replicate {index count : ℕ} {schedule : List ℕ}
    (fits : served index + count ≤ (cfg.commands index).length) :
    cfg.entriesFrom served (List.replicate count index ++ schedule) =
      entriesOf (cfg.clientId index) (((cfg.commands index).drop (served index)).take count) ++
        cfg.entriesFrom (Function.update served index (served index + count)) schedule := by
  induction count generalizing served with
  | zero => simp [entriesOf]
  | succ count inductionHypothesis =>
      have inside : served index < (cfg.commands index).length := by omega
      have next := List.getElem?_eq_getElem inside
      rw [List.replicate_succ, List.cons_append, Config.entriesFrom, next]
      dsimp only
      rw [inductionHypothesis (by rw [Function.update_self]; omega), Function.update_self,
        Function.update_idem, List.drop_eq_getElem_cons inside, List.take_succ_cons,
        Nat.add_right_comm, Nat.add_assoc]
      rfl

theorem entries_inTurn (indices : List ℕ) (nodup : indices.Nodup)
    (unserved : ∀ index ∈ indices, served index = 0) :
    cfg.entriesFrom served (indices.flatMap fun index =>
        List.replicate (cfg.commands index).length index) =
      indices.flatMap fun index => entriesOf (cfg.clientId index) (cfg.commands index) := by
  induction indices generalizing served with
  | nil => rfl
  | cons index indices inductionHypothesis =>
      obtain ⟨fresh, nodup⟩ := List.nodup_cons.mp nodup
      have none := unserved index List.mem_cons_self
      rw [List.flatMap_cons, List.flatMap_cons, entriesFrom_replicate (by omega), none,
        List.drop_zero, List.take_length]
      congr 1
      apply inductionHypothesis nodup
      intro other member
      have different : other ≠ index := fun same => fresh (same ▸ member)
      rw [Function.update_of_ne different]
      exact unserved other (List.mem_cons_of_mem _ member)

/-- Orderly files one after the other leave nothing held in between. -/
theorem replay_inTurn (indices : List ℕ)
    (orderly : ∀ index ∈ indices, Orderly (cfg.commands index)) :
    lockService.replay (indices.flatMap fun index =>
      entriesOf (cfg.clientId index) (cfg.commands index)) = some [] := by
  induction indices using List.reverseRecOn with
  | nil => rfl
  | append_singleton indices index inductionHypothesis =>
      have older := inductionHypothesis fun other member =>
        orderly other (List.mem_append_left _ member)
      have last := (orderly index (by simp)).replayed (cfg.clientId index)
      unfold Service.replay at older last ⊢
      rw [List.flatMap_append, List.foldlM_append, older, List.flatMap_singleton]
      exact last

theorem count_inTurn {index : ℕ} (inside : index < cfg.clientCount) :
    (inTurn cfg).count index = (cfg.commands index).length := by
  have general (clientCount : ℕ) : ((List.range clientCount).flatMap fun index =>
      List.replicate (cfg.commands index).length index).count index =
        if index < clientCount then (cfg.commands index).length else 0 := by
    induction clientCount with
    | zero => rfl
    | succ clientCount inductionHypothesis =>
        rw [List.range_succ, List.flatMap_append, List.count_append, inductionHypothesis,
          List.flatMap_singleton, List.count_replicate]
        by_cases last : clientCount = index
        · subst last
          simp
        · have same : index < clientCount ↔ index < clientCount + 1 := by omega
          rw [if_neg (by simpa using last : ¬ (clientCount == index) = true), Nat.add_zero]
          simp only [same]
  rw [inTurn, general, if_pos inside]

/-- A group without faults can serve orderly clients to the end. -/
theorem finishes_inTurn (three : 3 ≤ cfg.groupSize)
    (processes : ∀ server other, cfg.proposerConnects server other = true ∧
      cfg.acceptorConnects server other = true)
    (own : cfg.OnOwnServers) (distinct : cfg.DistinctIds)
    (orderly : ∀ index < cfg.clientCount, Orderly (cfg.commands index)) :
    ∃ labels group, cfg.machine.Run labels group ∧
      (∀ label ∈ labels, label.isFaultless = true) ∧ Finished cfg group := by
  have known : ∀ index ∈ inTurn cfg, index < cfg.clientCount := by
    intro index member
    obtain ⟨other, inRange, inBlock⟩ := List.mem_flatMap.mp member
    obtain rfl := List.eq_of_mem_replicate inBlock
    exact List.mem_range.mp inRange
  have legal : (lockService.replay ([] ++
      cfg.entriesFrom (fun _ => 0) (inTurn cfg))).isSome = true := by
    rw [List.nil_append, inTurn, entries_inTurn _ List.nodup_range fun _ _ => rfl, replay_inTurn]
    · rfl
    · exact fun index member => orderly index (List.mem_range.mp member)
  obtain ⟨group, ⟨labels, run, faultless⟩, rest⟩ := (AtRest.initial processes).run three own
    distinct known (fun index inside => by rw [count_inTurn inside]; omega) legal
  refine ⟨labels, group, run, faultless, fun index inside => ?_⟩
  rw [(rest.caught index inside).got, count_inTurn inside]
  omega

end InTurn

/-! ### The integration test -/

/-- In every run of clients with generated files `validate_lock_file` accepts each
server's log at each moment, and once the clients have finished `validate_client_file`
accepts the logs with the files. -/
theorem generated_files_validate {cfg : Config} {content : ℕ → Text} {group : Group}
    (tested : Tested cfg content) (reached : cfg.Reachable group) :
    (∀ server, validateLockFile (serverLog group server) = some true) ∧
      (Finished cfg group → validateClientFile (serverLog group)
        ((List.range cfg.clientCount).map content) (List.range cfg.groupSize) = true) :=
  ⟨tested.validate_lock reached, tested.validate_client reached⟩

/-- Two clients of a group of three with the same file of two pairs. -/
def sharedFile : Config :=
  .connected 3 2 (fun _ => simpleCommands 2) fun _ => lockedInTurn_isCommand

theorem sharedFile_tested : Tested sharedFile fun _ => makeSimpleFile 2 where
  distinct := fun _ _ _ _ same => Int.ofNat_inj.mp same
  named := fun index _ => Int.natCast_nonneg index
  nonempty := by decide
  onServers := fun index inside => Nat.lt_succ_of_lt inside
  runs := by
    intro index _
    apply readCommandFile_lockedInTurn
    intro i inside
    unfold MachineInt
    omega
  generated := fun _ _ => .simple 2

theorem sharedFile_own : sharedFile.OnOwnServers :=
  ⟨fun _ inside => Nat.lt_succ_of_lt inside, fun _ _ _ _ same => same⟩

/-- A run in which both have finished passes both checks. -/
theorem shared_file_validates : ∃ group, Finished sharedFile group ∧
    (∀ server, validateLockFile (serverLog group server) = some true) ∧
      validateClientFile (serverLog group) ((List.range 2).map fun _ => makeSimpleFile 2)
        (List.range 3) = true := by
  obtain ⟨labels, group, run, _, finished⟩ := finishes_inTurn le_rfl (fun _ _ => ⟨rfl, rfl⟩)
    sharedFile_own sharedFile_tested.distinct fun index inside =>
      (sharedFile_tested.runs.orderly sharedFile_tested.generated index inside).2
  have passed := generated_files_validate sharedFile_tested ⟨labels, run⟩
  exact ⟨group, finished, passed.1, passed.2 finished⟩

/-- With all connections up and each client on a server of its own, some run without
faults ends with all clients finished and all checks passed. -/
theorem integration_test_can_pass {cfg : Config} {content : ℕ → Text}
    (tested : Tested cfg content) (three : 3 ≤ cfg.groupSize)
    (processes : ∀ server other, cfg.proposerConnects server other = true ∧
      cfg.acceptorConnects server other = true)
    (own : cfg.OnOwnServers) :
    ∃ labels group, cfg.machine.Run labels group ∧
      (∀ label ∈ labels, label.isFaultless = true) ∧ Finished cfg group ∧
      (∀ server, validateLockFile (serverLog group server) = some true) ∧
      validateClientFile (serverLog group) ((List.range cfg.clientCount).map content)
        (List.range cfg.groupSize) = true := by
  obtain ⟨labels, group, run, faultless, finished⟩ := finishes_inTurn three processes own
    tested.distinct fun index inside => (tested.runs.orderly tested.generated index inside).2
  exact ⟨labels, group, run, faultless, finished, tested.validate_lock ⟨labels, run⟩,
    tested.validate_client ⟨labels, run⟩ finished⟩

/-- The run of the two clients. -/
theorem shared_file_can_pass : ∃ labels group, sharedFile.machine.Run labels group ∧
    (∀ label ∈ labels, label.isFaultless = true) ∧ Finished sharedFile group ∧
      (∀ server, validateLockFile (serverLog group server) = some true) ∧
      validateClientFile (serverLog group) ((List.range 2).map fun _ => makeSimpleFile 2)
        (List.range 3) = true :=
  integration_test_can_pass sharedFile_tested le_rfl (fun _ _ => ⟨rfl, rfl⟩) sharedFile_own

end CSE550.LockFile
