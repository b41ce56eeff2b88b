import CSE550.Paxos.History
import CSE550.Paxos.LockSafety

/-!
Owns the linearization of a run: one log in which every acknowledged command
has the place its acknowledgement names, which puts no command before one that
had been acknowledged when it was sent, and all but the last entry of which a
single lock server could have executed. The last one may be an UNLOCK that its
client should not have sent: a server logs it and fails as it executes it. With
courteous clients the whole log can be executed.
-/

namespace CSE550.Paxos

open CSE550.Lib

/-! ### Places of commands -/

/-- The client's command number `count` stands at the position of the log. -/
structure Placed (cfg : Config) (log : List Entry) (client count position : ℕ) : Prop where
  entry : ∃ command, (cfg.commands client)[count]? = some command ∧
    log[position]? = some (command, cfg.clientId client)
  earlier : (commandsOf (cfg.clientId client) (log.take position)).length = count

section Places

variable {cfg : Config} {log longer : List Entry} {client count position : ℕ}

theorem Placed.inside (placed : Placed cfg log client count position) : position < log.length := by
  obtain ⟨command, _, found⟩ := placed.entry
  exact (List.getElem?_eq_some_iff.mp found).1

theorem Placed.grow (placed : Placed cfg log client count position) (grown : log <+: longer) :
    Placed cfg longer client count position where
  entry := by
    obtain ⟨command, inFile, found⟩ := placed.entry
    obtain ⟨more, rfl⟩ := grown
    exact ⟨command, inFile, by rwa [List.getElem?_append_left placed.inside]⟩
  earlier := by
    obtain ⟨more, rfl⟩ := grown
    rw [List.take_append_of_le_length placed.inside.le]
    exact placed.earlier

/-- A command with enough commands of its client in the older log stands there. -/
theorem Placed.old (placed : Placed cfg longer client count position) (grown : log <+: longer)
    (many : count < (commandsOf (cfg.clientId client) log).length) : position < log.length := by
  by_contra beyond
  obtain ⟨more, rfl⟩ := grown
  have whole := placed.earlier
  rw [List.take_append, List.take_of_length_le (by omega), commandsOf_append,
    List.length_append] at whole
  omega

/-- A command with too few commands of its client in the older log stands behind it. -/
theorem Placed.new (placed : Placed cfg longer client count position) (grown : log <+: longer)
    (few : (commandsOf (cfg.clientId client) log).length ≤ count) : log.length ≤ position := by
  by_contra inside
  obtain ⟨command, _, found⟩ := placed.entry
  obtain ⟨more, rfl⟩ := grown
  rw [List.getElem?_append_left (by omega)] at found
  have one := congrArg List.length (commandsOf_take_succ (cfg.clientId client) found)
  have counted := placed.earlier
  rw [List.take_append_of_le_length (by omega)] at counted
  rw [if_pos rfl, List.length_append, List.length_singleton, counted] at one
  have bound := (commandsOf_take_initial (cfg.clientId client) log (position + 1)).length_le
  omega

end Places

/-! ### What is acknowledged -/

section Acknowledged

variable {cfg : Config} {group next : Group}

/-- An acknowledgement names the place of its command. -/
def AcksPlaced (cfg : Config) (log : List Entry) (group : Group) : Prop :=
  ∀ client < cfg.clientCount, ∀ (count : ℕ) (ack : Message),
    (group.clients client).acks[count]? = some ack →
      ∃ position : ℕ, ack.inst = position ∧ Placed cfg log client count position

theorem ClientProgress.acks_le {log : List Entry} {index : ℕ} {client : Client}
    {proposer : Proposer} (progress : ClientProgress cfg log index client proposer) :
    client.acks.length ≤ (cfg.commands index).length := by
  have sent := progress.sent
  have read := progress.read
  rcases progress.acked with acked | pending
  · omega
  · have unacked := pending.unacked
    omega

/-- The entries of a client its proposer has recorded are its acknowledged commands. -/
theorem ClientProgress.recorded_length {log : List Entry} {index : ℕ} {client : Client}
    {proposer : Proposer} (progress : ClientProgress cfg log index client proposer) :
    (commandsOf (cfg.clientId index) (log.take proposer.logfile.length)).length =
      client.acks.length := by
  rw [progress.recorded, List.length_take]
  exact min_eq_left progress.acks_le

/-- A step acknowledges at most the command its proposer has resolved as its own. -/
theorem step_acks {label : Label} (taken : group.step cfg label = some next) (client : ℕ) :
    (next.clients client).acks = (group.clients client).acks ∨ ∃ server msg,
      group.proposerRuns cfg server ∧ (group.proposers server).client = some client ∧
      (group.proposers server).state = .ACCEPTING ∧ (group.proposers server).ownLearnt ∧
      (next.clients client).acks = (group.clients client).acks ++
        [(group.proposers server).clientAckMsg server msg] := by
  cases transition_of_step taken with
  | network next move => exact .inl (by rw [move.clients])
  | clientSend | clientRecv | acceptClient | closeClient | recvClient =>
      exact .inl (read_update Client.acks (by rfl) client)
  | idleExit | acceptor => exact .inl rfl
  | proposer server queue taken result runs fewer queued move =>
      rw [Group.commit_clients]
      split
      · rename_i serving
        obtain ⟨_, _, effect⟩ := move.client
        cases effect with
        | quiet _ _ none => exact .inl (by simp [none])
        | resolved msg line isTaken waits ack logfile resolutions kind =>
            rcases kind with ⟨own, _, acks⟩ | ⟨_, _, none⟩
            · exact .inr ⟨server, msg, runs, serving, waits, own, by simp [acks]⟩
            · exact .inl (by simp [none])
      · exact .inl rfl

theorem AcksPlaced.keep {ledger : Ledger Entry} {log : List Entry} {label : Label}
    (placed : AcksPlaced cfg ledger.log group) (refines : Refines cfg group ledger)
    (clients : Clients cfg ledger.log group) (grown : ledger.log <+: log)
    (taken : group.step cfg label = some next) : AcksPlaced cfg log next := by
  have old : ∀ client < cfg.clientCount, ∀ (count : ℕ) (ack : Message),
      (group.clients client).acks[count]? = some ack →
        ∃ position : ℕ, ack.inst = position ∧ Placed cfg log client count position := by
    intro client inside count ack found
    obtain ⟨position, inst, place⟩ := placed client inside count ack found
    exact ⟨position, inst, place.grow grown⟩
  intro client inside count ack found
  rcases step_acks taken client with same | ⟨server, msg, runs, serving, waits, own, acks⟩
  · exact old client inside count ack (same ▸ found)
  rw [acks] at found
  rcases getElem?_concat_cases found with ⟨_, older⟩ | ⟨rfl, rfl⟩
  · exact old client inside count ack older
  -- the new acknowledgement names the instance the proposer has just resolved
  have home := (clients.serving server client serving).2
  have progress := clients.progress client inside
  rw [home] at progress
  obtain ⟨index, pending⟩ := clients.busy server (by simp [waits])
  obtain rfl : index = client := Option.some.inj (pending.serving.symm.trans serving)
  obtain ⟨entry, there, learnt⟩ := (refines.replicas server).accepting (.inr waits)
  obtain rfl : entry = (group.proposers server).ownEntry :=
    learnt.unique ((Proposer.ownLearnt_iff _).mp own)
  have count := (refines.replicas server).count runs.2.2
  refine ⟨(group.proposers server).inst, rfl, @Placed.grow cfg ledger.log log _ _ _ ⟨?_, ?_⟩ grown⟩
  · refine ⟨_, pending.command, ?_⟩
    rw [there, Proposer.ownEntry, pending.clientId]
  · rw [← count]
    exact progress.recorded_length

end Acknowledged

/-! ### The linearization -/

/-- The log is a linearization of the run. -/
structure Linearization (cfg : Config) (labels : List Label) (group : Group) (log : List Entry) :
    Prop where
  /-- A lock server can execute the entries before each one, and the resource of a
  LOCK is then free. -/
  legal : ∀ position entry, log[position]? = some entry → ∃ lockSet,
    lockService.replay (log.take position) = some lockSet ∧ lockService.admits lockSet entry
  /-- When the clients lock what they do not hold and unlock what they hold, a lock server
  can execute the whole log. -/
  whole : cfg.machine.Meets (SendsCourteously cfg) cfg.initial labels →
    (lockService.replay log).isSome = true
  /-- Each entry is a command its client has sent, in the order of the client. -/
  commands : ∀ client < cfg.clientCount, commandsOf (cfg.clientId client) log <+:
    (cfg.commands client).take (group.clients client).sent
  known : ∀ entry ∈ log, ∃ client < cfg.clientCount, entry.2 = cfg.clientId client
  acknowledged : AcksPlaced cfg log group
  /-- A command sent after another one was acknowledged stands behind it. -/
  realTime : ∀ before middle, before <+: labels → cfg.machine.Run before middle →
    ∀ first < cfg.clientCount, ∀ second < cfg.clientCount, ∀ done count position later : ℕ,
      done < (middle.clients first).acks.length → (middle.clients second).sent ≤ count →
      Placed cfg log first done position → Placed cfg log second count later → position < later
  /-- Every server has recorded a beginning of the log and holds the locks it leaves. -/
  replicas : ∀ server, (group.proposers server).log <+: log.map Entry.resolution ∧
    lockService.replay (log.take (group.proposers server).inst) =
      some (group.proposers server).lockSet

/-- Every run has a linearization. -/
theorem run_linearizable {cfg : Config} (distinct : cfg.DistinctIds) {labels : List Label}
    {group : Group} (run : cfg.machine.Run labels group) :
    ∃ log, Linearization cfg labels group log := by
  have kept : ∀ group ledger label next final, cfg.Reachable group → Refines cfg group ledger →
      (Clients cfg ledger.log group ∧ AcksPlaced cfg ledger.log group) →
      group.step cfg label = some next → Refines cfg next final →
      Grown cfg group ledger.log final.log →
      Clients cfg final.log next ∧ AcksPlaced cfg final.log next := by
    rintro group ledger label next final reached refines ⟨clients, placed⟩ taken _ grown
    refine ⟨?_, placed.keep refines clients grown.initial taken⟩
    exact (clients.grow distinct refines grown).keep distinct refines grown
      (wire_reachable reached) (replies_reachable reached) (transition_of_step taken)
  obtain ⟨ledger, sound, refines, ⟨clients, placed⟩, moments⟩ := @moments_run cfg group
    (fun group ledger => Clients cfg ledger.log group ∧ AcksPlaced cfg ledger.log group)
    ⟨Clients.initial cfg, by simp [AcksPlaced, Config.initial]⟩ kept labels run
  refine ⟨ledger.log, fun position entry found => sound.admitted position entry found,
    fun meets => replay_of_courteous clients.isCommand
      (courteous_of_polite (polite_run run meets) clients)
      (guarded_of_sound sound clients.isCommand),
    fun client inside => (clients.progress client inside).commandsOf_log, clients.known, placed,
    ?_, fun server => ⟨refines.log_prefix server, (refines.replicas server).lockSet⟩⟩
  intro before middle isPrefix earlier first firstInside second secondInside done count position
    later acked unsent firstPlace secondPlace
  obtain ⟨past, grown, _, past_clients, _⟩ := moments before middle isPrefix earlier
  have firstProgress := past_clients.progress first firstInside
  have recorded := (commandsOf_take_initial (cfg.clientId first) past.log
    (middle.proposers (cfg.clientServer first)).logfile.length).length_le
  rw [firstProgress.recorded_length] at recorded
  have sent := ((past_clients.progress second secondInside).commandsOf_log).length_le
  rw [List.length_take] at sent
  calc position < past.log.length := firstPlace.old grown (by omega)
    _ ≤ later := secondPlace.new grown (by omega)

/-- Client 0 is acknowledged before server 1 learns its command. -/
theorem run_linearizable_learnt :
    ((twoLocks.after learntRun).clients 0).acks.length = 1 ∧
      ∃ log, Linearization twoLocks learntRun (twoLocks.after learntRun) log := by
  refine ⟨by decide, run_linearizable ?_ (Config.run_after (by decide))⟩
  intro first _ second _ same
  exact Int.ofNat_inj.mp same

end CSE550.Paxos
