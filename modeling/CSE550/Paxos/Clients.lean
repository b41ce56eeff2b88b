import CSE550.Paxos.Refinement

/-!
Owns what clients see of the log: for each client, the commands of the log that
carry its id are its acknowledged commands, followed by at most the one its
proposer is working on.

Only a client's own proposer decides its commands, one at a time, and only
after it has recorded the one before; the ids of the clients are distinct.
-/

namespace CSE550.Paxos

open CSE550.Lib

/-- The commands of a log that carry the client id, in order. -/
def commandsOf (clientId : ℤ) (log : List Entry) : List Command :=
  (log.filter fun entry => entry.2 = clientId).map Prod.fst

theorem commandsOf_append (clientId : ℤ) (left right : List Entry) :
    commandsOf clientId (left ++ right) =
      commandsOf clientId left ++ commandsOf clientId right := by
  simp [commandsOf]

theorem commandsOf_take_succ (clientId : ℤ) {log : List Entry} {position : ℕ} {entry : Entry}
    (found : log[position]? = some entry) :
    commandsOf clientId (log.take (position + 1)) = commandsOf clientId (log.take position) ++
      if entry.2 = clientId then [entry.1] else [] := by
  rw [List.take_add_one, found, Option.toList_some, commandsOf_append]
  by_cases own : entry.2 = clientId <;> simp [commandsOf, own]

/-- Client ids are distinct. -/
def Config.DistinctIds (cfg : Config) : Prop :=
  ∀ first < cfg.clientCount, ∀ second < cfg.clientCount,
    cfg.clientId first = cfg.clientId second → first = second

/-- The proposer works on a command of the client it has not acknowledged, or
has ended while it did. -/
structure Pending (cfg : Config) (index : ℕ) (client : Client) (proposer : Proposer) : Prop where
  unacked : client.acks.length + 1 = client.read
  serving : proposer.client = some index
  command : (cfg.commands index)[client.acks.length]? = some proposer.clientCommand
  clientId : proposer.origClientId = cfg.clientId index
  busy : proposer.state ≠ .IDLE ∨ proposer.status ≠ .running

/-- The acknowledgement names an instance its sender has recorded with the command. -/
structure AckRecorded (cfg : Config) (index count : ℕ) (ack : Message) (proposer : Proposer)
    (command : Command) : Prop where
  sender : ack.originId = some (cfg.clientServer index)
  value : ack.value = .command command
  inFile : (cfg.commands index)[count]? = some command
  recorded : ∃ position, ack.inst = (position : ℕ) ∧
    proposer.instanceResolutions.lookup position =
      some (Entry.resolution (command, cfg.clientId index))

/-- The progress of one client with its own proposer. -/
structure ClientProgress (cfg : Config) (log : List Entry) (index : ℕ) (client : Client)
    (proposer : Proposer) : Prop where
  sent : client.sent ≤ (cfg.commands index).length
  read : client.read ≤ client.sent
  got : client.got ≤ client.acks.length
  acked : client.acks.length = client.read ∨ Pending cfg index client proposer
  recorded : commandsOf (cfg.clientId index) (log.take proposer.logfile.length) =
    (cfg.commands index).take client.acks.length
  pending : ∀ position entry, log[position]? = some entry → entry.2 = cfg.clientId index →
    proposer.logfile.length ≤ position → position = proposer.logfile.length ∧
      entry = proposer.ownEntry ∧ Pending cfg index client proposer
  acks : ∀ count ack, client.acks[count]? = some ack →
    ∃ command, AckRecorded cfg index count ack proposer command

/-- The clients of the group against the log. -/
structure Clients (cfg : Config) (log : List Entry) (group : Group) : Prop where
  serving : ∀ server index, (group.proposers server).client = some index →
    index < cfg.clientCount ∧ cfg.clientServer index = server
  busy : ∀ server, (group.proposers server).state ≠ .IDLE →
    ∃ index, Pending cfg index (group.clients index) (group.proposers server)
  progress : ∀ index < cfg.clientCount, ClientProgress cfg log index (group.clients index)
    (group.proposers (cfg.clientServer index))
  known : ∀ entry ∈ log, ∃ index < cfg.clientCount, entry.2 = cfg.clientId index

theorem Clients.initial (cfg : Config) : Clients cfg [] cfg.initial where
  serving := by simp [Config.initial, Config.initialProposer]
  busy := fun _ state => absurd rfl state
  progress := fun _ _ =>
    { sent := Nat.zero_le _
      read := le_rfl
      got := le_rfl
      acked := .inl rfl
      recorded := by simp [commandsOf, Config.initial]
      pending := by simp
      acks := by simp [Config.initial] }
  known := by simp

/-! ### A decision -/

section Grow

variable {cfg : Config} {group : Group} {ledger : Ledger Entry}

/-- Deciding an entry. -/
theorem Clients.grow {log : List Entry} (clients : Clients cfg ledger.log group)
    (distinct : cfg.DistinctIds) (refines : Refines cfg group ledger)
    (grown : Grown cfg group ledger.log log) : Clients cfg log group := by
  cases grown with
  | same => exact clients
  | decided server runs state caughtUp =>
      obtain ⟨decider, pending⟩ := clients.busy server (by simp [state])
      obtain ⟨known, home⟩ := clients.serving server decider pending.serving
      have count := (refines.replicas server).count runs.2.2
      refine ⟨clients.serving, clients.busy, fun index inside => ?_, fun entry member => ?_⟩
      · have progress := clients.progress index inside
        refine { progress with recorded := ?_, pending := ?_ }
        · rw [List.take_append_of_le_length (refines.replicas _).bound]
          exact progress.recorded
        · intro position entry found own beyond
          rcases getElem?_concat_cases found with ⟨_, old⟩ | ⟨here, rfl⟩
          · exact progress.pending position entry old own beyond
          · obtain rfl := distinct decider known index inside (pending.clientId.symm.trans own)
            obtain rfl := home
            exact ⟨by omega, rfl, pending⟩
      · rcases List.mem_append.mp member with old | new
        · exact clients.known entry old
        · obtain rfl := List.mem_singleton.mp new
          exact ⟨decider, known, pending.clientId⟩

theorem Grown.found {log : List Entry} (grown : Grown cfg group ledger.log log) {position : ℕ}
    {entry : Entry} (found : ledger.log[position]? = some entry) : log[position]? = some entry := by
  cases grown with
  | same => exact found
  | decided => exact getElem?_concat found

theorem Refines.grown_replica {log : List Entry} (refines : Refines cfg group ledger)
    (grown : Grown cfg group ledger.log log) (server : ℕ) :
    Replica log (group.proposers server) := by
  cases grown with
  | same => exact refines.replicas server
  | decided => exact (refines.replicas server).grow _

end Grow

/-! ### Moves of a proposer -/

/-- What a move of a proposer means for its client. -/
inductive ClientMove (server : ℕ) (taken : Option Message) (before after : Proposer)
    (acks : List Message) : Prop
  /-- Nothing is recorded, and the proposer goes on with the command or ends. -/
  | quiet (logfile : after.logfile = before.logfile)
      (resolutions : after.instanceResolutions = before.instanceResolutions) (none : acks = [])
      (busy : after.state ≠ .IDLE ∨ after.status ≠ .running)
  | resolved (msg : Message) (line : LogLine) (isTaken : taken = some msg)
      (waits : before.state = .ACCEPTING) (ack : CountedAck before msg)
      (logfile : after.logfile = before.logfile ++ [line])
      (resolutions : after.instanceResolutions =
        before.instanceResolutions.insert before.inst (before.learntCommand, msg.clientId))
      (kind : (before.ownLearnt ∧ after.state = .IDLE ∧ acks = [before.clientAckMsg server msg]) ∨
        (¬ before.ownLearnt ∧ after.state = .READY ∧ acks = []))

/-- The client of a proposer and its command stay. -/
structure SameClient (before after : Proposer) : Prop where
  client : after.client = before.client
  command : after.clientCommand = before.clientCommand
  clientId : after.origClientId = before.origClientId

private theorem resolve_client (proposer : Proposer) (msg : Message) :
    SameClient proposer (proposer.resolve msg) ∧
      (proposer.resolve msg).logfile =
        proposer.logfile ++ [⟨proposer.inst, proposer.learntClient, proposer.learntCommand⟩] ∧
      (proposer.resolve msg).instanceResolutions =
        proposer.instanceResolutions.insert proposer.inst
          (proposer.learntCommand, msg.clientId) := by
  rcases resolve_cases proposer msg with ⟨error, _, same⟩ | ⟨lockSet, _, same⟩ <;> rw [same] <;>
    exact ⟨⟨rfl, rfl, rfl⟩, rfl, rfl⟩

theorem ProposerMove.client {groupSize server : ℕ} {proposer : Proposer} {taken : Option Message}
    {result : Proposer × Output} (move : ProposerMove groupSize server proposer taken result) :
    proposer.state ≠ .IDLE ∧ SameClient proposer result.1 ∧
      ClientMove server taken proposer result.1 result.2.acks := by
  cases move with
  | ready fails state => exact ⟨by simp [state], ⟨rfl, rfl, rfl⟩, .quiet rfl rfl rfl (.inl nofun)⟩
  | accept fails state => exact ⟨by simp [state], ⟨rfl, rfl, rfl⟩, .quiet rfl rfl rfl (.inl nofun)⟩
  | acceptRaised state =>
      exact ⟨by simp [state], ⟨rfl, rfl, rfl⟩, .quiet rfl rfl rfl (.inr nofun)⟩
  | proposingTimeout state | acceptingTimeout state =>
      exact ⟨by simp [state], ⟨rfl, rfl, rfl⟩, .quiet rfl rfl rfl (.inl nofun)⟩
  | proposing address msg state after outcome =>
      have busy : proposer.state ≠ .IDLE := by simp [state]
      refine ⟨busy, ?_⟩
      cases outcome with
      | refused | exited => exact ⟨⟨rfl, rfl, rfl⟩, .quiet rfl rfl rfl (.inl nofun)⟩
      | unchanged | passed | raised | counted =>
          exact ⟨⟨rfl, rfl, rfl⟩, .quiet rfl rfl rfl (.inl busy)⟩
      | blocked | won =>
          obtain ⟨value, clientId, same⟩ :=
            learn_eq ((proposer.remember msg).countReply address msg)
          rw [same]
          exact ⟨⟨rfl, rfl, rfl⟩, .quiet rfl rfl rfl (.inl nofun)⟩
  | accepting msg state result outcome =>
      have busy : proposer.state ≠ .IDLE := by simp [state]
      refine ⟨busy, ?_⟩
      cases outcome with
      | unchanged | passed | exited | raisedOther | counted =>
          exact ⟨⟨rfl, rfl, rfl⟩, .quiet rfl rfl rfl (.inl busy)⟩
      | raisedLater later changed same =>
          rcases same with rfl | rfl <;>
            exact ⟨⟨rfl, rfl, rfl⟩, .quiet rfl rfl rfl (.inr nofun)⟩
      | lost => exact ⟨⟨rfl, rfl, rfl⟩, .quiet rfl rfl rfl (.inr nofun)⟩
      | own ack many own present =>
          obtain ⟨same, logfile, resolutions⟩ :=
            resolve_client (proposer.won groupSize msg .IDLE) msg
          exact ⟨⟨same.client, same.command, same.clientId⟩, .resolved msg _ rfl state ack logfile
            resolutions (.inl ⟨own, resolve_state _ msg, rfl⟩)⟩
      | other ack many notOwn =>
          obtain ⟨same, logfile, resolutions⟩ :=
            resolve_client (proposer.won groupSize msg .READY) msg
          exact ⟨⟨same.client, same.command, same.clientId⟩, .resolved msg _ rfl state ack logfile
            resolutions (.inr ⟨notOwn, resolve_state _ msg, rfl⟩)⟩

/-! ### One step -/

section Keep

variable {cfg : Config} {group next : Group} {label : Label} {log : List Entry}

theorem Pending.move {index : ℕ} {client : Client} {before after : Proposer}
    (pending : Pending cfg index client before) (same : SameClient before after)
    (busy : after.state ≠ .IDLE ∨ after.status ≠ .running) : Pending cfg index client after where
  unacked := pending.unacked
  serving := same.client.trans pending.serving
  command := same.command ▸ pending.command
  clientId := same.clientId.trans pending.clientId
  busy := busy

/-- A step of the client that reads nothing and acknowledges nothing. -/
theorem Pending.talk {index : ℕ} {client changed : Client} {proposer : Proposer}
    (pending : Pending cfg index client proposer) (acks : changed.acks = client.acks)
    (read : changed.read = client.read) : Pending cfg index changed proposer where
  unacked := by rw [acks, read]; exact pending.unacked
  serving := pending.serving
  command := by rw [acks]; exact pending.command
  clientId := pending.clientId
  busy := pending.busy

/-- The proposer moves without recording anything. -/
theorem ClientProgress.quiet {index : ℕ} {client : Client} {before after : Proposer}
    (progress : ClientProgress cfg log index client before) (same : SameClient before after)
    (logfile : after.logfile = before.logfile)
    (resolutions : after.instanceResolutions = before.instanceResolutions)
    (busy : after.state ≠ .IDLE ∨ after.status ≠ .running) :
    ClientProgress cfg log index client after where
  sent := progress.sent
  read := progress.read
  got := progress.got
  acked := progress.acked.imp_right fun pending => pending.move same busy
  recorded := by rw [logfile]; exact progress.recorded
  pending := by
    rw [logfile]
    intro position entry found own beyond
    obtain ⟨here, isOwn, pending⟩ := progress.pending position entry found own beyond
    refine ⟨here, ?_, pending.move same busy⟩
    rw [isOwn, Proposer.ownEntry, Proposer.ownEntry, same.command, same.clientId]
  acks := fun count ack found =>
    have ⟨command, sender, value, inFile, position, inst, recorded⟩ :=
      progress.acks count ack found
    ⟨command, sender, value, inFile, position, inst, resolutions ▸ recorded⟩

/-- The proposer records the entry of its instance, which is its own command
exactly when it acknowledges it. -/
theorem ClientProgress.resolved {index : ℕ} {client : Client} {before after : Proposer}
    {msg : Message} {line : LogLine} {entry : Entry} {acks : List Message}
    (progress : ClientProgress cfg log index client before) (same : SameClient before after)
    (replica : Replica log before) (running : before.status = .running)
    (found : log[before.inst]? = some entry) (learnt : before.Learnt entry)
    (contents : msg.clientId = some entry.2) (logfile : after.logfile = before.logfile ++ [line])
    (resolutions : after.instanceResolutions =
      before.instanceResolutions.insert before.inst (before.learntCommand, msg.clientId))
    (kind : (entry = before.ownEntry ∧ (entry.2 = cfg.clientId index →
        acks = [before.clientAckMsg (cfg.clientServer index) msg] ∧
          Pending cfg index client before) ∧ (entry.2 ≠ cfg.clientId index → acks = [] ∧
          client.acks.length = client.read)) ∨
      (entry ≠ before.ownEntry ∧ after.state ≠ .IDLE ∧ acks = [])) :
    ClientProgress cfg log index { client with acks := client.acks ++ acks } after := by
  have count := replica.count running
  have longer : after.logfile.length = before.inst + 1 := by
    rw [logfile, List.length_append, List.length_singleton, count]
  have value : (before.learntCommand, msg.clientId) = Entry.resolution entry := by
    rw [contents, (Prod.mk.inj learnt).1]
    rfl
  have here : after.instanceResolutions.lookup before.inst = some (Entry.resolution entry) := by
    rw [resolutions, AList.lookup_insert, value]
  have older : ∀ position found, before.instanceResolutions.lookup position = some found →
      after.instanceResolutions.lookup position = some found := by
    intro position found old
    have different : position ≠ before.inst := by
      rintro rfl
      rw [replica.resolutions, List.getElem?_take, if_neg (by omega)] at old
      cases old
    rw [resolutions, AList.lookup_insert_ne different, old]
  have recorded := commandsOf_take_succ (cfg.clientId index) found
  rw [← count, progress.recorded, count, ← longer] at recorded
  have oldAcks : ∀ number ack, client.acks[number]? = some ack →
      ∃ command, AckRecorded cfg index number ack after command := by
    intro number ack there
    obtain ⟨command, sender, value, inFile, position, inst, old⟩ := progress.acks number ack there
    exact ⟨command, sender, value, inFile, position, inst, older _ _ old⟩
  have noneLeft : ∀ position other, log[position]? = some other →
      other.2 = cfg.clientId index → ¬ after.logfile.length ≤ position := by
    intro position other there own beyond
    obtain ⟨here, _⟩ := progress.pending position other there own (by omega)
    omega
  rcases kind with ⟨isOwn, ownClient, otherClient⟩ | ⟨notOwn, busy, rfl⟩
  · by_cases own : entry.2 = cfg.clientId index
    · obtain ⟨rfl, pending⟩ := ownClient own
      have command : (cfg.commands index)[client.acks.length]? = some entry.1 := by
        rw [isOwn]
        exact pending.command
      refine ⟨progress.sent, progress.read, ?_, .inl ?_, ?_,
        fun position other there own beyond => absurd beyond (noneLeft position other there own),
        ?_⟩
      · simpa using Nat.le_succ_of_le progress.got
      · simpa using pending.unacked
      · rw [recorded, if_pos own, List.length_append, List.length_singleton, List.take_add_one,
          command, Option.toList_some]
      · intro number ack there
        rcases getElem?_concat_cases there with ⟨_, old⟩ | ⟨rfl, rfl⟩
        · exact oldAcks number ack old
        · refine ⟨entry.1, rfl, by rw [isOwn]; rfl, command, before.inst, rfl, ?_⟩
          rw [here, ← own]
    · obtain ⟨rfl, acked⟩ := otherClient own
      rw [List.append_nil]
      refine ⟨progress.sent, progress.read, progress.got, .inl acked, ?_,
        fun position other there own beyond => absurd beyond (noneLeft position other there own),
        oldAcks⟩
      rw [recorded, if_neg own, List.append_nil]
  · have foreign : entry.2 ≠ cfg.clientId index := by
      intro own
      obtain ⟨_, isOwn, _⟩ := progress.pending before.inst entry found own (by omega)
      exact notOwn isOwn
    rw [List.append_nil]
    refine ⟨progress.sent, progress.read, progress.got, ?_, ?_,
      fun position other there own beyond => absurd beyond (noneLeft position other there own),
      oldAcks⟩
    · exact progress.acked.imp_right fun pending => pending.move same (.inl busy)
    · rw [recorded, if_neg foreign, List.append_nil]

/-- A proposer that waits for its client has nothing pending. -/
theorem Pending.not_idle {index : ℕ} {client : Client} {proposer : Proposer}
    (pending : Pending cfg index client proposer) (idle : proposer.state = .IDLE) :
    proposer.status ≠ .running := by
  rcases pending.busy with busy | ended
  · exact absurd idle busy
  · exact ended

/-- The proposer waits for its client, and at most reads its next command. -/
theorem ClientProgress.idle {index : ℕ} {client changed : Client} {before after : Proposer}
    (progress : ClientProgress cfg log index client before) (idle : before.state = .IDLE)
    (running : before.status = .running) (logfile : after.logfile = before.logfile)
    (resolutions : after.instanceResolutions = before.instanceResolutions)
    (acks : changed.acks = client.acks) (sent : changed.sent = client.sent)
    (got : changed.got = client.got) (read : changed.read = client.read ∨
      (changed.read ≤ client.sent ∧ Pending cfg index changed after)) :
    ClientProgress cfg log index changed after where
  sent := sent ▸ progress.sent
  read := by
    rcases read with same | ⟨bound, _⟩
    · rw [same, sent]
      exact progress.read
    · exact sent ▸ bound
  got := by rw [got, acks]; exact progress.got
  acked := by
    rcases progress.acked with acked | pending
    · refine read.imp (fun same => ?_) And.right
      rw [acks, same, acked]
    · exact absurd running (pending.not_idle idle)
  recorded := by rw [logfile, acks]; exact progress.recorded
  pending := by
    intro position entry found own beyond
    obtain ⟨_, _, pending⟩ := progress.pending position entry found own (logfile ▸ beyond)
    exact absurd running (pending.not_idle idle)
  acks := fun count ack found =>
    have ⟨command, sender, value, inFile, position, inst, recorded⟩ :=
      progress.acks count ack (acks ▸ found)
    ⟨command, sender, value, inFile, position, inst, resolutions ▸ recorded⟩

/-- A step of one proposer and its clients. -/
theorem Clients.local (clients : Clients cfg log group) {server : ℕ} {after : Proposer}
    (proposers : next.proposers = Function.update group.proposers server after)
    (serving : ∀ index, after.client = some index →
      index < cfg.clientCount ∧ cfg.clientServer index = server)
    (busy : after.state ≠ .IDLE → ∃ index, Pending cfg index (next.clients index) after)
    (elsewhere : ∀ index, cfg.clientServer index ≠ server →
      next.clients index = group.clients index)
    (home : ∀ index < cfg.clientCount, cfg.clientServer index = server →
      ClientProgress cfg log index (next.clients index) after) : Clients cfg log next where
  serving := by
    intro other index
    rw [proposers]
    by_cases same : other = server
    · subst same
      rw [Function.update_self]
      exact serving index
    · rw [Function.update_of_ne same]
      exact clients.serving other index
  busy := by
    intro other
    rw [proposers]
    by_cases same : other = server
    · subst same
      rw [Function.update_self]
      exact busy
    · rw [Function.update_of_ne same]
      intro state
      obtain ⟨index, pending⟩ := clients.busy other state
      have away := (clients.serving other index pending.serving).2
      exact ⟨index, by rw [elsewhere index (away ▸ same)]; exact pending⟩
  progress := by
    intro index inside
    rw [proposers]
    by_cases same : cfg.clientServer index = server
    · rw [same, Function.update_self]
      exact home index inside same
    · rw [Function.update_of_ne same, elsewhere index same]
      exact clients.progress index inside
  known := clients.known

/-- A client sends a command or receives an acknowledgement. -/
theorem Clients.talk (clients : Clients cfg log group) {index : ℕ} {changed : Client}
    (acks : changed.acks = (group.clients index).acks)
    (read : changed.read = (group.clients index).read)
    (sent : changed.sent ≤ (cfg.commands index).length) (got : changed.got ≤ changed.acks.length)
    (more : (group.clients index).sent ≤ changed.sent) :
    Clients cfg log (group.setClient index changed) := by
  have self : (group.setClient index changed).clients index = changed := by
    simp
  have others {other : ℕ} (different : other ≠ index) :
      (group.setClient index changed).clients other = group.clients other := by
    simp [different]
  refine ⟨clients.serving, fun server state => ?_, fun other inside => ?_, clients.known⟩
  · obtain ⟨client, pending⟩ := clients.busy server state
    refine ⟨client, ?_⟩
    by_cases same : client = index
    · subst same
      rw [self]
      exact pending.talk acks read
    · rw [others same]
      exact pending
  · have progress := clients.progress other inside
    by_cases same : other = index
    · subst same
      rw [self]
      refine ⟨sent, read ▸ progress.read.trans more, got, ?_, acks ▸ progress.recorded, ?_,
        acks ▸ progress.acks⟩
      · rw [acks, read]
        exact progress.acked.imp_right fun pending => pending.talk acks read
      · intro position entry found own beyond
        obtain ⟨here, isOwn, pending⟩ := progress.pending position entry found own beyond
        exact ⟨here, isOwn, pending.talk acks read⟩
    · rw [others same]
      exact progress

/-- An idle proposer takes up a client, or lets it go. -/
theorem Clients.reconnect (clients : Clients cfg log group) {server index : ℕ}
    {connection : Connection} {client : Option ℕ} (runs : group.proposerRuns cfg server)
    (idle : (group.proposers server).state = .IDLE) (target : cfg.clientServer index = server)
    (serving : ∀ served, client = some served →
      served < cfg.clientCount ∧ cfg.clientServer served = server) :
    Clients cfg log ((group.setClient index
      { group.clients index with connection := connection }).setProposer server
        { group.proposers server with client := client }) := by
  refine clients.local rfl serving (fun state => absurd idle state) ?_ ?_
  · intro other away
    have different : other ≠ index := fun same => away (same ▸ target)
    simp [different]
  · intro other inside same
    have progress := clients.progress other inside
    rw [same] at progress
    refine progress.idle idle runs.2.2 rfl rfl ?_ ?_ ?_ (.inl ?_) <;>
      by_cases equal : other = index <;>
        simp [equal]

/-- An idle proposer reads the next command of its client. -/
theorem Clients.takeCommand (clients : Clients cfg log group) {server index : ℕ}
    {command : Command} (runs : group.proposerRuns cfg server)
    (idle : (group.proposers server).state = .IDLE)
    (served : (group.proposers server).client = some index)
    (unread : (group.clients index).read < (group.clients index).sent)
    (following : (cfg.commands index)[(group.clients index).read]? = some command) :
    Clients cfg log ((group.setClient index
      { group.clients index with read := (group.clients index).read + 1 }).setProposer server
        ((group.proposers server).receiveCommand command (cfg.clientId index))) := by
  obtain ⟨known, target⟩ := clients.serving server index served
  have own := clients.progress index known
  rw [target] at own
  have acked : (group.clients index).acks.length = (group.clients index).read := by
    rcases own.acked with acked | pending
    · exact acked
    · exact absurd runs.2.2 (pending.not_idle idle)
  have pending : Pending cfg index
      { group.clients index with read := (group.clients index).read + 1 }
      ((group.proposers server).receiveCommand command (cfg.clientId index)) :=
    ⟨by rw [acked], served, by rw [acked]; exact following, rfl,
      .inl fun idle => by cases idle⟩
  refine clients.local rfl (clients.serving server) (fun _ => ⟨index, ?_⟩) ?_ ?_
  · simpa using pending
  · intro other away
    have different : other ≠ index := fun same => away (same ▸ target)
    simp [different]
  · intro other inside same
    have progress := clients.progress other inside
    rw [same] at progress
    by_cases equal : other = index
    · subst equal
      refine progress.idle idle runs.2.2 rfl rfl ?_ ?_ ?_ (.inr ⟨?_, ?_⟩)
      · simp
      · simp
      · simp
      · simpa using Nat.succ_le_of_lt unread
      · simpa using pending
    · refine progress.idle idle runs.2.2 rfl rfl ?_ ?_ ?_ (.inl ?_) <;>
        simp [equal]

/-- A busy proposer moves; an acknowledgement goes to the client it serves. -/
theorem Clients.proposerMoved {ledger : Ledger Entry} (clients : Clients cfg log group)
    (distinct : cfg.DistinctIds) (refines : Refines cfg group ledger)
    (grown : Grown cfg group ledger.log log) (wire : Wire cfg group) (replies : Replies cfg group)
    {server : ℕ} {queue : List Message} {taken : Option Message} {result : Proposer × Output}
    (runs : group.proposerRuns cfg server)
    (queued : ∀ msg ∈ taken, msg ∈ group.proposerQueue server)
    (move : ProposerMove cfg.groupSize server (group.proposers server) taken result) :
    Clients cfg log ((group.setProposerQueue server queue).commit server result) := by
  obtain ⟨busy, same, effect⟩ := move.client
  obtain ⟨served, pending⟩ := clients.busy server busy
  obtain ⟨known, target⟩ := clients.serving server served pending.serving
  have others {other : ℕ} (different : other ≠ served) :
      ((group.setProposerQueue server queue).commit server result).clients other =
        group.clients other := by
    rw [Group.commit_clients]
    simp [pending.serving, Ne.symm different]
  have self : ((group.setProposerQueue server queue).commit server result).clients served =
      { group.clients served with
        acks := (group.clients served).acks ++ result.2.acks } := by
    rw [Group.commit_clients]
    simp [pending.serving]
  refine clients.local (by simp)
    (fun index own => clients.serving server index (same.client ▸ own)) ?_
    (fun other away => others fun equal => away (equal ▸ target)) ?_
  · intro state
    refine ⟨served, ?_⟩
    rw [self]
    cases effect with
    | quiet logfile resolutions none =>
        rw [none, List.append_nil]
        exact pending.move same (.inl state)
    | resolved msg line isTaken waits ack logfile resolutions kind =>
        rcases kind with ⟨_, idle, _⟩ | ⟨_, _, none⟩
        · exact absurd idle state
        · rw [none, List.append_nil]
          exact pending.move same (.inl state)
  · intro other inside home
    have progress := clients.progress other inside
    rw [home] at progress
    cases effect with
    | quiet logfile resolutions none stays =>
        have unchanged : ((group.setProposerQueue server queue).commit server
            result).clients other = group.clients other := by
          by_cases equal : other = served
          · subst equal
            rw [self, none, List.append_nil]
          · exact others equal
        rw [unchanged]
        exact progress.quiet same logfile resolutions stays
    | resolved msg line isTaken waits ack logfile resolutions kind =>
        obtain ⟨entry, found, learnt⟩ := (refines.replicas server).accepting (.inr waits)
        have contents := refines.ack_client wire replies (queued msg isTaken) ack found
        have moved : ((group.setProposerQueue server queue).commit server
            result).clients other = { group.clients other with
              acks := (group.clients other).acks ++
                if other = served then result.2.acks else [] } := by
          by_cases equal : other = served
          · rw [if_pos equal, equal, self]
          · rw [if_neg equal, List.append_nil, others equal]
        rw [moved]
        refine progress.resolved same (refines.grown_replica grown server) runs.2.2
          (grown.found found) learnt contents logfile resolutions ?_
        rcases kind with ⟨isOwn, _, acks⟩ | ⟨notOwn, ready, none⟩
        · left
          obtain rfl : entry = (group.proposers server).ownEntry :=
            learnt.unique ((Proposer.ownLearnt_iff _).mp isOwn)
          refine ⟨rfl, fun owner => ?_, fun stranger => ?_⟩
          · obtain rfl := distinct served known other inside
              (pending.clientId.symm.trans owner)
            rw [if_pos rfl, target]
            exact ⟨acks, pending⟩
          · have away : other ≠ served := fun equal => stranger (equal ▸ pending.clientId)
            rw [if_neg away]
            refine ⟨rfl, progress.acked.resolve_right fun waiting => away ?_⟩
            exact Option.some.inj (waiting.serving.symm.trans pending.serving)
        · right
          refine ⟨fun isOwn => notOwn ((Proposer.ownLearnt_iff _).mpr (isOwn ▸ learnt)), ?_, ?_⟩
          · simp [ready]
          · rw [none, ite_self]

/-- One step of the group, after the decision it makes. -/
theorem Clients.keep {ledger : Ledger Entry} (clients : Clients cfg log group)
    (distinct : cfg.DistinctIds) (refines : Refines cfg group ledger)
    (grown : Grown cfg group ledger.log log) (wire : Wire cfg group) (replies : Replies cfg group)
    (transition : Transition cfg group label next) : Clients cfg log next := by
  cases transition with
  | network next move =>
      exact ⟨by rw [move.proposers]; exact clients.serving,
        by rw [move.proposers, move.clients]; exact clients.busy,
        by rw [move.proposers, move.clients]; exact clients.progress, clients.known⟩
  | acceptor => exact ⟨clients.serving, clients.busy, clients.progress, clients.known⟩
  | clientSend index known ready more =>
      exact clients.talk rfl rfl more (clients.progress index known).got (Nat.le_succ _)
  | clientRecv index known more =>
      exact clients.talk rfl rfl (clients.progress index known).sent more le_rfl
  | acceptClient server index runs idle free known target waits =>
      refine clients.reconnect runs idle target fun other served => ?_
      obtain rfl := Option.some.inj served
      exact ⟨known, target⟩
  | closeClient server index runs idle served =>
      exact clients.reconnect runs idle (clients.serving server index served).2
        fun _ none => by cases none
  | recvClient server index command runs idle served unread following =>
      exact clients.takeCommand runs idle served unread following
  | idleExit server msg rest runs idle =>
      refine clients.local rfl (clients.serving server) (fun state => absurd idle state)
        (fun _ _ => rfl) fun other inside same => ?_
      have progress := clients.progress other inside
      rw [same] at progress
      exact progress.idle idle runs.2.2 rfl rfl rfl rfl rfl (.inl rfl)
  | proposer server queue taken result runs fewer queued move =>
      exact clients.proposerMoved distinct refines grown wire replies runs queued move

end Keep

section Reachable

variable {cfg : Config} {group : Group}

theorem clients_reachable (distinct : cfg.DistinctIds) (reached : cfg.Reachable group) :
    ∃ ledger, Ledger.Sound lockService ledger ∧ Refines cfg group ledger ∧
      Clients cfg ledger.log group := by
  obtain ⟨labels, run⟩ := reached
  have kept : ∀ group ledger label next final, cfg.Reachable group → Refines cfg group ledger →
      Clients cfg ledger.log group → group.step cfg label = some next → Refines cfg next final →
      Grown cfg group ledger.log final.log → Clients cfg final.log next := by
    intro group ledger label next final earlier refines clients taken _ grown
    exact (clients.grow distinct refines grown).keep distinct refines grown
      (wire_reachable earlier) (replies_reachable earlier) (transition_of_step taken)
  have simulated : ∃ actions ledger, (Ledger.machine lockService).Run actions ledger ∧
      Refines cfg group ledger ∧ Clients cfg ledger.log group :=
    refines_run (Clients.initial cfg) kept run
  obtain ⟨actions, ledger, ledgerRun, refines, clients⟩ := simulated
  exact ⟨ledger, Ledger.sound_reachable ⟨actions, ledgerRun⟩, refines, clients⟩

/-- The commands of a client in the whole log are the first ones it has sent. -/
theorem ClientProgress.commandsOf_log {log : List Entry} {index : ℕ} {client : Client}
    {proposer : Proposer} (progress : ClientProgress cfg log index client proposer) :
    commandsOf (cfg.clientId index) log <+: (cfg.commands index).take client.sent := by
  set count := proposer.logfile.length with isCount
  have beyond : commandsOf (cfg.clientId index) (log.drop (count + 1)) = [] := by
    rw [commandsOf, List.map_eq_nil_iff, List.filter_eq_nil_iff]
    intro entry member own
    obtain ⟨position, found⟩ := List.mem_iff_getElem?.mp member
    rw [List.getElem?_drop] at found
    have later := (progress.pending _ entry found (of_decide_eq_true own) (by omega)).1
    omega
  have split : commandsOf (cfg.clientId index) log =
      commandsOf (cfg.clientId index) (log.take (count + 1)) := by
    calc commandsOf (cfg.clientId index) log
        = commandsOf (cfg.clientId index) (log.take (count + 1) ++ log.drop (count + 1)) := by
          rw [List.take_append_drop]
      _ = commandsOf (cfg.clientId index) (log.take (count + 1)) := by
          rw [commandsOf_append, beyond, List.append_nil]
  have unread : client.acks.length ≤ client.read := by
    rcases progress.acked with acked | pending
    · exact acked.le
    · have unacked := pending.unacked
      omega
  have bound := unread.trans progress.read
  have recorded := progress.recorded
  rw [← isCount] at recorded
  rw [split]
  cases found : log[count]? with
  | none =>
      rw [List.take_add_one, found, Option.toList_none, List.append_nil, recorded]
      exact List.take_prefix_take_left bound
  | some entry =>
      rw [commandsOf_take_succ _ found, recorded]
      by_cases own : entry.2 = cfg.clientId index
      · obtain ⟨_, isOwn, pending⟩ := progress.pending count entry found own le_rfl
        have command : (cfg.commands index)[client.acks.length]? = some entry.1 := by
          rw [isOwn]
          exact pending.command
        rw [if_pos own, ← Option.toList_some, ← command, ← List.take_add_one]
        exact List.take_prefix_take_left (by have := pending.unacked; have := progress.read; omega)
      · rw [if_neg own, List.append_nil]
        exact List.take_prefix_take_left bound

theorem commandsOf_take_initial (clientId : ℤ) (log : List Entry) (count : ℕ) :
    commandsOf clientId (log.take count) <+: commandsOf clientId log := by
  refine ⟨commandsOf clientId (log.drop count), ?_⟩
  rw [← commandsOf_append, List.take_append_drop]

/-- In a proposer's log, the entries with a client id. -/
theorem Replica.commands_log {log : List Entry} {proposer : Proposer}
    (replica : Replica log proposer) (clientId : ℤ) :
    (proposer.log.filter fun value => value.2 = some clientId).map Prod.fst =
      (commandsOf clientId (log.take proposer.logfile.length)).map Value.command := by
  rw [replica.log_eq, List.filter_map, List.map_map, commandsOf, List.map_map]
  have sameFilter : ((fun value : Value × Option ℤ => decide (value.2 = some clientId)) ∘
      Entry.resolution) = fun entry : Entry => decide (entry.2 = clientId) := by
    funext entry
    simp [Entry.resolution]
  rw [sameFilter]
  rfl

/-- The log of each proposer against the commands the clients have sent. -/
structure ResolvedInOrder (cfg : Config) (group : Group) : Prop where
  /-- The entries of a client are the first commands it has sent. -/
  once : ∀ server, ∀ index < cfg.clientCount,
    ((group.proposers server).log.filter fun value =>
        value.2 = some (cfg.clientId index)).map Prod.fst <+:
      ((cfg.commands index).take (group.clients index).sent).map Value.command
  /-- Every entry is a command of a client. -/
  known : ∀ server, ∀ value ∈ (group.proposers server).log,
    ∃ index < cfg.clientCount, value.2 = some (cfg.clientId index)
  /-- The sender of an acknowledgement has recorded the command it acknowledges
  at the instance it names. -/
  acked : ∀ index < cfg.clientCount, ∀ (count : ℕ) (ack : Message),
    (group.clients index).acks[count]? = some ack → ∃ server command,
      ack.originId = some server ∧ (cfg.commands index)[count]? = some command ∧
      ∃ position : ℕ, ack.inst = (position : ℕ) ∧
        (group.proposers server).instanceResolutions.lookup position =
          some (.command command, some (cfg.clientId index))

/-- Commands are resolved exactly once and in the order of their client. -/
theorem commands_resolved_in_order (distinct : cfg.DistinctIds) (reached : cfg.Reachable group) :
    ResolvedInOrder cfg group := by
  obtain ⟨ledger, _, refines, clients⟩ := clients_reachable distinct reached
  refine ⟨fun server index inside => ?_, fun server value member => ?_,
    fun index inside count ack found => ?_⟩
  · rw [(refines.replicas server).commands_log]
    exact ((commandsOf_take_initial _ _ _).trans
      (clients.progress index inside).commandsOf_log).map Value.command
  · rw [(refines.replicas server).log_eq] at member
    obtain ⟨entry, inLog, rfl⟩ := List.mem_map.mp member
    obtain ⟨index, inside, same⟩ := clients.known entry (List.mem_of_mem_take inLog)
    exact ⟨index, inside, congrArg some same⟩
  · obtain ⟨command, sender, _, inFile, recorded⟩ :=
      (clients.progress index inside).acks count ack found
    exact ⟨cfg.clientServer index, command, sender, inFile, recorded⟩

/-- Server 1 has recorded the command of client 0, who was acknowledged, and not
yet the command of client 1. -/
theorem commands_resolved_learnt :
    ((twoLocks.after learntRun).clients 0).acks.length = 1 ∧
      ((twoLocks.after learntRun).proposers 1).log = [Entry.resolution (⟨.LOCK, 7⟩, 0)] ∧
        ResolvedInOrder twoLocks (twoLocks.after learntRun) := by
  refine ⟨by decide, by decide, commands_resolved_in_order ?_ (Config.reachable_after _ _)⟩
  intro first _ second _ same
  exact Int.ofNat_inj.mp same

end Reachable

end CSE550.Paxos
