import CSE550.Paxos.Delivery
import CSE550.Paxos.Duplication
import CSE550.Paxos.Quorums

/-!
Owns the continuations of one proposer that has a client command, as far as
they need no message: how it comes back to READY, raises its number, asks for
promises and proposes, when no write fails.

Does not own what the proposer and the acceptors make of their messages.
-/

namespace CSE550.Paxos

open CSE550.Lib

/-- Steps in which no write fails and no message is lost or copied. Only servers
that have not stopped take them. -/
def Label.isProgress : Label → Bool
  | .send _ fails => fails = []
  | .get _ _ clientGone => !clientGone
  | .timeout _ | .acceptClient _ _ | .recvClient _ => true
  | .acceptor _ delivered => delivered
  | .connection _ .keep => true
  | _ => false

/-- The group can go on to the other state. -/
abbrev Config.Continues (cfg : Config) (group final : Group) : Prop :=
  cfg.machine.Leads (·.isProgress = true) group final

/-! ### What a continuation leaves alone -/

/-- The proposer's instance, command, locks, connections, status and resolutions
stay, and it stays busy and unblocked. -/
structure SameTask (before after : Proposer) : Prop where
  inst : after.inst = before.inst
  ownEntry : after.ownEntry = before.ownEntry
  lockSet : after.lockSet = before.lockSet
  connections : after.serverConnections = before.serverConnections
  status : after.status = before.status
  resolutions : after.instanceResolutions = before.instanceResolutions
  busy : before.state ≠ .IDLE → after.state ≠ .IDLE
  unblocked : ¬ before.blocked → ¬ after.blocked

theorem SameTask.refl (proposer : Proposer) : SameTask proposer proposer :=
  ⟨rfl, rfl, rfl, rfl, rfl, rfl, id, id⟩

theorem SameTask.trans {first second third : Proposer} (left : SameTask first second)
    (right : SameTask second third) : SameTask first third where
  inst := right.inst.trans left.inst
  ownEntry := right.ownEntry.trans left.ownEntry
  lockSet := right.lockSet.trans left.lockSet
  connections := right.connections.trans left.connections
  status := right.status.trans left.status
  resolutions := right.resolutions.trans left.resolutions
  busy := fun was => right.busy (left.busy was)
  unblocked := fun free => right.unblocked (left.unblocked free)

/-- The proposers' tasks, the clients, the running processes, the connections and the
acceptors' queues stay, and an idle proposer does not move. -/
structure Carries (before after : Group) : Prop where
  task : ∀ server, SameTask (before.proposers server) (after.proposers server)
  idle : ∀ server, (before.proposers server).state = .IDLE →
    after.proposers server = before.proposers server
  clients : after.clients = before.clients
  stopped : after.stopped = before.stopped
  acceptorStatus : ∀ acceptor,
    (after.acceptors acceptor).status = (before.acceptors acceptor).status
  acceptorConnections : ∀ acceptor, (after.acceptors acceptor).serverConnections =
    (before.acceptors acceptor).serverConnections
  acceptorQueue : after.acceptorQueue = before.acceptorQueue

theorem Carries.refl (group : Group) : Carries group group :=
  ⟨fun _ => .refl _, fun _ _ => rfl, rfl, rfl, fun _ => rfl, fun _ => rfl, rfl⟩

theorem Carries.trans {first second third : Group} (left : Carries first second)
    (right : Carries second third) : Carries first third where
  task := fun server => (left.task server).trans (right.task server)
  idle := by
    intro server isIdle
    have first := left.idle server isIdle
    exact (right.idle server (by rwa [first])).trans first
  clients := right.clients.trans left.clients
  stopped := right.stopped.trans left.stopped
  acceptorStatus := fun acceptor =>
    (right.acceptorStatus acceptor).trans (left.acceptorStatus acceptor)
  acceptorConnections := fun acceptor =>
    (right.acceptorConnections acceptor).trans (left.acceptorConnections acceptor)
  acceptorQueue := right.acceptorQueue.trans left.acceptorQueue

/-- A continuation in which every server keeps its task. -/
structure Goes (cfg : Config) (before after : Group) : Prop where
  continues : cfg.Continues before after
  carries : Carries before after

theorem Goes.refl (cfg : Config) (group : Group) : Goes cfg group group := ⟨.refl _, .refl _⟩

theorem Goes.trans {cfg : Config} {first second third : Group} (left : Goes cfg first second)
    (right : Goes cfg second third) : Goes cfg first third :=
  ⟨left.continues.trans right.continues, left.carries.trans right.carries⟩

/-- A running proposer with a client command. -/
structure Busy (cfg : Config) (server : ℕ) (group : Group) : Prop where
  reached : cfg.Reachable group
  runs : group.proposerRuns cfg server
  busy : (group.proposers server).state ≠ .IDLE

/-- A running proposer with a client command that is no LOCK of a held resource. -/
structure Pursues (cfg : Config) (server : ℕ) (group : Group) : Prop
    extends Busy cfg server group where
  unblocked : ¬ ((group.proposers server).clientCommand.commandType = .LOCK ∧
    (group.proposers server).clientCommand.resourceId ∈ (group.proposers server).lockSet)

theorem Busy.go {cfg : Config} {server : ℕ} {before after : Group}
    (busy : Busy cfg server before) (goes : Goes cfg before after) : Busy cfg server after := by
  have task := goes.carries.task server
  rcases busy.runs with ⟨known, up, running⟩
  refine ⟨goes.continues.reachable busy.reached, ⟨known, ?_, ?_⟩, task.busy busy.busy⟩
  · rw [goes.carries.stopped, up]
  · rw [task.status, running]

/-- The running processes, the connections and the acceptors' queues stay. -/
structure Links (before after : Group) : Prop where
  connections : ∀ server,
    (after.proposers server).serverConnections = (before.proposers server).serverConnections
  stopped : after.stopped = before.stopped
  acceptorStatus : ∀ acceptor,
    (after.acceptors acceptor).status = (before.acceptors acceptor).status
  acceptorConnections : ∀ acceptor, (after.acceptors acceptor).serverConnections =
    (before.acceptors acceptor).serverConnections
  acceptorQueue : after.acceptorQueue = before.acceptorQueue

theorem Carries.links {before after : Group} (carries : Carries before after) :
    Links before after :=
  ⟨fun server => (carries.task server).connections, carries.stopped, carries.acceptorStatus,
    carries.acceptorConnections, carries.acceptorQueue⟩

/-- An acceptor that runs, has nothing to do and shares connections with the
server in both directions. -/
structure Available (cfg : Config) (server : ℕ) (group : Group) (acceptor : ℕ) : Prop where
  runs : group.acceptorRuns cfg acceptor
  reaches : acceptor ∈ (group.proposers server).serverConnections
  answers : server ∈ (group.acceptors acceptor).serverConnections
  idle : group.acceptorQueue acceptor = []

theorem Available.stays {cfg : Config} {server acceptor : ℕ} {before after : Group}
    (available : Available cfg server before acceptor) (links : Links before after) :
    Available cfg server after acceptor where
  runs := by
    rcases available.runs with ⟨known, up, running⟩
    exact ⟨known, by rw [links.stopped, up], by rw [links.acceptorStatus, running]⟩
  reaches := by rw [links.connections]; exact available.reaches
  answers := by rw [links.acceptorConnections]; exact available.answers
  idle := by rw [links.acceptorQueue, available.idle]

theorem Available.go {cfg : Config} {server acceptor : ℕ} {before after : Group}
    (available : Available cfg server before acceptor) (carries : Carries before after) :
    Available cfg server after acceptor :=
  available.stays carries.links

/-- The server has taken these messages off its queue and may have sent requests
and raised its number; nobody else has moved. -/
structure Resumes (server : ℕ) (taken : List Message) (before after : Group) : Prop where
  acceptors : after.acceptors = before.acceptors
  queue : before.proposerQueue server = taken ++ after.proposerQueue server
  history : ∀ signature ∈ (after.proposers server).msgHistory,
    signature ∈ (before.proposers server).msgHistory ∨
      ∃ msg ∈ taken, msg.signature = signature
  remembers : ∀ signature ∈ (before.proposers server).msgHistory,
    signature ∈ (after.proposers server).msgHistory
  read : ∀ msg ∈ taken, msg.clientId ≠ none → msg.msgType ∈ proposerMsgTypes →
    msg.signature ∈ (after.proposers server).msgHistory
  flight : ∀ packet ∈ before.flight, packet ∈ after.flight
  number : (before.proposers server).proposerNum ≤ (after.proposers server).proposerNum

theorem Resumes.refl (server : ℕ) (group : Group) : Resumes server [] group group :=
  ⟨rfl, rfl, fun _ member => .inl member, fun _ member => member, by simp,
    fun _ member => member, le_rfl⟩

theorem Resumes.trans {server : ℕ} {earlier later : List Message} {first second third : Group}
    (left : Resumes server earlier first second) (right : Resumes server later second third) :
    Resumes server (earlier ++ later) first third where
  acceptors := right.acceptors.trans left.acceptors
  queue := by rw [left.queue, right.queue, List.append_assoc]
  history := by
    intro signature member
    rcases right.history signature member with old | ⟨msg, taken, same⟩
    · rcases left.history signature old with older | ⟨msg, taken, same⟩
      · exact .inl older
      · exact .inr ⟨msg, List.mem_append_left _ taken, same⟩
    · exact .inr ⟨msg, List.mem_append_right _ taken, same⟩
  remembers := fun signature member => right.remembers signature (left.remembers signature member)
  read := by
    intro msg member present kind
    rcases List.mem_append.mp member with first | second
    · exact right.remembers _ (left.read msg first present kind)
    · exact right.read msg second present kind
  flight := fun packet member => right.flight packet (left.flight packet member)
  number := left.number.trans right.number

/-- A move on the message at the head of the queue. -/
theorem Resumes.take {server : ℕ} {group : Group} {proposer : Proposer} {msg : Message}
    {rest : List Message} (queue : group.proposerQueue server = msg :: rest)
    (history : ∀ signature ∈ proposer.msgHistory,
      signature ∈ (group.proposers server).msgHistory ∨ msg.signature = signature)
    (remembers : ∀ signature ∈ (group.proposers server).msgHistory,
      signature ∈ proposer.msgHistory)
    (read : msg.clientId ≠ none → msg.msgType ∈ proposerMsgTypes →
      msg.signature ∈ proposer.msgHistory)
    (number : (group.proposers server).proposerNum ≤ proposer.proposerNum) :
    Resumes server [msg] group
      ((group.setProposerQueue server rest).commit server (proposer, .silent)) where
  acceptors := by simp
  queue := by simp [queue]
  history := by
    intro signature member
    rw [Group.commit_proposers, Function.update_self] at member
    exact (history signature member).imp_right fun same => ⟨msg, List.mem_singleton_self _, same⟩
  remembers := by
    rw [Group.commit_proposers, Function.update_self]
    exact remembers
  read := by
    rw [Group.commit_proposers, Function.update_self]
    intro other member
    obtain rfl := List.mem_singleton.mp member
    exact read
  flight := fun packet member => by simpa [Output.packets] using member
  number := by simpa using number

/-- A move that takes no message off the queue. -/
theorem Resumes.commit {server : ℕ} {group : Group} {result : Proposer × Output}
    (history : result.1.msgHistory = (group.proposers server).msgHistory)
    (number : (group.proposers server).proposerNum ≤ result.1.proposerNum) :
    Resumes server [] group (group.commit server result) where
  acceptors := by simp
  queue := by simp
  history := by
    intro signature member
    rw [Group.commit_proposers, Function.update_self, history] at member
    exact .inl member
  remembers := by
    rw [Group.commit_proposers, Function.update_self, history]
    exact fun _ member => member
  read := by simp
  flight := fun packet member => by simp [member]
  number := by simpa using number

section Moves

variable {cfg : Config} {server : ℕ} {group : Group}

theorem sendToAcceptors_nil : ∀ connections : List ℕ,
    sendToAcceptors [] connections = (connections, connections)
  | [] => rfl
  | [connection] => by simp [sendToAcceptors]
  | connection :: following :: rest => by
      simp [sendToAcceptors, sendToAcceptors_nil (following :: rest)]

/-- A move of the proposer, with another queue, carries its task when its result does. -/
theorem Carries.take {queue : List Message} {result : Proposer × Output}
    (busy : (group.proposers server).state ≠ .IDLE)
    (task : SameTask (group.proposers server) result.1) (quiet : result.2.acks = []) :
    Carries group ((group.setProposerQueue server queue).commit server result) where
  task := by
    intro other
    by_cases same : other = server
    · subst same
      simpa using task
    · simpa [same] using SameTask.refl _
  idle := by
    intro other isIdle
    have away : other ≠ server := by
      rintro rfl
      exact busy isIdle
    simp [away]
  clients := by
    funext index
    rw [Group.commit_clients, quiet]
    split <;> simp
  stopped := by simp
  acceptorStatus := by simp
  acceptorConnections := by simp
  acceptorQueue := by simp

theorem Carries.commit {result : Proposer × Output}
    (busy : (group.proposers server).state ≠ .IDLE)
    (task : SameTask (group.proposers server) result.1) (quiet : result.2.acks = []) :
    Carries group (group.commit server result) := by
  have same : group.setProposerQueue server (group.proposerQueue server) = group := by
    simp [Group.setProposerQueue]
  have carries := @Carries.take server group (group.proposerQueue server) result busy
    task quiet
  rwa [same] at carries

/-- What a step sends has not been sent before. -/
theorem not_sent_before {next : Group} {packets : List (ℕ × Message)} {packet : ℕ × Message}
    (reached : cfg.Reachable next) (sent : next.sent = group.sent ++ packets)
    (new : packet ∈ packets) : packet ∉ group.sent := by
  have once := (sentOnce_reachable reached).sent
  rw [sent] at once
  exact fun old => (List.nodup_append.mp once).2.2 packet old packet new rfl

/-- An acceptor has not read what has not been sent to it. -/
theorem unread_of_new {acceptor : ℕ} {msg : Message} (wire : Wire cfg group)
    (new : (acceptor, msg) ∉ group.sent) :
    msg.signature ∉ (group.acceptors acceptor).msgHistory := by
  intro read
  rcases wire.acceptorHistory acceptor _ read with ⟨other, sent, _, same⟩
  exact new (Message.signature_injective same ▸ sent)

theorem SameTask.ready (server : ℕ) (proposer : Proposer) :
    SameTask proposer (proposer.ready server []).1 :=
  ⟨rfl, rfl, rfl, by simp [Proposer.ready, sendToAcceptors_nil], rfl, rfl, fun _ => by
    simp [Proposer.ready], id⟩

theorem SameTask.abandon (groupSize : ℕ) (proposer : Proposer) :
    SameTask proposer (proposer.abandon groupSize) :=
  ⟨rfl, rfl, rfl, rfl, rfl, rfl, fun _ => by simp [Proposer.abandon], id⟩

theorem SameTask.acceptingTimeout (groupSize : ℕ) (proposer : Proposer) :
    SameTask proposer (proposer.acceptingTimeout groupSize) :=
  ⟨rfl, rfl, rfl, rfl, rfl, rfl, fun _ => by simp [Proposer.acceptingTimeout], id⟩

/-- READY: the PREPARE goes out to all connections. -/
theorem Busy.ask (busy : Busy cfg server group)
    (ready : (group.proposers server).state = .READY) :
    ∃ after, Goes cfg group after ∧ Resumes server [] group after ∧
      (after.proposers server).state = .PROPOSING ∧ (after.proposers server).responseCnt = 0 ∧
      (after.proposers server).proposerNum = (group.proposers server).proposerNum ∧
      ∀ acceptor ∈ (group.proposers server).serverConnections,
        (acceptor, (group.proposers server).prepareMsg server) ∈ after.flight ∧
          ((group.proposers server).prepareMsg server).signature ∉
            (group.acceptors acceptor).msgHistory := by
  have step : cfg.machine.step group (.send server []) =
      some (group.commit server ((group.proposers server).ready server [])) := by
    simp only [Config.machine, Group.step, ready]
    exact if_pos busy.runs
  have all := sendToAcceptors_nil (group.proposers server).serverConnections
  have packets : ∀ acceptor ∈ (group.proposers server).serverConnections,
      (acceptor, (group.proposers server).prepareMsg server) ∈
        ((group.proposers server).ready server []).2.packets := by
    simp [Proposer.ready, Output.packets, all]
  refine ⟨_, ⟨.step step rfl, .commit busy.busy (.ready server _) rfl⟩, .commit rfl le_rfl,
    ?_, ?_, ?_, fun acceptor inside => ⟨?_, ?_⟩⟩
  · simp [Proposer.ready]
  · simp [Proposer.ready]
  · simp [Proposer.ready]
  · rw [Group.commit_flight]
    exact List.mem_append_right _ (packets acceptor inside)
  · exact unread_of_new (wire_reachable busy.reached) (not_sent_before
      (busy.reached.step step) (Group.commit_sent ..) (packets acceptor inside))

/-- PROPOSING: the wait times out. -/
theorem Busy.giveUp (busy : Busy cfg server group)
    (proposing : (group.proposers server).state = .PROPOSING) :
    ∃ after, Goes cfg group after ∧ Resumes server [] group after ∧
      (after.proposers server).state = .READY ∧ after.flight = group.flight ∧
      (group.proposers server).proposerNum + 1 ≤ (after.proposers server).proposerNum := by
  have step : cfg.machine.step group (.timeout server) =
      some (group.commit server ((group.proposers server).abandon cfg.groupSize, .silent)) := by
    simp only [Config.machine, Group.step, proposing]
    exact if_pos busy.runs
  have positive : 0 < cfg.groupSize := Nat.zero_lt_of_lt busy.runs.1
  refine ⟨_, ⟨.step step rfl, .commit busy.busy (.abandon cfg.groupSize _) rfl⟩,
    .commit rfl ?_, ?_, ?_, ?_⟩
  · simp [Proposer.abandon]
  · simp [Proposer.abandon]
  · simp [Output.packets]
  · simp only [Group.commit_proposers, Function.update_self, Proposer.abandon]
    omega

/-- ACCEPTING: the wait times out. -/
theorem Busy.giveUpAccepting (busy : Busy cfg server group)
    (accepting : (group.proposers server).state = .ACCEPTING) :
    ∃ after, Goes cfg group after ∧ Resumes server [] group after ∧
      (after.proposers server).state = .READY := by
  have step : cfg.machine.step group (.timeout server) = some (group.commit server
      ((group.proposers server).acceptingTimeout cfg.groupSize, .silent)) := by
    simp only [Config.machine, Group.step, accepting]
    exact if_pos busy.runs
  refine ⟨_, ⟨.step step rfl, .commit busy.busy (.acceptingTimeout cfg.groupSize _) rfl⟩,
    .commit rfl ?_, ?_⟩
  · simp only [Proposer.acceptingTimeout]
    omega
  · simp [Proposer.acceptingTimeout]

/-- A proposer in ACCEPT knows the client of what it has learnt. -/
theorem learntClient_of_accept (reached : cfg.Reachable group)
    (accept : (group.proposers server).state = .ACCEPT ∨
      (group.proposers server).state = .ACCEPTING) :
    (group.proposers server).learntClient ≠ none := by
  rcases refines_reachable reached with ⟨ledger, _, refines⟩
  rcases (refines.replicas server).accepting accept with ⟨entry, _, learnt⟩
  rw [(Prod.mk.inj learnt).2]
  simp

/-- ACCEPT: the ACCEPT goes out to all connections. -/
theorem Busy.propose (busy : Busy cfg server group)
    (accept : (group.proposers server).state = .ACCEPT) :
    ∃ after, Goes cfg group after ∧ Resumes server [] group after ∧
      (after.proposers server).state = .ACCEPTING ∧ (after.proposers server).responseCnt = 0 ∧
      (after.proposers server).acceptMsg server = (group.proposers server).acceptMsg server ∧
      ∀ acceptor ∈ (group.proposers server).serverConnections,
        (acceptor, (group.proposers server).acceptMsg server) ∈ after.flight ∧
          ((group.proposers server).acceptMsg server).signature ∉
            (group.acceptors acceptor).msgHistory := by
  have step : cfg.machine.step group (.send server []) =
      some (group.commit server ((group.proposers server).accept server [])) := by
    simp only [Config.machine, Group.step, accept]
    exact if_pos busy.runs
  have all := sendToAcceptors_nil (group.proposers server).serverConnections
  have present := learntClient_of_accept busy.reached (.inl accept)
  have result : (group.proposers server).accept server [] =
      ({ group.proposers server with state := .ACCEPTING, responseCnt := 0 },
        .broadcast ((group.proposers server).acceptMsg server)
          (group.proposers server).serverConnections) := by
    simp [Proposer.accept, present, all]
  rw [result] at step
  have packets : ∀ acceptor ∈ (group.proposers server).serverConnections,
      (acceptor, (group.proposers server).acceptMsg server) ∈
        (Output.broadcast ((group.proposers server).acceptMsg server)
          (group.proposers server).serverConnections).packets := by
    simp [Output.packets]
  refine ⟨_, ⟨.step step rfl,
      .commit busy.busy ⟨rfl, rfl, rfl, rfl, rfl, rfl, fun _ => by simp, id⟩ rfl⟩,
    .commit rfl le_rfl, ?_, ?_, ?_, fun acceptor inside => ⟨?_, ?_⟩⟩
  · simp
  · simp
  · simp [Proposer.acceptMsg]
  · rw [Group.commit_flight]
    exact List.mem_append_right _ (packets acceptor inside)
  · exact unread_of_new (wire_reachable busy.reached) (not_sent_before
      (busy.reached.step step) (Group.commit_sent ..) (packets acceptor inside))

/-- A proposer with a client command comes back to READY. -/
theorem Busy.toReady (busy : Busy cfg server group) :
    ∃ after, Goes cfg group after ∧ Resumes server [] group after ∧
      (after.proposers server).state = .READY := by
  cases state : (group.proposers server).state with
  | IDLE => exact absurd state busy.busy
  | READY => exact ⟨group, .refl _ _, .refl _ _, state⟩
  | PROPOSING =>
      rcases busy.giveUp state with ⟨after, goes, resumes, ready, _⟩
      exact ⟨after, goes, resumes, ready⟩
  | ACCEPTING => exact busy.giveUpAccepting state
  | ACCEPT =>
      rcases busy.propose state with ⟨middle, goes, resumes, accepting, _⟩
      have busyOn := busy.go goes
      rcases busyOn.giveUpAccepting accepting with ⟨after, goesOn, resumesOn, ready⟩
      exact ⟨after, goes.trans goesOn, resumes.trans resumesOn, ready⟩

/-- One round without a message raises the number. -/
theorem Busy.retry (busy : Busy cfg server group)
    (ready : (group.proposers server).state = .READY) :
    ∃ after, Goes cfg group after ∧ Resumes server [] group after ∧
      (after.proposers server).state = .READY ∧
      (group.proposers server).proposerNum + 1 ≤ (after.proposers server).proposerNum := by
  rcases busy.ask ready with ⟨middle, goes, resumes, proposing, _, number, _⟩
  have busyOn := busy.go goes
  rcases busyOn.giveUp proposing with ⟨after, goesOn, resumesOn, readyAgain, _, raised⟩
  exact ⟨after, goes.trans goesOn, resumes.trans resumesOn, readyAgain, number ▸ raised⟩

/-- A proposer in READY raises its number above any bound. -/
theorem Busy.raise (busy : Busy cfg server group)
    (ready : (group.proposers server).state = .READY) (bound : ℤ) :
    ∃ after, Goes cfg group after ∧ Resumes server [] group after ∧
      (after.proposers server).state = .READY ∧
      bound < (after.proposers server).proposerNum := by
  have rounds : ∀ (count : ℕ) (group : Group), Busy cfg server group →
      (group.proposers server).state = .READY →
      bound < (group.proposers server).proposerNum + count →
      ∃ after, Goes cfg group after ∧ Resumes server [] group after ∧
        (after.proposers server).state = .READY ∧
        bound < (after.proposers server).proposerNum := by
    intro count
    induction count with
    | zero =>
        intro group _ ready above
        exact ⟨group, .refl _ _, .refl _ _, ready, by simpa using above⟩
    | succ count inductionHypothesis =>
        intro group busy ready above
        rcases busy.retry ready with ⟨middle, goes, resumes, readyOn, raised⟩
        have busyOn := busy.go goes
        rcases inductionHypothesis middle busyOn readyOn (by push_cast at above; omega) with
          ⟨after, goesOn, resumesOn, readyAgain, final⟩
        exact ⟨after, goes.trans goesOn, resumes.trans resumesOn, readyAgain, final⟩
  refine rounds (bound - (group.proposers server).proposerNum + 1).toNat group busy ready ?_
  omega

end Moves

end CSE550.Paxos
