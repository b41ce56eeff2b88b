import CSE550.Paxos.Steps

/-!
Owns what travels: every message in flight, queued or remembered was sent to
the server that holds it, requests come from broadcasts and replies from
acceptors. The histories `sent` and `broadcasts` only grow.

Does not own the numbers of the requests or the contents of the replies.
-/

namespace CSE550.Paxos

open CSE550.Lib

/-! ### What one move sends and remembers -/

section Moves

variable {groupSize serverId : ℕ} {proposer : Proposer} {taken : Option Message}
  {result : Proposer × Output}

/-- Only READY and ACCEPT broadcast. -/
theorem ProposerMove.broadcast_cases
    (move : ProposerMove groupSize serverId proposer taken result) {msg : Message}
    (member : msg ∈ result.2.broadcasts) :
    (proposer.state = .READY ∧ msg = proposer.prepareMsg serverId) ∨
      (proposer.state = .ACCEPT ∧ msg = proposer.acceptMsg serverId) := by
  cases move with
  | ready fails state => exact .inl ⟨state, List.mem_singleton.mp member⟩
  | accept fails state => exact .inr ⟨state, List.mem_singleton.mp member⟩
  | acceptRaised | proposingTimeout | acceptingTimeout | proposing => cases member
  | accepting msg state result outcome => cases outcome <;> cases member

/-- A packet carries the broadcast message to a connected server. -/
theorem ProposerMove.packet_cases
    (move : ProposerMove groupSize serverId proposer taken result) {target : ℕ} {msg : Message}
    (member : (target, msg) ∈ result.2.packets) :
    msg ∈ result.2.broadcasts ∧ target ∈ proposer.serverConnections := by
  cases move with
  | ready fails state =>
      have sublist := (sendToAcceptors_sublist fails proposer.serverConnections).1
      simp only [Proposer.ready, Output.packets, List.mem_map, Prod.mk.injEq] at member
      obtain ⟨written, inside, rfl, rfl⟩ := member
      exact ⟨by simp [Proposer.ready, Output.broadcasts], sublist.subset inside⟩
  | accept fails state =>
      have sublist := (sendToAcceptors_sublist fails proposer.serverConnections).1
      simp only [Output.packets, List.mem_map, Prod.mk.injEq] at member
      obtain ⟨written, inside, rfl, rfl⟩ := member
      exact ⟨by simp [Output.broadcasts], sublist.subset inside⟩
  | acceptRaised | proposingTimeout | acceptingTimeout | proposing => cases member
  | accepting msg state result outcome => cases outcome <;> cases member

/-- Only the message taken off the queue enters the history, and only a reply. -/
theorem ProposerMove.history_cases
    (move : ProposerMove groupSize serverId proposer taken result) {signature : Signature}
    (member : signature ∈ result.1.msgHistory) :
    signature ∈ proposer.msgHistory ∨
      ∃ msg ∈ taken, msg.msgType ∈ proposerMsgTypes ∧ msg.signature = signature := by
  cases move with
  | ready | accept | acceptRaised | proposingTimeout | acceptingTimeout => exact .inl member
  | proposing address msg state after outcome =>
      have reply (counted : CountedReply proposer msg) : msg.msgType ∈ proposerMsgTypes := by
        rcases counted.msgType with isAck | isNack <;> simp [proposerMsgTypes, *]
      have remembered (kind : msg.msgType ∈ proposerMsgTypes)
          (inside : signature ∈ (proposer.remember msg).msgHistory) :
          signature ∈ proposer.msgHistory ∨ ∃ other ∈ some msg,
            other.msgType ∈ proposerMsgTypes ∧ other.signature = signature := by
        rcases List.mem_cons.mp inside with rfl | old
        · exact .inr ⟨msg, rfl, kind, rfl⟩
        · exact .inl old
      cases outcome with
      | refused | unchanged | exited | raised => exact .inl member
      | passed kind => exact remembered kind member
      | counted counted => exact remembered (reply counted) member
      | blocked counted many held =>
          obtain ⟨value, clientId, same⟩ :=
            learn_eq ((proposer.remember msg).countReply address msg)
          rw [same] at member
          exact remembered (reply counted) member
      | won counted many free =>
          obtain ⟨value, clientId, same⟩ :=
            learn_eq ((proposer.remember msg).countReply address msg)
          rw [same] at member
          exact remembered (reply counted) member
  | accepting msg state result outcome =>
      have remembered (kind : msg.msgType ∈ proposerMsgTypes)
          (inside : signature ∈ (proposer.remember msg).msgHistory) :
          signature ∈ proposer.msgHistory ∨ ∃ other ∈ some msg,
            other.msgType ∈ proposerMsgTypes ∧ other.signature = signature := by
        rcases List.mem_cons.mp inside with rfl | old
        · exact .inr ⟨msg, rfl, kind, rfl⟩
        · exact .inl old
      have ackKind (ack : CountedAck proposer msg) : msg.msgType ∈ proposerMsgTypes := by
        simp [proposerMsgTypes, ack.msgType]
      cases outcome with
      | unchanged | exited | raisedOther => exact .inl member
      | passed kind => exact remembered kind member
      | raisedLater later changed same kind =>
          rcases same with rfl | rfl
          · exact .inl member
          · exact remembered (kind rfl) member
      | counted ack => exact remembered (ackKind ack) member
      | lost error ack => exact remembered (ackKind ack) member
      | own ack =>
          rw [resolve_msgHistory] at member
          exact remembered (ackKind ack) member
      | other ack =>
          rw [resolve_msgHistory] at member
          exact remembered (ackKind ack) member

end Moves

/-- A reply names its acceptor and repeats the number and instance it answers. -/
theorem RequestOutcome.reply_fields {serverId : ℕ} {before after : AcceptHistory}
    {msg reply : Message} (outcome : RequestOutcome serverId before msg reply after) :
    reply.msgType ∈ proposerMsgTypes ∧ reply.originId = some serverId ∧
      reply.proposal = msg.proposal ∧ reply.inst = msg.inst := by
  cases outcome <;> simp [proposerMsgTypes, acceptAck]

/-! ### Histories grow -/

theorem Transition.sent_grows {cfg : Config} {group next : Group} {label : Label}
    (transition : Transition cfg group label next) : group.sent <+: next.sent := by
  cases transition with
  | network next move => exact move.sent ▸ List.prefix_rfl
  | proposer server queue taken result runs fewer queued move => simp
  | acceptor server msg rest result runs queue turn =>
      simp
  | _ => exact List.prefix_rfl

theorem Transition.broadcasts_grows {cfg : Config} {group next : Group} {label : Label}
    (transition : Transition cfg group label next) : group.broadcasts <+: next.broadcasts := by
  cases transition with
  | network next move => exact move.broadcasts ▸ List.prefix_rfl
  | proposer server queue taken result runs fewer queued move => simp
  | _ => exact List.prefix_rfl

/-! ### The invariant -/

/-- Where messages, signatures and packets come from. -/
structure Wire (cfg : Config) (group : Group) : Prop where
  flight : ∀ packet ∈ group.flight, packet ∈ group.sent
  proposerQueue : ∀ server, ∀ msg ∈ group.proposerQueue server,
    IsExit msg ∨ ((server, msg) ∈ group.sent ∧ msg.msgType ∈ proposerMsgTypes)
  acceptorQueue : ∀ server, ∀ msg ∈ group.acceptorQueue server,
    IsExit msg ∨ ((server, msg) ∈ group.sent ∧ msg.msgType ∈ acceptorMsgTypes)
  proposerHistory : ∀ server, ∀ signature ∈ (group.proposers server).msgHistory,
    ∃ msg, (server, msg) ∈ group.sent ∧ msg.msgType ∈ proposerMsgTypes ∧
      msg.signature = signature
  acceptorHistory : ∀ server, ∀ signature ∈ (group.acceptors server).msgHistory,
    ∃ msg, (server, msg) ∈ group.sent ∧ msg.msgType ∈ acceptorMsgTypes ∧
      msg.signature = signature
  types : ∀ server msg, (server, msg) ∈ group.sent →
    msg.msgType ∈ proposerMsgTypes ∨ msg.msgType ∈ acceptorMsgTypes
  requests : ∀ server msg, (server, msg) ∈ group.sent → msg.msgType ∈ acceptorMsgTypes →
    msg ∈ group.broadcasts
  broadcasts : ∀ msg ∈ group.broadcasts, msg.msgType ∈ acceptorMsgTypes ∧
    ∃ server < cfg.groupSize, msg.originId = some server

theorem acceptorMsgTypes_not_proposer {kind : MessageType} (request : kind ∈ acceptorMsgTypes) :
    kind ∉ proposerMsgTypes := by
  cases kind <;> simp_all [acceptorMsgTypes, proposerMsgTypes]

theorem prepareMsg_request (proposer : Proposer) (serverId : ℕ) :
    (proposer.prepareMsg serverId).msgType ∈ acceptorMsgTypes := by
  simp [Proposer.prepareMsg, acceptorMsgTypes]

theorem acceptMsg_request (proposer : Proposer) (serverId : ℕ) :
    (proposer.acceptMsg serverId).msgType ∈ acceptorMsgTypes := by
  simp [Proposer.acceptMsg, acceptorMsgTypes]

theorem Wire.initial (cfg : Config) : Wire cfg cfg.initial := by
  constructor <;> simp [Config.initial, Config.initialProposer, Config.initialAcceptor]

section Keep

variable {cfg : Config} {group next : Group} {label : Label}

private theorem Wire.keep_network (wire : Wire cfg group) (move : NetworkMove group next) :
    Wire cfg next where
  flight := fun packet member => move.sent ▸ wire.flight packet (move.flight packet member)
  proposerQueue := by
    intro server msg member
    rw [move.sent]
    rcases move.proposerQueue server msg member with old | ⟨flying, kind⟩ | isExit
    · exact wire.proposerQueue server msg old
    · have sent := wire.flight _ flying
      rcases wire.types server msg sent with reply | request
      · exact .inr ⟨sent, reply⟩
      · exact absurd request kind
    · exact .inl isExit
  acceptorQueue := by
    intro server msg member
    rw [move.sent]
    rcases move.acceptorQueue server msg member with old | ⟨flying, kind⟩ | isExit
    · exact wire.acceptorQueue server msg old
    · have sent := wire.flight _ flying
      rcases wire.types server msg sent with reply | request
      · exact absurd reply kind
      · exact .inr ⟨sent, request⟩
    · exact .inl isExit
  proposerHistory := by rw [move.sent, move.proposers]; exact wire.proposerHistory
  acceptorHistory := by rw [move.sent, move.acceptors]; exact wire.acceptorHistory
  types := by rw [move.sent]; exact wire.types
  requests := by rw [move.sent, move.broadcasts]; exact wire.requests
  broadcasts := by rw [move.broadcasts]; exact wire.broadcasts

/-- Steps that leave queues, packets and histories alone. -/
private theorem Wire.keep_local (wire : Wire cfg group)
    (sent : next.sent = group.sent) (broadcasts : next.broadcasts = group.broadcasts)
    (flight : next.flight = group.flight) (acceptors : next.acceptors = group.acceptors)
    (proposerQueue : ∀ server, ∀ msg ∈ next.proposerQueue server,
      msg ∈ group.proposerQueue server)
    (acceptorQueue : next.acceptorQueue = group.acceptorQueue)
    (histories : ∀ server, (next.proposers server).msgHistory =
      (group.proposers server).msgHistory) : Wire cfg next where
  flight := by rw [flight, sent]; exact wire.flight
  proposerQueue := fun server msg member =>
    sent ▸ wire.proposerQueue server msg (proposerQueue server msg member)
  acceptorQueue := by rw [acceptorQueue, sent]; exact wire.acceptorQueue
  proposerHistory := fun server => by rw [sent, histories]; exact wire.proposerHistory server
  acceptorHistory := by rw [sent, acceptors]; exact wire.acceptorHistory
  types := by rw [sent]; exact wire.types
  requests := by rw [sent, broadcasts]; exact wire.requests
  broadcasts := by rw [broadcasts]; exact wire.broadcasts

private theorem Wire.keep_proposer (wire : Wire cfg group) {server : ℕ} {queue : List Message}
    {taken : Option Message} {result : Proposer × Output}
    (runs : group.proposerRuns cfg server)
    (fewer : ∀ msg ∈ queue, msg ∈ group.proposerQueue server)
    (queued : ∀ msg ∈ taken, msg ∈ group.proposerQueue server)
    (move : ProposerMove cfg.groupSize server (group.proposers server) taken result) :
    Wire cfg ((group.setProposerQueue server queue).commit server result) := by
  have grown {packet : ℕ × Message} (member : packet ∈ group.sent) :
      packet ∈ ((group.setProposerQueue server queue).commit server result).sent := by
    simp only [Group.commit_sent, List.mem_append]
    exact .inl member
  have requestOf {msg : Message} (member : msg ∈ result.2.broadcasts) :
      msg.msgType ∈ acceptorMsgTypes ∧ ∃ origin < cfg.groupSize, msg.originId = some origin := by
    rcases move.broadcast_cases member with ⟨_, rfl⟩ | ⟨_, rfl⟩
    · exact ⟨prepareMsg_request _ _, server, runs.1, rfl⟩
    · exact ⟨acceptMsg_request _ _, server, runs.1, rfl⟩
  refine ⟨?_, ?_, ?_, ?_, ?_, ?_, ?_, ?_⟩
  · intro packet member
    simp only [Group.commit_flight, Group.commit_sent, List.mem_append] at member ⊢
    exact member.imp_left (wire.flight packet)
  · intro other msg member
    have old : msg ∈ group.proposerQueue other := by
      by_cases same : other = server
      · subst same
        exact fewer msg (by simpa using member)
      · simpa [same] using member
    exact (wire.proposerQueue other msg old).imp_right fun found => ⟨grown found.1, found.2⟩
  · intro other msg member
    have old : msg ∈ group.acceptorQueue other := by
      simpa using member
    exact (wire.acceptorQueue other msg old).imp_right fun found => ⟨grown found.1, found.2⟩
  · intro other signature member
    by_cases same : other = server
    · subst same
      simp only [Group.commit_proposers, Function.update_self] at member
      rcases move.history_cases member with old | ⟨msg, isTaken, kind, rfl⟩
      · obtain ⟨msg, sent, found⟩ := wire.proposerHistory other signature old
        exact ⟨msg, grown sent, found⟩
      · rcases wire.proposerQueue other msg (queued msg isTaken) with isExit | ⟨sent, _⟩
        · simp [isExit.msgType, proposerMsgTypes] at kind
        · exact ⟨msg, grown sent, kind, rfl⟩
    · simp only [Group.commit_proposers, Function.update_of_ne same] at member
      obtain ⟨msg, sent, found⟩ := wire.proposerHistory other signature member
      exact ⟨msg, grown sent, found⟩
  · intro other signature member
    obtain ⟨msg, sent, found⟩ := wire.acceptorHistory other signature
      (by simpa using member)
    exact ⟨msg, grown sent, found⟩
  · intro other msg member
    simp only [Group.commit_sent, List.mem_append] at member
    rcases member with old | new
    · exact wire.types other msg old
    · exact .inr (requestOf (move.packet_cases new).1).1
  · intro other msg member kind
    simp only [Group.commit_sent, Group.commit_broadcasts, List.mem_append] at member ⊢
    rcases member with old | new
    · exact .inl (wire.requests other msg old kind)
    · exact .inr (move.packet_cases new).1
  · intro msg member
    simp only [Group.commit_broadcasts, List.mem_append] at member
    rcases member with old | new
    · exact wire.broadcasts msg old
    · exact requestOf new

private theorem Wire.keep_acceptor (wire : Wire cfg group) {server : ℕ} {msg : Message}
    {rest : List Message} {result : Acceptor × Option (ℕ × Message)}
    (queue : group.acceptorQueue server = msg :: rest)
    (turn : AcceptorOutcome server (group.acceptors server) msg result) :
    Wire cfg ((group.setAcceptorQueue server rest).commitAcceptor server result) := by
  have grown {packet : ℕ × Message} (member : packet ∈ group.sent) :
      packet ∈ ((group.setAcceptorQueue server rest).commitAcceptor server result).sent :=
    List.mem_append_left _ member
  have replyKind : ∀ packet ∈ result.2, packet.2.msgType ∈ proposerMsgTypes := by
    intro packet member
    cases turn with
    | replied _ _ reply after handled proposer =>
        obtain rfl := Option.some.inj member
        exact handled.reply_fields.1
    | _ => cases member
  have remembered : ∀ signature ∈ result.1.msgHistory,
      signature ∈ (group.acceptors server).msgHistory ∨
        (msg.msgType ∈ acceptorMsgTypes ∧ msg.signature = signature) := by
    intro signature member
    cases turn with
    | duplicate | ended => exact .inl member
    | silent request | replied request | failed _ request =>
        rcases List.mem_cons.mp member with rfl | old
        · exact .inr ⟨request, rfl⟩
        · exact .inl old
  refine ⟨?_, ?_, ?_, ?_, ?_, ?_, ?_, ?_⟩
  · intro packet member
    rcases List.mem_append.mp member with old | new
    · exact grown (wire.flight packet old)
    · exact List.mem_append_right _ new
  · intro other found member
    exact (wire.proposerQueue other found member).imp_right fun old => ⟨grown old.1, old.2⟩
  · intro other found member
    have old : found ∈ group.acceptorQueue other := by
      by_cases same : other = server
      · subst same
        rw [queue]
        exact List.mem_cons_of_mem _
          (by simpa using member)
      · simpa [same] using member
    exact (wire.acceptorQueue other found old).imp_right fun sent => ⟨grown sent.1, sent.2⟩
  · intro other signature member
    obtain ⟨found, sent, same⟩ := wire.proposerHistory other signature member
    exact ⟨found, grown sent, same⟩
  · intro other signature member
    by_cases same : other = server
    · subst same
      rw [Group.commitAcceptor_acceptors, Function.update_self] at member
      rcases remembered signature member with old | ⟨request, rfl⟩
      · obtain ⟨found, sent, same⟩ := wire.acceptorHistory other signature old
        exact ⟨found, grown sent, same⟩
      · rcases wire.acceptorQueue other msg (by simp [queue]) with isExit | ⟨sent, _⟩
        · simp [isExit.msgType, acceptorMsgTypes] at request
        · exact ⟨msg, grown sent, request, rfl⟩
    · rw [Group.commitAcceptor_acceptors, Function.update_of_ne same] at member
      obtain ⟨found, sent, same⟩ := wire.acceptorHistory other signature member
      exact ⟨found, grown sent, same⟩
  · intro other found member
    rcases List.mem_append.mp member with old | new
    · exact wire.types other found old
    · exact .inl (replyKind _ (Option.mem_toList.mp new))
  · intro other found member kind
    rcases List.mem_append.mp member with old | new
    · exact wire.requests other found old kind
    · exact absurd (replyKind _ (Option.mem_toList.mp new)) (acceptorMsgTypes_not_proposer kind)
  · exact wire.broadcasts

theorem Wire.keep (wire : Wire cfg group) (transition : Transition cfg group label next) :
    Wire cfg next := by
  cases transition with
  | network next move => exact wire.keep_network move
  | clientSend | clientRecv =>
      exact wire.keep_local rfl rfl rfl rfl (fun _ _ member => member) rfl fun _ => rfl
  | acceptClient | closeClient | recvClient =>
      exact wire.keep_local rfl rfl rfl rfl (fun _ _ member => member) rfl
        (read_update Proposer.msgHistory (by rfl))
  | idleExit server msg rest runs idle queue =>
      refine wire.keep_local rfl rfl rfl rfl (fun other found member => ?_) rfl
        (read_update Proposer.msgHistory (by rfl))
      by_cases same : other = server
      · subst same
        rw [queue]
        exact List.mem_cons_of_mem _
          (by simpa using member)
      · simpa [same] using member
  | proposer server queue taken result runs fewer queued move =>
      exact wire.keep_proposer runs fewer queued move
  | acceptor server msg rest result runs queue turn => exact wire.keep_acceptor queue turn

end Keep

theorem wire_reachable {cfg : Config} {group : Group} (reached : cfg.Reachable group) :
    Wire cfg group :=
  reached.invariant (Wire.initial cfg) fun _ _ _ _ wire taken =>
    wire.keep (transition_of_step taken)

end CSE550.Paxos
