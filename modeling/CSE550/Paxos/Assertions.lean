import CSE550.Paxos.Collect

/-!
Owns what a proposer can find on its queue: replies to requests of its own, for
an instance and a number it has reached, and PREPARE_NACKs that report an ACCEPT
with a lower number. So the proposer's assertions about messages never fail and
it never meets a message it does not expect.

The assertions of `execute_command` are not among these; they depend on the
commands of the clients.
-/

namespace CSE550.Paxos

open CSE550.Lib

/-! ### Accepted numbers -/

/-- Accepted numbers lie below the promises they are reported under. -/
structure AcceptedBelow (group : Group) : Prop where
  records : ∀ acceptor inst record,
    (group.acceptors acceptor).acceptHistory.lookup inst = some record →
      record.accp ≤ record.prep
  nacks : ∀ server msg, (server, msg) ∈ group.sent → msg.msgType = .PREPARE_NACK →
    msg.rProposal < msg.proposal

section Accepted

variable {cfg : Config} {group next : Group} {label : Label}

theorem AcceptedBelow.initial (cfg : Config) : AcceptedBelow cfg.initial := by
  constructor <;> simp [Config.initial, Config.initialAcceptor]

/-- The number of a request is none below zero. -/
theorem Numbers.noNumber_le (numbers : Numbers cfg group) {msg : Message}
    (among : msg ∈ group.broadcasts) : noNumber ≤ msg.proposal := by
  rcases numbers.residues msg among with ⟨server, _, steps, _, number⟩
  have natural : (0 : ℤ) ≤ server + steps * cfg.groupSize := by positivity
  rw [number]
  exact WithBot.coe_le_coe.mpr (by omega)

/-- A reply leaves an ordered record for its instance. -/
theorem RequestOutcome.ordered {serverId : ℕ} {before after : AcceptHistory}
    {msg reply : Message} (outcome : RequestOutcome serverId before msg reply after)
    (known : noNumber ≤ msg.proposal)
    (ordered : ∀ inst record, before.lookup inst = some record → record.accp ≤ record.prep)
    {inst : WithBot ℕ} {record : AcceptRecord} (found : after.lookup inst = some record) :
    record.accp ≤ record.prep := by
  rcases outcome.lookup_cases inst with ⟨_, same⟩ | ⟨rfl, _⟩
  · exact ordered inst record (same ▸ found)
  · cases outcome with
    | granted =>
        rw [AList.lookup_insert] at found
        cases found
        exact known
    | promised _ earlier there higher | refused _ earlier there higher =>
        rw [AList.lookup_insert] at found
        cases found
        exact (ordered _ earlier there).trans higher.le
    | accepted =>
        rw [AList.lookup_insert] at found
        cases found
        exact le_rfl

/-- A PREPARE_NACK reports a number below its own. -/
theorem RequestOutcome.nack_lt {serverId : ℕ} {before after : AcceptHistory}
    {msg reply : Message} (outcome : RequestOutcome serverId before msg reply after)
    (ordered : ∀ inst record, before.lookup inst = some record → record.accp ≤ record.prep)
    (isNack : reply.msgType = .PREPARE_NACK) : reply.rProposal < reply.proposal := by
  cases outcome with
  | refused _ record known higher => exact (ordered _ record known).trans_lt higher
  | granted | promised | accepted => cases isNack

theorem AcceptedBelow.keep (below : AcceptedBelow group) (wire : Wire cfg group)
    (numbers : Numbers cfg group) (transition : Transition cfg group label next) :
    AcceptedBelow next := by
  cases transition with
  | network _ move => exact ⟨move.acceptors ▸ below.records, move.sent ▸ below.nacks⟩
  | clientSend | clientRecv | acceptClient | closeClient | recvClient | idleExit =>
      exact ⟨below.records, below.nacks⟩
  | proposer other queue found result runs fewer queued move =>
      refine ⟨by simpa using below.records, fun server msg member isNack => ?_⟩
      simp only [Group.commit_sent, List.mem_append] at member
      rcases member with old | new
      · exact below.nacks server msg old isNack
      · rcases move.broadcast_cases (move.packet_cases new).1 with ⟨_, rfl⟩ | ⟨_, rfl⟩
        · cases isNack
        · cases isNack
  | acceptor other request rest result runs queue turn =>
      have known : request.msgType ∈ acceptorMsgTypes → noNumber ≤ request.proposal := by
        intro isRequest
        rcases wire.acceptorQueue other request (by simp [queue]) with isExit | ⟨sent, _⟩
        · simp [isExit.msgType, acceptorMsgTypes] at isRequest
        · exact numbers.noNumber_le (wire.requests other request sent isRequest)
      have recordsOf {changed : Acceptor} (ordered : ∀ inst record,
          changed.acceptHistory.lookup inst = some record → record.accp ≤ record.prep)
          (acceptor : ℕ) (inst : WithBot ℕ) (record : AcceptRecord)
          (found : (Function.update group.acceptors other changed acceptor).acceptHistory.lookup
            inst = some record) : record.accp ≤ record.prep := by
        by_cases here : acceptor = other
        · subst here
          rw [Function.update_self] at found
          exact ordered inst record found
        · rw [Function.update_of_ne here] at found
          exact below.records acceptor inst record found
      cases turn with
      | duplicate | silent | ended | failed =>
          refine ⟨recordsOf (below.records other), ?_⟩
          rw [Group.commitAcceptor_sent, Option.toList_none, List.append_nil]
          exact below.nacks
      | replied isRequest fresh reply after handled proposer origin connected =>
          have ordered := below.records other
          refine ⟨recordsOf fun inst record found =>
            handled.ordered (known isRequest) ordered found, fun server msg member isNack => ?_⟩
          rcases List.mem_append.mp member with old | new
          · exact below.nacks server msg old isNack
          · rcases Prod.mk.inj (List.mem_singleton.mp new) with ⟨rfl, rfl⟩
            exact handled.nack_lt ordered isNack

theorem acceptedBelow_reachable (reached : cfg.Reachable group) : AcceptedBelow group :=
  reached.invariant (AcceptedBelow.initial cfg) fun _ _ _ before below taken =>
    below.keep (wire_reachable before) (numbers_reachable before) (transition_of_step taken)

end Accepted

/-! ### What is found on a queue -/

/-- The reply answers a request the server itself has sent, for an instance and a
number it has reached; a PREPARE_NACK reports an ACCEPT with a lower number. -/
structure AnswersPast (group : Group) (server : ℕ) (msg : Message) : Prop where
  request : ∃ acceptor, ∃ request ∈ group.broadcasts, (acceptor, request) ∈ group.sent ∧
    request.originId = some server ∧ request.inst = msg.inst ∧
    request.proposal = msg.proposal ∧
    request.msgType = if msg.msgType = .ACCEPT_ACK then .ACCEPT else .PREPARE
  inst : msg.inst ≤ (group.proposers server).inst
  number : msg.proposal ≤ (group.proposers server).proposerNum
  nack : msg.msgType = .PREPARE_NACK → ∃ accept ∈ group.broadcasts,
    accept.msgType = .ACCEPT ∧ accept.inst = msg.inst ∧ accept.proposal = msg.rProposal ∧
    accept.value = msg.value ∧ accept.clientId = msg.clientId ∧ accept.proposal < msg.proposal

/-- The exceptions raised over a message: a client id is missing, an instance is
not reached, or a type is not expected. -/
def Raised.OverMessage (error : Raised) : Prop :=
  error = .clientIdMissing ∨ error = .laterInstance ∨ error = .wrongMessage

section Queue

variable {cfg : Config} {group next : Group} {label : Label} {server : ℕ} {msg : Message}

theorem answersPast (reached : cfg.Reachable group) (sent : (server, msg) ∈ group.sent)
    (kind : msg.msgType ∈ proposerMsgTypes) : AnswersPast group server msg := by
  have wire := wire_reachable reached
  have replies := replies_reachable reached
  rcases replies.answers server msg sent kind with ⟨acceptor, request, answered⟩
  have requestKind : request.msgType =
      if msg.msgType = .ACCEPT_ACK then .ACCEPT else .PREPARE := by
    rcases answered.kind with ⟨isAck, isAccept, _⟩ | ⟨isAck | isNack, isPrepare⟩
    · rw [if_pos isAck, isAccept]
    · rw [if_neg (by simp [isAck]), isPrepare]
    · rw [if_neg (by simp [isNack]), isPrepare]
  have among : request ∈ group.broadcasts := by
    apply wire.requests acceptor request answered.sent
    rw [requestKind]
    split <;> simp [acceptorMsgTypes]
  refine ⟨⟨acceptor, request, among, answered.sent, answered.requestOrigin, answered.inst.symm,
    answered.proposal.symm, requestKind⟩, ?_, ?_, fun isNack => ?_⟩
  · rw [answered.inst]
    exact timely_reachable reached server request among answered.requestOrigin
  · rw [answered.proposal]
    exact ((numbers_reachable reached).servers server).bound request among answered.requestOrigin
  · rcases replies.nacks server msg sent isNack with
      ⟨other, accept, acceptSent, isAccept, inst, number, value, clientId⟩
    refine ⟨accept, ?_, isAccept, inst, number, value, clientId, ?_⟩
    · exact wire.requests other accept acceptSent (by simp [isAccept, acceptorMsgTypes])
    · rw [number]
      exact (acceptedBelow_reachable reached).nacks server msg sent isNack

/-- What a proposer has met when it raises an exception over a message. -/
theorem ProposerMove.raised_cases {groupSize : ℕ} {proposer : Proposer} {taken : Option Message}
    {result : Proposer × Output} (move : ProposerMove groupSize server proposer taken result)
    {error : Raised} (overMessage : error.OverMessage)
    (raised : result.1.status = .raised error) :
    proposer.status = .raised error ∨
      (proposer.state = .ACCEPT ∧ proposer.learntClient = none) ∨
      ∃ msg, taken = some msg ∧ (¬ msg.inst ≤ proposer.inst ∨
        (msg.msgType ∉ proposerMsgTypes ∧ msg.msgType ≠ .EXIT) ∨
        (proposer.state = .ACCEPTING ∧ CountedAck proposer msg ∧ msg.clientId = none)) := by
  have resolved {msg : Message} (state : ProposerState)
      (failed : ((proposer.won groupSize msg state).resolve msg).status = .raised error) :
      proposer.status = .raised error := by
    rcases resolve_cases (proposer.won groupSize msg state) msg with
      ⟨other, executed, same⟩ | ⟨lockSet, _, same⟩
    · rw [same] at failed
      obtain rfl : other = error := ProcessStatus.raised.inj failed
      unfold executeCommand at executed
      rcases overMessage with rfl | rfl | rfl <;> (repeat' split at executed) <;> cases executed
    · rw [same] at failed
      simp only [Proposer.executed] at failed
      split at failed
      · cases failed
      · exact failed
  cases move with
  | ready | accept | proposingTimeout | acceptingTimeout => exact .inl raised
  | acceptRaised accepting missing => exact .inr (.inl ⟨accepting, missing⟩)
  | proposing address msg state after outcome =>
      cases outcome with
      | refused | unchanged | passed | exited | counted => exact .inl raised
      | raised other notExit => exact .inr (.inr ⟨msg, rfl, .inr (.inl ⟨other, notExit⟩)⟩)
      | blocked | won =>
          rcases learn_eq ((proposer.remember msg).countReply address msg) with ⟨_, _, same⟩
          rw [same] at raised
          exact .inl raised
  | accepting msg state result outcome =>
      cases outcome with
      | unchanged | passed | exited | counted => exact .inl raised
      | raisedLater later => exact .inr (.inr ⟨msg, rfl, .inl later⟩)
      | raisedOther other notExit => exact .inr (.inr ⟨msg, rfl, .inr (.inl ⟨other, notExit⟩)⟩)
      | lost lostError ack many own kind =>
          obtain rfl : lostError = error := ProcessStatus.raised.inj raised
          rcases kind with rfl | ⟨_, missing⟩
          · rcases overMessage with impossible | impossible | impossible <;> cases impossible
          · exact .inr (.inr ⟨msg, rfl, .inr (.inr ⟨state, ack, missing⟩)⟩)
      | own => exact .inl (resolved .IDLE raised)
      | other => exact .inl (resolved .READY raised)

/-- No message a proposer meets makes it raise an exception. -/
theorem not_raised_overMessage (reached : cfg.Reachable group) {error : Raised}
    (overMessage : error.OverMessage) :
    ∀ server, (group.proposers server).status ≠ .raised error := by
  refine @Machine.Reachable.invariant _ _ _ (fun state : Group => ∀ server,
    (state.proposers server).status ≠ .raised error) ?_ ?_ _ reached
  · intro server raised
    cases raised
  intro group label next before fine taken server raised
  have onlyIn {other : ℕ} {changed : Proposer} (own : changed.status ≠ .raised error) :=
    (Function.forall_update_iff group.proposers fun _ (after : Proposer) =>
      after.status ≠ .raised error).mpr ⟨own, fun server (_ : server ≠ other) => fine server⟩
  cases transition_of_step taken with
  | network _ move => exact fine server (move.proposers ▸ raised)
  | clientSend | clientRecv | acceptor => exact fine server raised
  | acceptClient other | closeClient other | recvClient other =>
      refine onlyIn ?_ server raised
      exact fun failed => fine other failed
  | idleExit other => exact onlyIn (by simp) server raised
  | proposer other queue found result runs fewer queued move =>
      rw [Group.commit_proposers] at raised
      refine onlyIn ?_ server raised
      intro failed
      have wire := wire_reachable before
      have replies := replies_reachable before
      rcases refines_reachable before with ⟨ledger, _, refines⟩
      rcases move.raised_cases overMessage failed with
        old | ⟨accepting, missing⟩ | ⟨msg, isTaken, met⟩
      · exact fine other old
      · rcases (refines.replicas other).accepting (.inl accepting) with ⟨entry, _, learnt⟩
        rw [Proposer.Learnt, Entry.resolution, missing] at learnt
        cases (Prod.mk.inj learnt).2
      · have inQueue := queued msg isTaken
        rcases wire.proposerQueue other msg inQueue with isExit | ⟨sent, isReply⟩
        · rcases met with later | ⟨_, notExit⟩ | ⟨_, ack, _⟩
          · rcases isExit with ⟨clientId, rfl⟩
            exact later bot_le
          · exact notExit isExit.msgType
          · exact absurd (isExit.msgType.symm.trans ack.msgType) (by decide)
        · rcases met with later | ⟨notReply, _⟩ | ⟨accepting, ack, missing⟩
          · exact later (answersPast before sent isReply).inst
          · exact notReply isReply
          · rcases (refines.replicas other).accepting (.inr accepting) with ⟨entry, found, _⟩
            have client := refines.ack_client wire replies inQueue ack found
            rw [missing] at client
            cases client

/-- Every reply on its way to a proposer or on its queue answers a request of its
own past, and no message a proposer meets makes it raise an exception. -/
theorem no_reply_from_future (reached : cfg.Reachable group) :
    (∀ server msg, (server, msg) ∈ group.flight ∨ msg ∈ group.proposerQueue server →
      msg.msgType ∈ proposerMsgTypes → AnswersPast group server msg) ∧
      ∀ server error, (group.proposers server).status = .raised error → ¬ error.OverMessage := by
  have wire := wire_reachable reached
  constructor
  · rintro server msg (flying | queued) kind
    · exact answersPast reached (wire.flight _ flying) kind
    · exact answersPast reached (wire.sent_of_queued queued kind) kind
  · intro server error raised overMessage
    exact not_raised_overMessage reached overMessage server raised

/-- Server 1 has a PREPARE_NACK of server 2 on its queue. -/
theorem no_reply_from_future_learnt :
    (∀ server msg, (server, msg) ∈ (twoLocks.after (learntRun.take 31)).flight ∨
        msg ∈ (twoLocks.after (learntRun.take 31)).proposerQueue server →
      msg.msgType ∈ proposerMsgTypes →
        AnswersPast (twoLocks.after (learntRun.take 31)) server msg) ∧
      ∀ server error, ((twoLocks.after (learntRun.take 31)).proposers server).status =
        .raised error → ¬ error.OverMessage :=
  no_reply_from_future (Config.reachable_after _ _)

end Queue

end CSE550.Paxos
