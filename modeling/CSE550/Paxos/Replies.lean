import CSE550.Paxos.Numbers

/-!
Owns what a reply proves: which request it answers, which accepted value a
PREPARE_NACK reports, that an acceptor answers a request once, and that it
grants an instance once.

A *grant* is the PREPARE_ACK an acceptor sends for an instance it has no record
of. It is the only PREPARE_ACK whose client id is not `None`, hence the only one
PROPOSING counts; the agreement proof rests on its uniqueness.
-/

namespace CSE550.Paxos

open CSE550.Lib

/-- The message is a countable PREPARE_ACK of the acceptor for the instance. -/
structure IsGrant (acceptor : ℕ) (inst : WithBot ℕ) (msg : Message) : Prop where
  msgType : msg.msgType = .PREPARE_ACK
  clientId : msg.clientId ≠ none
  inst : msg.inst = inst
  origin : msg.originId = some acceptor

/-- An ACCEPT for the instance with these contents was sent to the acceptor. -/
def AcceptSent (group : Group) (acceptor : ℕ) (inst : WithBot ℕ) (number : WithBot ℤ)
    (value : Value) (clientId : Option ℤ) : Prop :=
  ∃ accept, (acceptor, accept) ∈ group.sent ∧ accept.msgType = .ACCEPT ∧ accept.inst = inst ∧
    accept.proposal = number ∧ accept.value = value ∧ accept.clientId = clientId

/-- The acceptor answered `request` of `server` with `msg`. -/
structure Answered (cfg : Config) (group : Group) (server : ℕ) (msg : Message) (acceptor : ℕ)
    (request : Message) : Prop where
  isServer : acceptor < cfg.groupSize
  origin : msg.originId = some acceptor
  sent : (acceptor, request) ∈ group.sent
  processed : request.signature ∈ (group.acceptors acceptor).msgHistory
  requestOrigin : request.originId = some server
  proposal : msg.proposal = request.proposal
  inst : msg.inst = request.inst
  kind : (msg.msgType = .ACCEPT_ACK ∧ request.msgType = .ACCEPT ∧ msg.value = request.value ∧
      msg.clientId = request.clientId) ∨
    ((msg.msgType = .PREPARE_ACK ∨ msg.msgType = .PREPARE_NACK) ∧ request.msgType = .PREPARE)

/-- Both messages acknowledge an ACCEPT, or neither does. -/
def SamePhase (left right : Message) : Prop :=
  left.msgType = .ACCEPT_ACK ↔ right.msgType = .ACCEPT_ACK

/-- What acceptors have sent and recorded. -/
structure Replies (cfg : Config) (group : Group) : Prop where
  answers : ∀ server msg, (server, msg) ∈ group.sent → msg.msgType ∈ proposerMsgTypes →
    ∃ acceptor request, Answered cfg group server msg acceptor request
  records : ∀ acceptor inst record,
    (group.acceptors acceptor).acceptHistory.lookup inst = some record →
      (record.accp = noNumber ∧ record.cid = none) ∨
        AcceptSent group acceptor inst record.accp record.accv record.cid
  nacks : ∀ server msg, (server, msg) ∈ group.sent → msg.msgType = .PREPARE_NACK →
    ∃ acceptor, AcceptSent group acceptor msg.inst msg.rProposal msg.value msg.clientId
  granted : ∀ server acceptor inst msg, (server, msg) ∈ group.sent → IsGrant acceptor inst msg →
    (group.acceptors acceptor).acceptHistory.lookup inst ≠ none
  grantOnce : ∀ first second acceptor inst left right, (first, left) ∈ group.sent →
    (second, right) ∈ group.sent → IsGrant acceptor inst left → IsGrant acceptor inst right →
      first = second ∧ left = right
  replyOnce : ∀ server left right, (server, left) ∈ group.sent → (server, right) ∈ group.sent →
    left.msgType ∈ proposerMsgTypes → right.msgType ∈ proposerMsgTypes →
    left.originId = right.originId → left.proposal = right.proposal → SamePhase left right →
      left = right

theorem Replies.initial (cfg : Config) : Replies cfg cfg.initial := by
  constructor <;> simp [Config.initial, Config.initialAcceptor]

section Keep

variable {cfg : Config} {group next : Group}

theorem AcceptSent.grow {acceptor : ℕ} {inst : WithBot ℕ} {number : WithBot ℤ} {value : Value}
    {clientId : Option ℤ} (sent : AcceptSent group acceptor inst number value clientId)
    (grown : ∀ packet ∈ group.sent, packet ∈ next.sent) :
    AcceptSent next acceptor inst number value clientId := by
  obtain ⟨accept, member, rest⟩ := sent
  exact ⟨accept, grown _ member, rest⟩

theorem Answered.grow {server acceptor : ℕ} {msg request : Message}
    (answered : Answered cfg group server msg acceptor request)
    (grown : ∀ packet ∈ group.sent, packet ∈ next.sent)
    (histories : ∀ other, ∀ signature ∈ (group.acceptors other).msgHistory,
      signature ∈ (next.acceptors other).msgHistory) :
    Answered cfg next server msg acceptor request :=
  { answered with
    sent := grown _ answered.sent
    processed := histories acceptor _ answered.processed }

/-- Steps that send requests only and leave the acceptors alone. -/
private theorem Replies.keep_requests (replies : Replies cfg group)
    (acceptors : next.acceptors = group.acceptors)
    (grown : ∀ packet ∈ group.sent, packet ∈ next.sent)
    (requests : ∀ packet ∈ next.sent, packet ∈ group.sent ∨
      packet.2.msgType ∉ proposerMsgTypes) : Replies cfg next := by
  have old {server : ℕ} {msg : Message} (member : (server, msg) ∈ next.sent)
      (kind : msg.msgType ∈ proposerMsgTypes) : (server, msg) ∈ group.sent :=
    (requests _ member).resolve_right fun other => other kind
  have grantKind {acceptor : ℕ} {inst : WithBot ℕ} {msg : Message}
      (grant : IsGrant acceptor inst msg) : msg.msgType ∈ proposerMsgTypes := by
    simp [proposerMsgTypes, grant.msgType]
  refine ⟨?_, ?_, ?_, ?_, ?_, ?_⟩
  · intro server msg member kind
    obtain ⟨acceptor, request, answered⟩ := replies.answers server msg (old member kind) kind
    exact ⟨acceptor, request, answered.grow grown (by simp [acceptors])⟩
  · intro acceptor inst record found
    rw [acceptors] at found
    exact (replies.records acceptor inst record found).imp_right fun sent => sent.grow grown
  · intro server msg member kind
    obtain ⟨acceptor, sent⟩ :=
      replies.nacks server msg (old member (by simp [proposerMsgTypes, kind])) kind
    exact ⟨acceptor, sent.grow grown⟩
  · intro server acceptor inst msg member grant
    rw [acceptors]
    exact replies.granted server acceptor inst msg (old member (grantKind grant)) grant
  · intro first second acceptor inst left right leftIn rightIn leftGrant rightGrant
    exact replies.grantOnce first second acceptor inst left right
      (old leftIn (grantKind leftGrant)) (old rightIn (grantKind rightGrant)) leftGrant rightGrant
  · intro server left right leftIn rightIn leftKind rightKind
    exact replies.replyOnce server left right (old leftIn leftKind) (old rightIn rightKind)
      leftKind rightKind

/-- Turns of an acceptor without a reply. -/
private theorem Replies.keep_silent (replies : Replies cfg group)
    (sent : next.sent = group.sent)
    (histories : ∀ other, ∀ signature ∈ (group.acceptors other).msgHistory,
      signature ∈ (next.acceptors other).msgHistory)
    (records : ∀ other, (next.acceptors other).acceptHistory =
      (group.acceptors other).acceptHistory) : Replies cfg next := by
  have grown : ∀ packet ∈ group.sent, packet ∈ next.sent := by simp [sent]
  refine ⟨?_, ?_, ?_, ?_, ?_, ?_⟩
  · intro server msg member kind
    rw [sent] at member
    obtain ⟨acceptor, request, answered⟩ := replies.answers server msg member kind
    exact ⟨acceptor, request, answered.grow grown histories⟩
  · intro acceptor inst record found
    rw [records] at found
    exact (replies.records acceptor inst record found).imp_right fun old => old.grow grown
  · intro server msg member kind
    rw [sent] at member
    obtain ⟨acceptor, old⟩ := replies.nacks server msg member kind
    exact ⟨acceptor, old.grow grown⟩
  · intro server acceptor inst msg member grant
    rw [records]
    exact replies.granted server acceptor inst msg (sent ▸ member) grant
  · rw [sent]
    exact replies.grantOnce
  · rw [sent]
    exact replies.replyOnce

end Keep

section Reply

variable {cfg : Config} {group : Group}

/-- An acceptor has sent no reply of the same phase with the same number before:
the request would be in its history. -/
theorem Replies.no_twin (replies : Replies cfg group) (wire : Wire cfg group)
    (numbers : Numbers cfg group) {acceptor proposer : ℕ} {request reply msg : Message}
    {after : AcceptHistory} (requestSent : (acceptor, request) ∈ group.sent)
    (isRequest : request.msgType ∈ acceptorMsgTypes)
    (fresh : request.signature ∉ (group.acceptors acceptor).msgHistory)
    (handled : RequestOutcome acceptor (group.acceptors acceptor).acceptHistory request reply
      after)
    (member : (proposer, msg) ∈ group.sent) (kind : msg.msgType ∈ proposerMsgTypes)
    (sameOrigin : msg.originId = reply.originId) (sameNumber : msg.proposal = reply.proposal) :
    ¬ SamePhase msg reply := by
  intro samePhase
  obtain ⟨_, replyOrigin, replyNumber, _⟩ := handled.reply_fields
  obtain ⟨sender, earlier, answered⟩ := replies.answers proposer msg member kind
  obtain rfl : sender = acceptor :=
    Option.some.inj (answered.origin.symm.trans (sameOrigin.trans replyOrigin))
  have earlierRequest : earlier.msgType ∈ acceptorMsgTypes := by
    rcases answered.kind with ⟨_, isAccept, _⟩ | ⟨_, isPrepare⟩ <;>
      simp [acceptorMsgTypes, *]
  have sameKind : earlier.msgType = request.msgType := by
    unfold SamePhase at samePhase
    cases handled <;> rcases answered.kind with ⟨isAck, isAccept, _⟩ | ⟨isOther, isPrepare⟩ <;>
      simp_all [acceptAck, acceptorMsgTypes]
  have same : earlier = request := numbers.broadcast_unique
    (wire.requests _ _ answered.sent earlierRequest)
    (wire.requests _ _ requestSent isRequest) sameKind
    (answered.proposal.symm.trans (sameNumber.trans replyNumber))
  exact fresh (same ▸ answered.processed)

/-- An acceptor's turn with a reply. -/
private theorem Replies.keep_reply (replies : Replies cfg group) (wire : Wire cfg group)
    (numbers : Numbers cfg group) {acceptor proposer : ℕ} {request reply : Message}
    {rest : List Message} {after : AcceptHistory} (runs : group.acceptorRuns cfg acceptor)
    (queue : group.acceptorQueue acceptor = request :: rest)
    (isRequest : request.msgType ∈ acceptorMsgTypes)
    (fresh : request.signature ∉ (group.acceptors acceptor).msgHistory)
    (handled : RequestOutcome acceptor (group.acceptors acceptor).acceptHistory request reply
      after)
    (origin : request.originId = some proposer) :
    Replies cfg ((group.setAcceptorQueue acceptor rest).commitAcceptor acceptor
      ({ (group.acceptors acceptor).remember request with acceptHistory := after },
        some (proposer, reply))) := by
  set next := (group.setAcceptorQueue acceptor rest).commitAcceptor acceptor
    ({ (group.acceptors acceptor).remember request with acceptHistory := after },
      some (proposer, reply)) with nextDef
  obtain ⟨replyKind, replyOrigin, replyNumber, replyInst⟩ := handled.reply_fields
  have sent : next.sent = group.sent ++ [(proposer, reply)] := rfl
  have grown : ∀ packet ∈ group.sent, packet ∈ next.sent := fun packet member =>
    List.mem_append_left _ member
  have requestSent : (acceptor, request) ∈ group.sent := by
    rcases wire.acceptorQueue acceptor request (by simp [queue]) with isExit | ⟨member, _⟩
    · simp [isExit.msgType, acceptorMsgTypes] at isRequest
    · exact member
  have self : next.acceptors acceptor =
      { (group.acceptors acceptor).remember request with acceptHistory := after } := by
    simp [nextDef]
  have others {other : ℕ} (different : other ≠ acceptor) :
      next.acceptors other = group.acceptors other := by
    simp [nextDef, different]
  have histories : ∀ other, ∀ signature ∈ (group.acceptors other).msgHistory,
      signature ∈ (next.acceptors other).msgHistory := by
    intro other signature member
    by_cases same : other = acceptor
    · subst same
      rw [self]
      exact List.mem_cons_of_mem _ member
    · rwa [others same]
  have noTwin : ∀ msg, (proposer, msg) ∈ group.sent → msg.msgType ∈ proposerMsgTypes →
      msg.originId = reply.originId → msg.proposal = reply.proposal → ¬ SamePhase msg reply :=
    fun msg => replies.no_twin wire numbers requestSent isRequest fresh handled
  have noEarlierGrant : ∀ server msg inst, (server, msg) ∈ group.sent →
      IsGrant acceptor inst msg → ¬ IsGrant acceptor inst reply := by
    intro server msg inst member grant again
    have recorded := replies.granted server acceptor inst msg member grant
    cases handled with
    | granted prepare unseen => exact recorded (again.inst ▸ unseen)
    | promised prepare record known higher nothing =>
        rcases replies.records _ _ _ known with
          ⟨_, noClient⟩ | ⟨accept, acceptSent, kind, _, number, _⟩
        · exact again.clientId noClient
        · obtain ⟨_, _, steps, _, residue⟩ := numbers.residues accept
            (wire.requests _ _ acceptSent (by simp [kind, acceptorMsgTypes]))
          have impossible := number.symm.trans residue
          rw [nothing] at impossible
          have := WithBot.coe_injective impossible
          have : (0 : ℤ) ≤ (steps : ℤ) * cfg.groupSize := by positivity
          omega
    | refused => exact absurd again.msgType (by simp)
    | accepted => exact absurd again.msgType (by simp [acceptAck])
  refine ⟨?_, ?_, ?_, ?_, ?_, ?_⟩
  · intro server msg member kind
    rcases List.mem_append.mp (sent ▸ member) with old | new
    · obtain ⟨sender, earlier, answered⟩ := replies.answers server msg old kind
      exact ⟨sender, earlier, answered.grow grown histories⟩
    · obtain ⟨rfl, rfl⟩ := Prod.mk.inj (List.mem_singleton.mp new)
      refine ⟨acceptor, request, runs.1, replyOrigin, grown _ requestSent, ?_, origin, replyNumber,
        replyInst, ?_⟩
      · rw [self]
        exact List.mem_cons_self
      · cases handled with
        | granted prepare | promised prepare | refused prepare => simp [prepare]
        | accepted accept =>
            left
            simpa [acceptAck, acceptorMsgTypes, accept] using isRequest
  · intro other inst record found
    by_cases same : other = acceptor
    · subst same
      rw [self] at found
      rcases handled.lookup_cases inst with ⟨_, unchanged⟩ | ⟨rfl, _⟩
      · rw [unchanged] at found
        exact (replies.records _ _ _ found).imp_right fun old => old.grow grown
      · cases handled with
        | granted prepare unseen =>
            obtain rfl := Option.some.inj ((AList.lookup_insert _).symm.trans found)
            exact .inl ⟨rfl, rfl⟩
        | promised prepare earlier known | refused prepare earlier known =>
            obtain rfl := Option.some.inj ((AList.lookup_insert _).symm.trans found)
            exact (replies.records _ _ _ known).imp_right fun old => old.grow grown
        | accepted accept =>
            obtain rfl := Option.some.inj ((AList.lookup_insert _).symm.trans found)
            refine .inr ⟨request, grown _ requestSent, ?_, rfl, rfl, rfl, rfl⟩
            simpa [acceptorMsgTypes, accept] using isRequest
    · rw [others same] at found
      exact (replies.records _ _ _ found).imp_right fun old => old.grow grown
  · intro server msg member kind
    rcases List.mem_append.mp (sent ▸ member) with old | new
    · obtain ⟨sender, accepted⟩ := replies.nacks server msg old kind
      exact ⟨sender, accepted.grow grown⟩
    · obtain ⟨rfl, rfl⟩ := Prod.mk.inj (List.mem_singleton.mp new)
      cases handled with
      | granted | promised => cases kind
      | accepted => simp [acceptAck] at kind
      | refused prepare record known higher something =>
          rcases replies.records _ _ _ known with ⟨nothing, _⟩ | accepted
          · exact absurd nothing something
          · exact ⟨acceptor, accepted.grow grown⟩
  · intro server other inst msg member grant
    by_cases same : other = acceptor
    · subst same
      rw [self]
      rcases handled.lookup_cases inst with ⟨elsewhere, unchanged⟩ | ⟨_, record, found⟩
      · rcases List.mem_append.mp (sent ▸ member) with old | new
        · rw [unchanged]
          exact replies.granted server _ inst msg old grant
        · obtain ⟨rfl, rfl⟩ := Prod.mk.inj (List.mem_singleton.mp new)
          exact absurd (grant.inst.symm.trans replyInst) elsewhere
      · simp [found]
    · rw [others same]
      rcases List.mem_append.mp (sent ▸ member) with old | new
      · exact replies.granted server other inst msg old grant
      · obtain ⟨rfl, rfl⟩ := Prod.mk.inj (List.mem_singleton.mp new)
        exact absurd (Option.some.inj (grant.origin.symm.trans replyOrigin)) same
  · intro first second other inst left right leftIn rightIn leftGrant rightGrant
    have ownGrant {server : ℕ} {msg : Message} (new : (server, msg) ∈ [(proposer, reply)])
        (grant : IsGrant other inst msg) :
        server = proposer ∧ msg = reply ∧ other = acceptor ∧ IsGrant acceptor inst reply := by
      obtain ⟨rfl, rfl⟩ := Prod.mk.inj (List.mem_singleton.mp new)
      obtain rfl := Option.some.inj (grant.origin.symm.trans replyOrigin)
      exact ⟨rfl, rfl, rfl, grant⟩
    rcases List.mem_append.mp (sent ▸ leftIn) with leftOld | leftNew <;>
      rcases List.mem_append.mp (sent ▸ rightIn) with rightOld | rightNew
    · exact replies.grantOnce first second other inst left right leftOld rightOld leftGrant
        rightGrant
    · obtain ⟨rfl, rfl, rfl, grant⟩ := ownGrant rightNew rightGrant
      exact absurd grant (noEarlierGrant first left inst leftOld leftGrant)
    · obtain ⟨rfl, rfl, rfl, grant⟩ := ownGrant leftNew leftGrant
      exact absurd grant (noEarlierGrant second right inst rightOld rightGrant)
    · obtain ⟨rfl, rfl, _⟩ := ownGrant leftNew leftGrant
      obtain ⟨rfl, rfl, _⟩ := ownGrant rightNew rightGrant
      exact ⟨rfl, rfl⟩
  · intro server left right leftIn rightIn leftKind rightKind sameOrigin sameNumber samePhase
    rcases List.mem_append.mp (sent ▸ leftIn) with leftOld | leftNew <;>
      rcases List.mem_append.mp (sent ▸ rightIn) with rightOld | rightNew
    · exact replies.replyOnce server left right leftOld rightOld leftKind rightKind sameOrigin
        sameNumber samePhase
    · obtain ⟨rfl, rfl⟩ := Prod.mk.inj (List.mem_singleton.mp rightNew)
      exact absurd samePhase (noTwin left leftOld leftKind sameOrigin sameNumber)
    · obtain ⟨rfl, rfl⟩ := Prod.mk.inj (List.mem_singleton.mp leftNew)
      exact absurd samePhase.symm (noTwin right rightOld rightKind sameOrigin.symm sameNumber.symm)
    · obtain ⟨rfl, rfl⟩ := Prod.mk.inj (List.mem_singleton.mp leftNew)
      obtain ⟨_, rfl⟩ := Prod.mk.inj (List.mem_singleton.mp rightNew)
      rfl

end Reply

theorem Replies.keep {cfg : Config} {group next : Group} {label : Label}
    (replies : Replies cfg group) (wire : Wire cfg group) (numbers : Numbers cfg group)
    (transition : Transition cfg group label next) : Replies cfg next := by
  cases transition with
  | network next move =>
      exact replies.keep_requests move.acceptors (by simp [move.sent])
        fun packet member => .inl (move.sent ▸ member)
  | clientSend | clientRecv | acceptClient | closeClient | recvClient | idleExit =>
      exact replies.keep_requests rfl (fun _ member => member) fun _ member => .inl member
  | proposer server queue taken result runs fewer queued move =>
      refine replies.keep_requests (by simp) ?_ ?_
      · intro packet member
        simp only [Group.commit_sent, List.mem_append]
        exact .inl member
      · rintro ⟨target, msg⟩ member
        simp only [Group.commit_sent, List.mem_append] at member
        refine member.imp_right fun new => acceptorMsgTypes_not_proposer ?_
        rcases move.broadcast_cases (move.packet_cases new).1 with ⟨_, rfl⟩ | ⟨_, rfl⟩
        · exact prepareMsg_request _ _
        · exact acceptMsg_request _ _
  | acceptor server msg rest result runs queue turn =>
      have unchanged {changed : Acceptor}
          (history : ∀ signature ∈ (group.acceptors server).msgHistory,
            signature ∈ changed.msgHistory)
          (records : changed.acceptHistory = (group.acceptors server).acceptHistory) :
          Replies cfg
            ((group.setAcceptorQueue server rest).commitAcceptor server (changed, none)) := by
        refine replies.keep_silent (List.append_nil _) ?_
          (read_update Acceptor.acceptHistory records)
        intro other
        by_cases same : other = server
        · subst same
          simpa using history
        · simp [same]
      cases turn with
      | duplicate | ended => exact unchanged (fun _ member => member) rfl
      | silent | failed => exact unchanged (fun _ member => List.mem_cons_of_mem _ member) rfl
      | replied request fresh reply after handled proposer origin connected =>
          exact replies.keep_reply wire numbers runs queue request fresh handled origin

theorem replies_reachable {cfg : Config} {group : Group} (reached : cfg.Reachable group) :
    Replies cfg group :=
  reached.invariant (Replies.initial cfg) fun _ _ _ earlier replies taken =>
    replies.keep (wire_reachable earlier) (numbers_reachable earlier) (transition_of_step taken)

end CSE550.Paxos
