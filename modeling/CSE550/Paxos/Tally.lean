import CSE550.Lib.Quorum
import CSE550.Paxos.Replies

/-!
Owns what the response counts mean: in PROPOSING every counted reply is a grant
of another acceptor or a stored PREPARE_NACK, in ACCEPTING every counted reply
is an acknowledgement of another acceptor for the current round.

A count of messages is a count of acceptors because an acceptor sends at most
one message of each of these kinds and the duplicate filter admits it once.
-/

namespace CSE550.Paxos

open CSE550.Lib

/-- The message answers the PREPARE with the number for the instance. -/
structure IsReply (acceptor : ℕ) (inst : WithBot ℕ) (number : WithBot ℤ) (msg : Message) :
    Prop where
  msgType : msg.msgType = .PREPARE_ACK ∨ msg.msgType = .PREPARE_NACK
  inst : msg.inst = inst
  proposal : msg.proposal = number
  origin : msg.originId = some acceptor

/-- The message answers the ACCEPT with the number for the instance. -/
structure IsAck (acceptor : ℕ) (inst : WithBot ℕ) (number : WithBot ℤ) (msg : Message) :
    Prop where
  msgType : msg.msgType = .ACCEPT_ACK
  inst : msg.inst = inst
  proposal : msg.proposal = number
  origin : msg.originId = some acceptor

/-- A message of the kind from the acceptor is in the proposer's history. -/
def Proposer.Seen (proposer : Proposer) (kind : ℕ → Message → Prop) (acceptor : ℕ) : Prop :=
  ∃ msg, kind acceptor msg ∧ msg.signature ∈ proposer.msgHistory

theorem Proposer.Seen.mono {before after : Proposer} {kind : ℕ → Message → Prop} {acceptor : ℕ}
    (seen : before.Seen kind acceptor)
    (grown : ∀ signature ∈ before.msgHistory, signature ∈ after.msgHistory) :
    after.Seen kind acceptor := by
  obtain ⟨msg, isKind, member⟩ := seen
  exact ⟨msg, isKind, grown _ member⟩

/-- The acceptors of a group. -/
abbrev Config.acceptorIds (cfg : Config) : Finset ℕ := Finset.range cfg.groupSize

section Provenance

variable {cfg : Config} {group : Group} {server : ℕ}

/-- A message whose signature is in a proposer's history was sent to it. -/
theorem Wire.sent_of_seen (wire : Wire cfg group) {msg : Message}
    (member : msg.signature ∈ (group.proposers server).msgHistory) :
    (server, msg) ∈ group.sent ∧ msg.msgType ∈ proposerMsgTypes := by
  obtain ⟨found, sent, kind, same⟩ := wire.proposerHistory server _ member
  obtain rfl := Message.signature_injective same
  exact ⟨sent, kind⟩

/-- A reply on a proposer's queue was sent to it. -/
theorem Wire.sent_of_queued (wire : Wire cfg group) {msg : Message}
    (member : msg ∈ group.proposerQueue server) (kind : msg.msgType ∈ proposerMsgTypes) :
    (server, msg) ∈ group.sent := by
  rcases wire.proposerQueue server msg member with isExit | ⟨sent, _⟩
  · simp [isExit.msgType, proposerMsgTypes] at kind
  · exact sent

theorem CountedReply.kind {proposer : Proposer} {msg : Message}
    (reply : CountedReply proposer msg) : msg.msgType ∈ proposerMsgTypes := by
  rcases reply.msgType with isAck | isNack <;> simp [proposerMsgTypes, *]

theorem CountedAck.kind {proposer : Proposer} {msg : Message} (ack : CountedAck proposer msg) :
    msg.msgType ∈ proposerMsgTypes := by
  simp [proposerMsgTypes, ack.msgType]

/-- A reply names a server of the group. -/
theorem Replies.origin_bound (replies : Replies cfg group) {msg : Message}
    (sent : (server, msg) ∈ group.sent) (kind : msg.msgType ∈ proposerMsgTypes) :
    ∃ acceptor ∈ cfg.acceptorIds, msg.originId = some acceptor := by
  obtain ⟨acceptor, request, answered⟩ := replies.answers server msg sent kind
  exact ⟨acceptor, Finset.mem_range.mpr answered.isServer, answered.origin⟩

/-- A message not yet in the history raises the count of its kind by one when an
acceptor sends the server at most one message of the kind. -/
theorem AtLeast.remember {kind : ℕ → Message → Prop} {count acceptor : ℕ} {msg : Message}
    (counted : AtLeast cfg.acceptorIds count ((group.proposers server).Seen kind))
    (wire : Wire cfg group) (isAcceptor : acceptor ∈ cfg.acceptorIds) (isKind : kind acceptor msg)
    (fresh : msg.signature ∉ (group.proposers server).msgHistory)
    (single : ∀ other, (server, other) ∈ group.sent → other.msgType ∈ proposerMsgTypes →
      kind acceptor other → other = msg) :
    AtLeast cfg.acceptorIds (count + 1) (((group.proposers server).remember msg).Seen kind) := by
  refine AtLeast.succ counted (fun _ _ seen => seen.mono fun _ => List.mem_cons_of_mem _)
    isAcceptor ⟨msg, isKind, List.mem_cons_self⟩ ?_
  rintro ⟨other, otherKind, member⟩
  obtain ⟨sent, reply⟩ := wire.sent_of_seen member
  obtain rfl := single other sent reply otherKind
  exact fresh member

end Provenance

/-! ### What a move does to a count -/

section Moves

variable {groupSize server : ℕ} {proposer : Proposer} {taken : Option Message}
  {result : Proposer × Output}

/-- How a move can end in PROPOSING: a fresh round, nothing counted, or one more
reply. -/
theorem ProposerMove.proposing_after
    (move : ProposerMove groupSize server proposer taken result)
    (state : result.1.state = .PROPOSING) :
    (result.1.responseCnt = 0 ∧ result.1.preNacks = []) ∨
      (proposer.state = .PROPOSING ∧ result.1.inst = proposer.inst ∧
        result.1.proposerNum = proposer.proposerNum ∧
        result.1.responseCnt = proposer.responseCnt ∧ result.1.preNacks = proposer.preNacks ∧
        ∀ signature ∈ proposer.msgHistory, signature ∈ result.1.msgHistory) ∨
      ∃ address msg, taken = some msg ∧ proposer.state = .PROPOSING ∧ CountedReply proposer msg ∧
        result.1 = (proposer.remember msg).countReply address msg := by
  cases move with
  | ready => exact .inl ⟨rfl, rfl⟩
  | accept | proposingTimeout | acceptingTimeout => cases state
  | acceptRaised accepting => exact absurd (accepting.symm.trans state) (by simp)
  | proposing address msg before after outcome =>
      cases outcome with
      | refused | exited => cases state
      | unchanged | raised =>
          exact .inr (.inl ⟨before, rfl, rfl, rfl, rfl, fun _ member => member⟩)
      | passed =>
          exact .inr (.inl ⟨before, rfl, rfl, rfl, rfl, fun _ => List.mem_cons_of_mem _⟩)
      | counted reply => exact .inr (.inr ⟨address, msg, rfl, before, reply, rfl⟩)
      | blocked | won => cases state
  | accepting msg before result outcome =>
      cases outcome with
      | unchanged | passed | exited | raisedOther | counted =>
          exact absurd (before.symm.trans state) (by simp)
      | raisedLater later changed same =>
          rcases same with rfl | rfl <;> exact absurd (before.symm.trans state) (by simp)
      | lost => cases state
      | own | other => simp [resolve_state, Proposer.won] at state

/-- How a move can end in ACCEPTING: a fresh round, nothing counted, or one more
acknowledgement. -/
theorem ProposerMove.accepting_after
    (move : ProposerMove groupSize server proposer taken result)
    (state : result.1.state = .ACCEPTING) :
    (result.1.responseCnt = 0 ∧ result.2.broadcasts = [result.1.acceptMsg server]) ∨
      (proposer.state = .ACCEPTING ∧ result.1.acceptMsg server = proposer.acceptMsg server ∧
        result.1.inst = proposer.inst ∧ result.1.proposerNum = proposer.proposerNum ∧
        result.1.responseCnt = proposer.responseCnt ∧
        ∀ signature ∈ proposer.msgHistory, signature ∈ result.1.msgHistory) ∨
      ∃ msg, taken = some msg ∧ proposer.state = .ACCEPTING ∧ CountedAck proposer msg ∧
        result.1 = { proposer.remember msg with responseCnt := proposer.responseCnt + 1 } := by
  cases move with
  | accept => exact .inl ⟨rfl, rfl⟩
  | ready | proposingTimeout | acceptingTimeout => cases state
  | acceptRaised accepting => exact absurd (accepting.symm.trans state) (by simp)
  | proposing address msg before after outcome =>
      cases outcome with
      | refused | exited | blocked | won => cases state
      | unchanged | passed | raised | counted =>
          exact absurd (before.symm.trans state) (by simp)
  | accepting msg before result outcome =>
      cases outcome with
      | unchanged | exited | raisedOther =>
          exact .inr (.inl ⟨before, rfl, rfl, rfl, rfl, fun _ member => member⟩)
      | passed =>
          exact .inr (.inl ⟨before, rfl, rfl, rfl, rfl, fun _ => List.mem_cons_of_mem _⟩)
      | raisedLater later changed same =>
          rcases same with rfl | rfl
          · exact .inr (.inl ⟨before, rfl, rfl, rfl, rfl, fun _ member => member⟩)
          · exact .inr (.inl ⟨before, rfl, rfl, rfl, rfl, fun _ => List.mem_cons_of_mem _⟩)
      | counted ack => exact .inr (.inr ⟨msg, rfl, before, ack, rfl⟩)
      | lost => cases state
      | own | other => simp [resolve_state, Proposer.won] at state

end Moves

/-! ### The tallies -/

/-- The replies counted in PROPOSING. -/
structure ProposingTally (cfg : Config) (sent : List (ℕ × Message)) (server : ℕ)
    (proposer : Proposer) : Prop where
  grants : ∃ grants, proposer.responseCnt = grants + proposer.preNacks.length ∧
    AtLeast cfg.acceptorIds grants (proposer.Seen (IsGrant · proposer.inst))
  nacks : ∀ nack ∈ proposer.preNacks, nack.msg.msgType = .PREPARE_NACK ∧
    nack.msg.inst = proposer.inst ∧ (server, nack.msg) ∈ sent

/-- The replies counted in ACCEPTING. -/
structure AcceptingTally (cfg : Config) (broadcasts : List Message) (server : ℕ)
    (proposer : Proposer) : Prop where
  acks : AtLeast cfg.acceptorIds proposer.responseCnt
    (proposer.Seen (IsAck · proposer.inst proposer.proposerNum))
  round : proposer.acceptMsg server ∈ broadcasts

/-- The tallies of every proposer. -/
structure Tally (cfg : Config) (group : Group) : Prop where
  proposing : ∀ server, (group.proposers server).state = .PROPOSING →
    ProposingTally cfg group.sent server (group.proposers server)
  accepting : ∀ server, (group.proposers server).state = .ACCEPTING →
    AcceptingTally cfg group.broadcasts server (group.proposers server)

section Count

variable {cfg : Config} {group : Group} {server : ℕ} {msg : Message}

/-- Counting a reply in PROPOSING. -/
theorem ProposingTally.count
    (tally : ProposingTally cfg group.sent server (group.proposers server))
    (wire : Wire cfg group) (replies : Replies cfg group)
    (queued : msg ∈ group.proposerQueue server)
    (reply : CountedReply (group.proposers server) msg) (address : ℕ) :
    ProposingTally cfg group.sent server
      (((group.proposers server).remember msg).countReply address msg) := by
  have sent := wire.sent_of_queued queued reply.kind
  obtain ⟨grants, total, counted⟩ := tally.grants
  rcases reply.msgType with isAck | isNack
  · have kept : (((group.proposers server).remember msg).countReply address msg).preNacks =
        (group.proposers server).preNacks := by
      simp [Proposer.countReply, Proposer.remember, isAck]
    refine ⟨⟨grants + 1, ?_, ?_⟩, ?_⟩
    · rw [kept, Nat.add_right_comm, ← total]
      rfl
    · obtain ⟨acceptor, isAcceptor, origin⟩ := replies.origin_bound sent reply.kind
      have grant : IsGrant acceptor (group.proposers server).inst msg :=
        ⟨isAck, reply.clientId, reply.inst, origin⟩
      exact AtLeast.remember counted wire isAcceptor grant reply.fresh
        fun other otherSent _ otherGrant =>
          (replies.grantOnce server server acceptor _ other msg otherSent sent otherGrant grant).2
    · rw [kept]
      exact tally.nacks
  · have extended : (((group.proposers server).remember msg).countReply address msg).preNacks =
        (group.proposers server).preNacks ++ [⟨msg.proposal, address, msg⟩] := by
      simp [Proposer.countReply, Proposer.remember, isNack]
    refine ⟨⟨grants, ?_, ?_⟩, ?_⟩
    · rw [extended, List.length_append, List.length_singleton, ← Nat.add_assoc, ← total]
      rfl
    · exact AtLeast.mono counted fun _ _ seen => seen.mono fun _ => List.mem_cons_of_mem _
    · rw [extended]
      intro nack member
      rcases List.mem_append.mp member with old | new
      · exact tally.nacks nack old
      · obtain rfl := List.mem_singleton.mp new
        exact ⟨isNack, reply.inst, sent⟩

/-- Counting an acknowledgement in ACCEPTING. -/
theorem AcceptingTally.count
    (tally : AcceptingTally cfg group.broadcasts server (group.proposers server))
    (wire : Wire cfg group) (replies : Replies cfg group)
    (queued : msg ∈ group.proposerQueue server)
    (ack : CountedAck (group.proposers server) msg) :
    AcceptingTally cfg group.broadcasts server
      { (group.proposers server).remember msg with
        responseCnt := (group.proposers server).responseCnt + 1 } := by
  have sent := wire.sent_of_queued queued ack.kind
  obtain ⟨acceptor, isAcceptor, origin⟩ := replies.origin_bound sent ack.kind
  refine ⟨?_, tally.round⟩
  refine AtLeast.remember tally.acks wire isAcceptor ⟨ack.msgType, ack.inst, ack.proposal, origin⟩
    ack.fresh fun other otherSent otherKind otherAck => ?_
  exact replies.replyOnce server other msg otherSent sent otherKind ack.kind
    (otherAck.origin.trans origin.symm) (otherAck.proposal.trans ack.proposal.symm)
    ⟨fun _ => ack.msgType, fun _ => otherAck.msgType⟩

end Count

section Keep

variable {cfg : Config} {group next : Group} {label : Label}

theorem Tally.initial (cfg : Config) : Tally cfg cfg.initial := by
  constructor <;> intro server state <;> cases state

/-- A move that leaves a proposer's counts alone. -/
theorem ProposingTally.mono {sent more : List (ℕ × Message)} {server : ℕ}
    {before after : Proposer} (tally : ProposingTally cfg sent server before)
    (inst : after.inst = before.inst) (count : after.responseCnt = before.responseCnt)
    (nacks : after.preNacks = before.preNacks)
    (history : ∀ signature ∈ before.msgHistory, signature ∈ after.msgHistory)
    (grown : ∀ packet ∈ sent, packet ∈ more) : ProposingTally cfg more server after := by
  obtain ⟨⟨grants, total, counted⟩, old⟩ := tally
  refine ⟨⟨grants, by rw [count, nacks, total], ?_⟩, ?_⟩
  · rw [inst]
    exact AtLeast.mono counted fun _ _ seen => seen.mono history
  · rw [nacks, inst]
    intro nack member
    obtain ⟨kind, same, inside⟩ := old nack member
    exact ⟨kind, same, grown _ inside⟩

theorem AcceptingTally.mono {broadcasts more : List Message} {server : ℕ}
    {before after : Proposer} (tally : AcceptingTally cfg broadcasts server before)
    (inst : after.inst = before.inst) (number : after.proposerNum = before.proposerNum)
    (count : after.responseCnt = before.responseCnt)
    (round : after.acceptMsg server = before.acceptMsg server)
    (history : ∀ signature ∈ before.msgHistory, signature ∈ after.msgHistory)
    (grown : ∀ msg ∈ broadcasts, msg ∈ more) : AcceptingTally cfg more server after := by
  refine ⟨?_, round ▸ grown _ tally.round⟩
  rw [inst, number, count]
  exact AtLeast.mono tally.acks fun _ _ seen => seen.mono history

/-- Steps that change no proposer's counts. -/
private theorem Tally.keep_same (tally : Tally cfg group)
    (grown : ∀ packet ∈ group.sent, packet ∈ next.sent)
    (broadcasts : ∀ msg ∈ group.broadcasts, msg ∈ next.broadcasts)
    (same : ∀ server, next.proposers server = group.proposers server ∨
      ((next.proposers server).state ≠ .PROPOSING ∧ (next.proposers server).state ≠ .ACCEPTING)) :
    Tally cfg next where
  proposing := by
    intro server state
    rcases same server with equal | ⟨other, _⟩
    · rw [equal] at state ⊢
      exact (tally.proposing server state).mono rfl rfl rfl (fun _ member => member) grown
    · exact absurd state other
  accepting := by
    intro server state
    rcases same server with equal | ⟨_, other⟩
    · rw [equal] at state ⊢
      exact (tally.accepting server state).mono rfl rfl rfl rfl (fun _ member => member) broadcasts
    · exact absurd state other

theorem Tally.keep (tally : Tally cfg group) (wire : Wire cfg group)
    (replies : Replies cfg group) (transition : Transition cfg group label next) :
    Tally cfg next := by
  have grown := transition.sent_grows.subset
  have louder := transition.broadcasts_grows.subset
  have changeOne {server : ℕ} {after : Proposer}
      (quiet : after.state ≠ .PROPOSING ∧ after.state ≠ .ACCEPTING) (other : ℕ) :
      Function.update group.proposers server after other = group.proposers other ∨
        ((Function.update group.proposers server after other).state ≠ .PROPOSING ∧
          (Function.update group.proposers server after other).state ≠ .ACCEPTING) := by
    by_cases same : other = server
    · subst same
      exact .inr (by simpa using quiet)
    · exact .inl (by simp [same])
  cases transition with
  | network next move =>
      exact tally.keep_same grown louder fun server => .inl (by rw [move.proposers])
  | clientSend | clientRecv | acceptor => exact tally.keep_same grown louder fun _ => .inl rfl
  | acceptClient server index runs idle | closeClient server index runs idle
  | idleExit server msg rest runs idle =>
      exact tally.keep_same grown louder (changeOne (by simp [idle]))
  | recvClient => exact tally.keep_same grown louder (changeOne (by simp [Proposer.receiveCommand]))
  | proposer server queue taken result runs fewer queued move =>
      refine ⟨?_, ?_⟩ <;> intro other state <;> by_cases same : other = server
      · subst same
        simp only [Group.commit_proposers, Function.update_self] at state ⊢
        rcases move.proposing_after state with ⟨count, nacks⟩ |
          ⟨before, inst, _, count, nacks, history⟩ | ⟨address, msg, isTaken, before, reply, after⟩
        · refine ⟨⟨0, by simp [count, nacks], AtLeast.zero⟩, by simp [nacks]⟩
        · exact (tally.proposing other before).mono inst count nacks history grown
        · rw [after]
          exact ((tally.proposing other before).count wire replies (queued msg isTaken) reply
            address).mono rfl rfl rfl (fun _ member => member) grown
      · simp only [Group.commit_proposers, Function.update_of_ne same] at state ⊢
        exact (tally.proposing other state).mono rfl rfl rfl (fun _ member => member) grown
      · subst same
        simp only [Group.commit_proposers, Function.update_self] at state ⊢
        rcases move.accepting_after state with ⟨count, round⟩ |
          ⟨before, msg, inst, number, count, history⟩ | ⟨msg, isTaken, before, ack, after⟩
        · exact ⟨count ▸ AtLeast.zero, by simp [round]⟩
        · exact (tally.accepting other before).mono inst number count msg history louder
        · rw [after]
          exact ((tally.accepting other before).count wire replies (queued msg isTaken) ack).mono
            rfl rfl rfl rfl (fun _ member => member) louder
      · simp only [Group.commit_proposers, Function.update_of_ne same] at state ⊢
        exact (tally.accepting other state).mono rfl rfl rfl rfl (fun _ member => member) louder

end Keep

theorem tally_reachable {cfg : Config} {group : Group} (reached : cfg.Reachable group) :
    Tally cfg group :=
  reached.invariant (Tally.initial cfg) fun _ _ _ earlier tally taken =>
    tally.keep (wire_reachable earlier) (replies_reachable earlier) (transition_of_step taken)

end CSE550.Paxos
