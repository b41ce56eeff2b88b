import CSE550.Paxos.Refinement

/-!
Owns what the two majorities prove about the acceptors: a recorded resolution
was accepted by a majority with one number, value and client, and a proposer
that counts no reply to an earlier round enters ACCEPT on the promises of a
majority.

The second law fails when PROPOSING counts a reply to a PREPARE that has timed
out: the loop compares the instance of a reply and not its number.
-/

namespace CSE550.Paxos

open CSE550.Lib

/-! ### The accept quorum -/

/-- The acceptor takes an ACCEPT with these contents off its queue, for the
first time, and records it. -/
def ExecutesAccept (acceptor inst : ℕ) (number : ℤ) (value : Value) (clientId : Option ℤ)
    (group : Group) (label : Label) (next : Group) : Prop :=
  ∃ delivered accept rest, label = .acceptor acceptor delivered ∧
    group.acceptorQueue acceptor = accept :: rest ∧
    accept.msgType = .ACCEPT ∧ accept.inst = inst ∧ accept.proposal = number ∧
    accept.value = value ∧ accept.clientId = clientId ∧
    accept.signature ∉ (group.acceptors acceptor).msgHistory ∧
    (next.acceptors acceptor).acceptHistory.lookup (inst : WithBot ℕ) =
      some ⟨number, number, value, clientId⟩

/-- The acceptor has acknowledged an ACCEPT with these contents to the server. -/
def AckSent (group : Group) (server acceptor inst : ℕ) (number : ℤ) (value : Value)
    (clientId : Option ℤ) : Prop :=
  ∃ ack, (server, ack) ∈ group.sent ∧ IsAck acceptor inst number ack ∧ ack.value = value ∧
    ack.clientId = clientId

section Accept

variable {cfg : Config} {group next : Group} {label : Label}

/-- An ACCEPT_ACK is sent only by an acceptor that executes the ACCEPT. -/
theorem AckSent.appears {server acceptor inst : ℕ} {number : ℤ} {value : Value}
    {clientId : Option ℤ} (transition : Transition cfg group label next)
    (sent : AckSent next server acceptor inst number value clientId) :
    AckSent group server acceptor inst number value clientId ∨
      ExecutesAccept acceptor inst number value clientId group label next := by
  rcases sent with ⟨ack, member, isAck, sameValue, sameClient⟩
  have old (inside : (server, ack) ∈ group.sent) :
      AckSent group server acceptor inst number value clientId :=
    ⟨ack, inside, isAck, sameValue, sameClient⟩
  cases transition with
  | network _ move => exact .inl (old (move.sent ▸ member))
  | clientSend | clientRecv | acceptClient | closeClient | recvClient | idleExit =>
      exact .inl (old member)
  | proposer other queue taken result runs fewer queued move =>
      simp only [Group.commit_sent, List.mem_append] at member
      rcases member with inside | new
      · exact .inl (old inside)
      · rcases move.broadcast_cases (move.packet_cases new).1 with ⟨_, same⟩ | ⟨_, same⟩
        · exact absurd isAck.msgType (by simp [same, Proposer.prepareMsg])
        · exact absurd isAck.msgType (by simp [same, Proposer.acceptMsg])
  | acceptor other request rest result runs queue turn delivered named =>
      have isOld (silent : result.2 = none) : (server, ack) ∈ group.sent := by
        simpa [silent] using member
      cases turn with
      | duplicate | silent | ended | failed => exact .inl (old (isOld rfl))
      | replied isRequest fresh reply after handled proposer origin connected =>
          rw [Group.commitAcceptor_sent] at member
          rcases List.mem_append.mp member with inside | new
          · exact .inl (old inside)
          · rcases Prod.mk.inj (List.mem_singleton.mp new) with ⟨rfl, rfl⟩
            cases handled with
            | granted | promised | refused => exact absurd isAck.msgType (by simp)
            | accepted notPrepare =>
                have here : other = acceptor := Option.some.inj isAck.origin
                subst here
                refine .inr ⟨delivered, request, rest, named, queue, ?_, isAck.inst,
                  isAck.proposal, sameValue, sameClient, fresh, ?_⟩
                · simpa [acceptorMsgTypes, notPrepare] using isRequest
                · have sameInst : request.inst = inst := isAck.inst
                  have sameRecord : acceptedRecord request = ⟨number, number, value, clientId⟩ := by
                    rw [acceptedRecord, show request.proposal = number from isAck.proposal,
                      show request.value = value from sameValue,
                      show request.clientId = clientId from sameClient]
                  rw [← sameInst, ← sameRecord]
                  simp

/-- The round a proposer waits for in ACCEPTING is the only one with its number. -/
theorem Answered.round {server acceptor : ℕ} {ack request : Message} {broadcast : Message}
    (answered : Answered cfg group server ack acceptor request) (wire : Wire cfg group)
    (numbers : Numbers cfg group) (isAck : ack.msgType = .ACCEPT_ACK)
    (among : broadcast ∈ group.broadcasts) (isAccept : broadcast.msgType = .ACCEPT)
    (number : ack.proposal = broadcast.proposal) :
    ack.value = broadcast.value ∧ ack.clientId = broadcast.clientId := by
  rcases answered.kind with ⟨_, requestAccept, value, clientId⟩ | ⟨isAck' | isNack, _⟩
  · have requestIn := wire.requests acceptor request answered.sent
      (by simp [requestAccept, acceptorMsgTypes])
    have same : request = broadcast := numbers.broadcast_unique requestIn among
      (requestAccept.trans isAccept.symm) (answered.proposal.symm.trans number)
    exact ⟨same ▸ value, same ▸ clientId⟩
  · exact absurd (isAck.symm.trans isAck') (by decide)
  · exact absurd (isAck.symm.trans isNack) (by decide)

/-- When a proposer records an instance as resolved, the ACCEPT with its number
carries what is recorded and a majority of the acceptors have executed it. -/
theorem accept_quorum {labels : List Label} (run : cfg.machine.Run labels group)
    (taken : group.step cfg label = some next) {server inst : ℕ} {value : Value}
    {clientId : Option ℤ}
    (before : (group.proposers server).instanceResolutions.lookup inst ≠ some (value, clientId))
    (after : (next.proposers server).instanceResolutions.lookup inst = some (value, clientId)) :
    ∃ accept ∈ group.broadcasts, accept = (group.proposers server).acceptMsg server ∧
      accept.inst = inst ∧ accept.value = value ∧ accept.clientId = clientId ∧
      Majority cfg.acceptorIds fun acceptor => cfg.machine.Occurs
        (ExecutesAccept acceptor inst (group.proposers server).proposerNum value clientId)
        labels := by
  have reached : cfg.Reachable group := ⟨labels, run⟩
  have wire := wire_reachable reached
  have numbers := numbers_reachable reached
  have replies := replies_reachable reached
  rcases step_resolutions taken server with same | ⟨msg, queued, runs, resolves⟩
  · exact absurd (same ▸ after) before
  have tally := (tally_reachable reached).accepting server resolves.waits
  have counted := tally.count wire replies queued resolves.ack
  have round (ack : Message) (sent : (server, ack) ∈ group.sent)
      (isAck : ack.msgType = .ACCEPT_ACK)
      (number : ack.proposal = (group.proposers server).proposerNum) :
      ack.value = (group.proposers server).learntCommand ∧
        ack.clientId = (group.proposers server).learntClient := by
    rcases replies.answers server ack sent (by simp [proposerMsgTypes, isAck]) with
      ⟨acceptor, request, answered⟩
    exact answered.round wire numbers isAck tally.round rfl number
  -- what was recorded is what the ACCEPT carries
  have contents : inst = (group.proposers server).inst ∧
      value = (group.proposers server).learntCommand ∧
      clientId = (group.proposers server).learntClient := by
    rcases resolves.after with ⟨state, _, same⟩
    have sent := wire.sent_of_queued queued resolves.ack.kind
    rw [same, resolve_instanceResolutions] at after
    by_cases here : inst = (group.proposers server).inst
    · subst here
      have recorded := Option.some.inj ((AList.lookup_insert _).symm.trans after)
      rcases Prod.mk.inj recorded with ⟨isValue, isClient⟩
      exact ⟨rfl, isValue.symm, isClient.symm.trans
        (round msg sent resolves.ack.msgType resolves.ack.proposal).2⟩
    · exact absurd ((AList.lookup_insert_ne here).symm.trans after) before
  rcases contents with ⟨rfl, rfl, rfl⟩
  refine ⟨_, tally.round, rfl, rfl, rfl, rfl, ?_⟩
  have enough : cfg.acceptorIds.card / 2 + 1 ≤ (group.proposers server).responseCnt + 1 := by
    have many := resolves.many
    rw [Finset.card_range]
    omega
  refine AtLeast.mono (AtLeast.fewer counted.acks enough) fun acceptor _ seen => ?_
  rcases seen with ⟨ack, isAck, member⟩
  have sent : (server, ack) ∈ group.sent := by
    rcases List.mem_cons.mp member with isLast | old
    · exact Message.signature_injective isLast ▸ wire.sent_of_queued queued resolves.ack.kind
    · exact (wire.sent_of_seen old).1
  rcases round ack sent isAck.msgType isAck.proposal with ⟨isValue, isClient⟩
  refine @Machine.Run.occurs_of_appears _ _ _ _ (AckSent · server acceptor _ _ _ _) ?_ ?_ _ _ run
    ⟨ack, sent, isAck, isValue, isClient⟩
  · rintro ⟨_, impossible, _⟩
    cases impossible
  · exact fun _ _ _ _ taken sent => sent.appears (transition_of_step taken)

end Accept

/-- Server 0 resolves instance 0 on the acknowledgements of acceptors 1 and 2. -/
theorem accept_quorum_learnt :
    ∃ accept ∈ (twoLocks.after (learntRun.take 20)).broadcasts,
      accept = ((twoLocks.after (learntRun.take 20)).proposers 0).acceptMsg 0 ∧
      accept.inst = (0 : ℕ) ∧ accept.value = .command ⟨.LOCK, 7⟩ ∧ accept.clientId = some 0 ∧
      Majority twoLocks.acceptorIds fun acceptor => twoLocks.machine.Occurs
        (ExecutesAccept acceptor 0 ((twoLocks.after (learntRun.take 20)).proposers 0).proposerNum
          (.command ⟨.LOCK, 7⟩) (some 0)) (learntRun.take 20) := by
  have enabled : (twoLocks.machine.runFrom twoLocks.initial
      (learntRun.take 20 ++ [.get 0 1 false])).isSome = true := by decide
  have run : twoLocks.machine.Run (learntRun.take 20) (twoLocks.after (learntRun.take 20)) :=
    Config.run_after (by decide)
  exact accept_quorum run (Config.step_after enabled) (by decide) (by decide)

/-! ### The prepare quorum -/

/-- The acceptor has answered the server's PREPARE with the number for the
instance, and its promise still stands. -/
structure HasPromised (group : Group) (server inst : ℕ) (number : ℤ) (acceptor : ℕ) : Prop where
  answered : ∃ reply, (server, reply) ∈ group.sent ∧ IsReply acceptor inst number reply
  promise : ∃ record,
    (group.acceptors acceptor).acceptHistory.lookup (inst : WithBot ℕ) = some record ∧
      number ≤ record.prep

/-- A majority has promised the current number to every proposer in ACCEPT. -/
def PrepareQuorum (cfg : Config) (group : Group) : Prop :=
  ∀ server, (group.proposers server).state = .ACCEPT →
    Majority cfg.acceptorIds (HasPromised group server (group.proposers server).inst
      (group.proposers server).proposerNum)

/-- In PROPOSING, the message taken off the queue is a reply that is counted
although it answers a PREPARE of an earlier round. -/
def CountsStale (group : Group) : Label → Prop
  | .get server _ _ =>
      match group.proposerQueue server with
      | msg :: _ =>
          (group.proposers server).state = .PROPOSING ∧
            CountedReply (group.proposers server) msg ∧
            msg.proposal ≠ (group.proposers server).proposerNum
      | [] => False
  | _ => False

instance (proposer : Proposer) (msg : Message) : Decidable (CountedReply proposer msg) :=
  decidable_of_iff ((msg.msgType = .PREPARE_ACK ∨ msg.msgType = .PREPARE_NACK) ∧
      msg.clientId ≠ none ∧ msg.inst = proposer.inst ∧ msg.signature ∉ proposer.msgHistory)
    ⟨fun ⟨msgType, clientId, inst, fresh⟩ => ⟨msgType, clientId, inst, fresh⟩,
      fun ⟨msgType, clientId, inst, fresh⟩ => ⟨msgType, clientId, inst, fresh⟩⟩

instance (group : Group) (label : Label) : Decidable (CountsStale group label) := by
  unfold CountsStale
  split
  · split <;> infer_instance
  · infer_instance

section Prepare

variable {cfg : Config} {group next : Group} {label : Label}

/-- Every reply to a PREPARE stands behind a promise of at least its number. -/
def Promised (group : Group) : Prop :=
  ∀ server acceptor inst number reply, (server, reply) ∈ group.sent →
    IsReply acceptor inst number reply → ∃ record,
      (group.acceptors acceptor).acceptHistory.lookup inst = some record ∧ number ≤ record.prep

/-- A reply to a PREPARE raises the promise to its number. -/
theorem RequestOutcome.promises {serverId acceptor : ℕ} {before after : AcceptHistory}
    {msg reply : Message} {inst : WithBot ℕ} {number : WithBot ℤ}
    (outcome : RequestOutcome serverId before msg reply after)
    (isReply : IsReply acceptor inst number reply) :
    serverId = acceptor ∧ ∃ record, after.lookup inst = some record ∧ number ≤ record.prep := by
  rcases outcome.reply_fields with ⟨_, origin, proposal, sameInst⟩
  have here : msg.inst = inst := sameInst.symm.trans isReply.inst
  have sameNumber : msg.proposal = number := proposal.symm.trans isReply.proposal
  subst here sameNumber
  refine ⟨Option.some.inj (origin.symm.trans isReply.origin), ?_⟩
  cases outcome with
  | granted | promised | refused => exact ⟨_, AList.lookup_insert _, le_rfl⟩
  | accepted => rcases isReply.msgType with isAck | isNack <;> simp [acceptAck] at *

theorem promised_reachable (reached : cfg.Reachable group) : Promised group := by
  refine Machine.Reachable.invariant ?_ ?_ reached
  · intro _ _ _ _ _ sent
    cases sent
  intro group label next _ promised taken server acceptor inst number reply sent isReply
  cases transition_of_step taken with
  | network _ move =>
      rw [move.acceptors]
      exact promised server acceptor inst number reply (move.sent ▸ sent) isReply
  | clientSend | clientRecv | acceptClient | closeClient | recvClient | idleExit =>
      exact promised server acceptor inst number reply sent isReply
  | proposer other queue taken result runs fewer queued move =>
      simp only [Group.commit_sent, List.mem_append] at sent
      rcases sent with old | new
      · simpa using
          promised server acceptor inst number reply old isReply
      · have request := isReply.msgType
        rcases move.broadcast_cases (move.packet_cases new).1 with ⟨_, same⟩ | ⟨_, same⟩ <;>
          simp [same, Proposer.prepareMsg, Proposer.acceptMsg] at request
  | acceptor other request rest result runs queue turn delivered named =>
      have old (inside : (server, reply) ∈ group.sent)
          (grows : ∀ record, (group.acceptors other).acceptHistory.lookup inst = some record →
            ∃ later, result.1.acceptHistory.lookup inst = some later ∧
              record.prep ≤ later.prep) :
          ∃ record, (((group.setAcceptorQueue other rest).commitAcceptor other
            result).acceptors acceptor).acceptHistory.lookup inst = some record ∧
              number ≤ record.prep := by
        rcases promised server acceptor inst number reply inside isReply with
          ⟨record, found, bound⟩
        by_cases here : acceptor = other
        · subst here
          rcases grows record found with ⟨later, foundLater, grown⟩
          exact ⟨later, by simpa using foundLater, bound.trans grown⟩
        · refine ⟨record, ?_, bound⟩
          simpa [here] using found
      cases turn with
      | duplicate | silent | ended | failed =>
          rw [Group.commitAcceptor_sent] at sent
          refine old (by simpa using sent) fun record found => ?_
          exact ⟨record, found, le_rfl⟩
      | replied isRequest fresh answer after handled proposer origin connected =>
          rcases List.mem_append.mp sent with inside | new
          · refine old inside fun record found => ?_
            rcases handled.raises found with ⟨later, foundLater, grown, _⟩
            exact ⟨later, foundLater, grown⟩
          · rcases Prod.mk.inj (List.mem_singleton.mp new) with ⟨rfl, rfl⟩
            rcases handled.promises isReply with ⟨rfl, record, found, bound⟩
            exact ⟨record, by simpa using found, bound⟩

/-- How a move can end in ACCEPT: nothing moved, or the last reply was counted. -/
theorem ProposerMove.accept_after {groupSize server : ℕ} {proposer : Proposer}
    {taken : Option Message} {result : Proposer × Output}
    (move : ProposerMove groupSize server proposer taken result)
    (state : result.1.state = .ACCEPT) :
    result.1.inst = proposer.inst ∧ result.1.proposerNum = proposer.proposerNum ∧
      ((proposer.state = .ACCEPT ∧ result.1.msgHistory = proposer.msgHistory) ∨
        ∃ msg, taken = some msg ∧ proposer.state = .PROPOSING ∧ CountedReply proposer msg ∧
          groupSize / 2 < proposer.responseCnt + 1 ∧
          result.1.msgHistory = (proposer.remember msg).msgHistory) := by
  cases move with
  | ready | accept | proposingTimeout | acceptingTimeout => cases state
  | acceptRaised accepting => exact ⟨rfl, rfl, .inl ⟨accepting, rfl⟩⟩
  | proposing address msg before after outcome =>
      cases outcome with
      | refused | exited | blocked => cases state
      | unchanged | passed | raised | counted =>
          exact absurd (before.symm.trans state) (by simp)
      | won reply many =>
          rcases learn_eq ((proposer.remember msg).countReply address msg) with ⟨_, _, same⟩
          rw [same]
          exact ⟨rfl, rfl, .inr ⟨msg, rfl, before, reply, many, rfl⟩⟩
  | accepting msg before result outcome =>
      cases outcome with
      | unchanged | passed | exited | raisedOther | counted =>
          exact absurd (before.symm.trans state) (by simp)
      | raisedLater later changed same =>
          rcases same with rfl | rfl <;> exact absurd (before.symm.trans state) (by simp)
      | lost => cases state
      | own | other => simp [resolve_state, Proposer.won] at state

/-- The counted replies answer the current round. -/
structure CurrentTally (cfg : Config) (proposer : Proposer) : Prop where
  proposing : proposer.state = .PROPOSING →
    AtLeast cfg.acceptorIds proposer.responseCnt
      (proposer.Seen (IsReply · proposer.inst proposer.proposerNum))
  accept : proposer.state = .ACCEPT →
    Majority cfg.acceptorIds (proposer.Seen (IsReply · proposer.inst proposer.proposerNum))

theorem CurrentTally.resting {proposer : Proposer} (notProposing : proposer.state ≠ .PROPOSING)
    (notAccept : proposer.state ≠ .ACCEPT) : CurrentTally cfg proposer :=
  ⟨fun state => absurd state notProposing, fun state => absurd state notAccept⟩

/-- A reply to the current round raises the count of its acceptors. -/
theorem CurrentTally.count {server : ℕ} {msg : Message}
    (tally : CurrentTally cfg (group.proposers server)) (wire : Wire cfg group)
    (replies : Replies cfg group) (queued : msg ∈ group.proposerQueue server)
    (state : (group.proposers server).state = .PROPOSING)
    (reply : CountedReply (group.proposers server) msg)
    (current : msg.proposal = (group.proposers server).proposerNum) :
    AtLeast cfg.acceptorIds ((group.proposers server).responseCnt + 1)
      (((group.proposers server).remember msg).Seen
        (IsReply · (group.proposers server).inst (group.proposers server).proposerNum)) := by
  have sent := wire.sent_of_queued queued reply.kind
  rcases replies.origin_bound sent reply.kind with ⟨acceptor, isAcceptor, origin⟩
  refine AtLeast.remember (tally.proposing state) wire isAcceptor
    ⟨reply.msgType, reply.inst, current, origin⟩ reply.fresh fun other otherSent kind isReply => ?_
  refine replies.replyOnce server other msg otherSent sent kind reply.kind
    (isReply.origin.trans origin.symm) (isReply.proposal.trans current.symm) ?_
  have notAck {candidate : Message}
      (isPrepare : candidate.msgType = .PREPARE_ACK ∨ candidate.msgType = .PREPARE_NACK) :
      candidate.msgType ≠ .ACCEPT_ACK := by
    rcases isPrepare with same | same <;> simp [same]
  exact iff_of_false (notAck isReply.msgType) (notAck reply.msgType)

/-- A step that counts no stale reply keeps the counts of the current rounds. -/
theorem CurrentTally.keep (tallies : ∀ server, CurrentTally cfg (group.proposers server))
    (wire : Wire cfg group) (replies : Replies cfg group) (honest : ¬ CountsStale group label)
    (transition : Transition cfg group label next) (server : ℕ) :
    CurrentTally cfg (next.proposers server) := by
  have changeOne {other : ℕ} {after : Proposer}
      (changed : CurrentTally cfg after) :
      CurrentTally cfg (Function.update group.proposers other after server) := by
    by_cases same : server = other
    · subst same
      simpa using changed
    · simpa [same] using tallies server
  cases transition with
  | network _ move => exact move.proposers ▸ tallies server
  | clientSend | clientRecv | acceptor => exact tallies server
  | acceptClient other index runs idle | closeClient other index runs idle
  | idleExit other msg rest runs idle =>
      exact changeOne (.resting (by simp [idle]) (by simp [idle]))
  | recvClient =>
      exact changeOne (.resting (by simp [Proposer.receiveCommand])
        (by simp [Proposer.receiveCommand]))
  | proposer other queue taken result runs fewer queued move named =>
      rw [Group.commit_proposers]
      refine changeOne ?_
      have current {msg : Message} (isTaken : taken = some msg)
          (state : (group.proposers other).state = .PROPOSING)
          (reply : CountedReply (group.proposers other) msg) :
          AtLeast cfg.acceptorIds ((group.proposers other).responseCnt + 1)
            (((group.proposers other).remember msg).Seen (IsReply · (group.proposers other).inst
              (group.proposers other).proposerNum)) := by
        rcases named msg isTaken with ⟨queue, address, clientGone, isGet⟩
        refine (tallies other).count wire replies (queued msg isTaken) state reply ?_
        by_contra stale
        refine honest ?_
        simp only [isGet, CountsStale, queue]
        exact ⟨state, reply, stale⟩
      constructor
      · intro state
        rcases move.proposing_after state with ⟨count, _⟩ |
          ⟨before, inst, number, count, _, history⟩ | ⟨address, msg, isTaken, before, reply, same⟩
        · exact count ▸ AtLeast.zero
        · rw [inst, number, count]
          exact AtLeast.mono ((tallies other).proposing before) fun _ _ seen => seen.mono history
        · rw [same]
          exact current isTaken before reply
      · intro state
        rcases move.accept_after state with ⟨inst, number, ⟨before, history⟩ |
          ⟨msg, isTaken, before, reply, many, history⟩⟩ <;> rw [inst, number]
        · refine AtLeast.mono ((tallies other).accept before) fun _ _ seen => seen.mono ?_
          exact fun _ member => history ▸ member
        · refine AtLeast.mono (AtLeast.fewer (current isTaken before reply) ?_) ?_
          · rw [Finset.card_range]
            omega
          · exact fun _ _ seen => seen.mono fun _ member => history ▸ member

/-- In a run that counts no reply to an earlier round, every proposer in ACCEPT
holds the promises of a majority for its number and instance. -/
theorem prepare_quorum_of_current {labels : List Label} (run : cfg.machine.Run labels group)
    (honest : cfg.machine.Meets (fun state label => ¬ CountsStale state label) cfg.initial labels) :
    PrepareQuorum cfg group := by
  have reached : cfg.Reachable group := ⟨labels, run⟩
  have tallies : ∀ server, CurrentTally cfg (group.proposers server) := by
    refine @Machine.Run.invariant_of_meets _ _ _ _
      (fun state => ∀ server, CurrentTally cfg (state.proposers server)) ?_ ?_ _ _ run honest
    · exact fun _ => .resting (by rintro ⟨⟩) (by rintro ⟨⟩)
    · intro state label next earlier tallies current taken
      exact CurrentTally.keep tallies (wire_reachable earlier) (replies_reachable earlier) current
        (transition_of_step taken)
  intro server state
  refine AtLeast.mono ((tallies server).accept state) fun acceptor _ seen => ?_
  rcases seen with ⟨reply, isReply, member⟩
  have sent := ((wire_reachable reached).sent_of_seen member).1
  exact ⟨⟨reply, sent, isReply⟩, promised_reachable reached _ _ _ _ _ sent isReply⟩

end Prepare

/-- The second round of server 0 is answered before it wins. -/
theorem prepare_quorum_retried :
    ((oneLock.after (retriedRun.take 16)).proposers 0).state = .ACCEPT ∧
      PrepareQuorum oneLock (oneLock.after (retriedRun.take 16)) :=
  ⟨by decide, prepare_quorum_of_current (Config.run_after (by decide)) (by decide)⟩

/-- The replies to the PREPARE with number 0 arrive after its round has timed
out and the PREPARE with number 3 is on its way. -/
def staleRun : List Label :=
  [.acceptClient 0 0, .clientSend 0, .recvClient 0, .send 0 [], .connection 0 .keep,
    .connection 0 .keep, .acceptor 1 true, .acceptor 2 true, .timeout 0, .send 0 [],
    .connection 0 .keep, .connection 0 .keep, .get 0 0 false, .get 0 1 false]

/-- Server 0 enters ACCEPT with number 3, which no acceptor has answered. -/
theorem stale_replies_counted :
    ((oneLock.after staleRun).proposers 0).state = .ACCEPT ∧
      ((oneLock.after staleRun).proposers 0).proposerNum = 3 ∧
      ¬ ∀ group, oneLock.Reachable group → PrepareQuorum oneLock group := by
  have state : ((oneLock.after staleRun).proposers 0).state = .ACCEPT := by decide
  refine ⟨state, by decide, fun always => ?_⟩
  rcases always _ (Config.reachable_after oneLock staleRun) 0 state with ⟨chosen, _, enough, all⟩
  have nonempty : 0 < chosen.card := lt_of_lt_of_le (by decide) enough
  rcases Finset.card_pos.mp nonempty with ⟨acceptor, member⟩
  rcases (all acceptor member).answered with ⟨reply, sent, isReply⟩
  have unanswered : ∀ packet ∈ (oneLock.after staleRun).sent, packet.1 = 0 →
      packet.2.proposal ≠ ((oneLock.after staleRun).proposers 0).proposerNum := by decide
  exact unanswered _ sent rfl isReply.proposal

end CSE550.Paxos
