import CSE550.Paxos.Resolution
import Mathlib.Data.Finset.Max

/-!
Owns what becomes of the answers to a PREPARE: which of them the proposer counts,
and what the counted PREPARE_NACKs make it propose.

All PREPARE_NACKs of an instance report one value, so it does not matter that
`max(pre_nacks)` compares the number of the round and not the accepted one. The
answer of an acceptor that has promised the instance before without accepting a
value names no client, and the assertion on it abandons the round.
-/

namespace CSE550.Paxos

open CSE550.Lib

variable {cfg : Config} {group next : Group} {label : Label}

/-! ### The highest accepted value -/

/-- The PREPARE_NACKs a proposer has counted when it is in ACCEPT. -/
def CountedNacks (group : Group) : Prop :=
  ∀ server, (group.proposers server).state = .ACCEPT →
    ∀ nack ∈ (group.proposers server).preNacks, nack.msg.msgType = .PREPARE_NACK ∧
      nack.msg.inst = (group.proposers server).inst ∧ (server, nack.msg) ∈ group.sent

/-- How a move can end in ACCEPT, seen from the stored PREPARE_NACKs. -/
theorem ProposerMove.accept_nacks {groupSize server : ℕ} {proposer : Proposer}
    {taken : Option Message} {result : Proposer × Output}
    (move : ProposerMove groupSize server proposer taken result)
    (state : result.1.state = .ACCEPT) :
    result.1.inst = proposer.inst ∧
      ((proposer.state = .ACCEPT ∧ result.1.preNacks = proposer.preNacks) ∨
        ∃ address msg, taken = some msg ∧ proposer.state = .PROPOSING ∧
          CountedReply proposer msg ∧ result.1.preNacks =
            ((proposer.remember msg).countReply address msg).preNacks) := by
  cases move with
  | ready | accept | proposingTimeout | acceptingTimeout => cases state
  | acceptRaised accepting => exact ⟨rfl, .inl ⟨accepting, rfl⟩⟩
  | proposing address msg before after outcome =>
      cases outcome with
      | refused | exited | blocked => cases state
      | unchanged | passed | raised | counted =>
          exact absurd (before.symm.trans state) (by simp)
      | won reply =>
          rcases learn_eq ((proposer.remember msg).countReply address msg) with ⟨_, _, same⟩
          rw [same]
          exact ⟨rfl, .inr ⟨address, msg, rfl, before, reply, rfl⟩⟩
  | accepting msg before result outcome =>
      cases outcome with
      | unchanged | passed | exited | raisedOther | counted =>
          exact absurd (before.symm.trans state) (by simp)
      | raisedLater later changed same =>
          rcases same with rfl | rfl
          · exact absurd (before.symm.trans state) (by simp)
          · exact absurd (before.symm.trans state) (by simp)
      | lost => cases state
      | own | other => simp [resolve_state, Proposer.won] at state

theorem countedNacks_reachable (reached : cfg.Reachable group) : CountedNacks group := by
  refine Machine.Reachable.invariant ?_ ?_ reached
  · intro server state
    cases state
  intro group label next before counted taken server state
  have onlyIn {other : ℕ} {changed : Proposer} (idle : changed.state ≠ .ACCEPT) :=
    (Function.forall_update_iff group.proposers fun server (after : Proposer) =>
      after.state = .ACCEPT → ∀ nack ∈ after.preNacks, nack.msg.msgType = .PREPARE_NACK ∧
        nack.msg.inst = after.inst ∧ (server, nack.msg) ∈ group.sent).mpr
          ⟨fun here => absurd here idle, fun server (_ : server ≠ other) => counted server⟩
  cases transition_of_step taken with
  | network _ move =>
      rw [move.proposers] at state ⊢
      rw [move.sent]
      exact counted server state
  | clientSend | clientRecv => exact counted server state
  | acceptClient other index runs idle | closeClient other index runs idle =>
      exact onlyIn (by simp [idle]) server state
  | idleExit other msg rest runs idle => exact onlyIn (by simp [idle]) server state
  | recvClient => exact onlyIn (by simp [Proposer.receiveCommand]) server state
  | acceptor other request rest result =>
      intro nack member
      rcases counted server state nack member with ⟨kind, inst, sent⟩
      exact ⟨kind, inst, List.mem_append_left _ sent⟩
  | proposer other queue found result runs fewer queued move =>
      rw [Group.commit_proposers] at state ⊢
      rw [Group.commit_sent]
      by_cases equal : server = other
      · subst equal
        rw [Function.update_self] at state ⊢
        intro nack member
        rcases move.accept_nacks state with
          ⟨inst, ⟨accepting, same⟩ | ⟨address, msg, isTaken, proposing, reply, same⟩⟩
        · rw [same] at member
          rcases counted server accepting nack member with ⟨kind, nackInst, sent⟩
          exact ⟨kind, nackInst.trans (by rw [inst]), List.mem_append_left _ sent⟩
        · have tally := ((tally_reachable before).proposing server proposing).count
            (wire_reachable before) (replies_reachable before) (queued msg isTaken) reply address
          rw [same] at member
          rcases tally.nacks nack member with ⟨kind, nackInst, sent⟩
          exact ⟨kind, nackInst.trans (by rw [inst]; rfl), List.mem_append_left _ sent⟩
      · rw [Function.update_of_ne equal] at state ⊢
        intro nack member
        rcases counted server state nack member with ⟨kind, inst, sent⟩
        exact ⟨kind, inst, List.mem_append_left _ sent⟩

/-- A proposer that goes on to ACCEPT after counting PREPARE_NACKs puts into its
ACCEPT the value and client of one with the greatest accepted number. -/
theorem highest_accepted_wins (reached : cfg.Reachable group) (server : ℕ)
    (state : (group.proposers server).state = .ACCEPT)
    (counted : (group.proposers server).preNacks ≠ []) :
    ∃ nack ∈ (group.proposers server).preNacks, nack.msg.msgType = .PREPARE_NACK ∧
      nack.msg.inst = (group.proposers server).inst ∧
      (∀ other ∈ (group.proposers server).preNacks, other.msg.rProposal ≤ nack.msg.rProposal) ∧
      ((group.proposers server).acceptMsg server).value = nack.msg.value ∧
      ((group.proposers server).acceptMsg server).clientId = nack.msg.clientId := by
  rcases refines_reachable reached with ⟨ledger, _, refines⟩
  rcases (refines.replicas server).accepting (.inl state) with ⟨entry, found, learnt⟩
  rcases @Multiset.exists_max_image _ _ _ (fun nack : NackMsg => nack.msg.rProposal)
    (group.proposers server).preNacks (by simpa using counted) with ⟨nack, member, greatest⟩
  rcases countedNacks_reachable reached server state nack member with ⟨kind, inst, sent⟩
  -- every PREPARE_NACK of the instance carries the entry that was learnt
  rcases refines.nack_carries (wire_reachable reached) (replies_reachable reached) sent kind with
    ⟨index, carried, atIndex, there, contents⟩
  have here : (group.proposers server).inst = index :=
    WithBot.coe_injective (inst.symm.trans atIndex)
  obtain rfl : entry = carried := Option.some.inj (found.symm.trans (here ▸ there))
  have same := Prod.mk.inj (learnt.trans contents.symm)
  exact ⟨nack, member, kind, inst, greatest, same.1, same.2⟩

/-- Server 0 loses both ACCEPT_ACKs of number 0, then the ACCEPT of number 6 for server 2
and the ACCEPT_ACK of server 1, and asks both again with number 12. -/
def refusedTwice : List Label :=
  [.acceptClient 0 0, .clientSend 0, .recvClient 0, .send 0 [], .connection 0 .keep,
    .connection 0 .keep, .acceptor 1 true, .acceptor 2 true, .connection 0 .keep,
    .connection 0 .keep, .get 0 0 false, .get 0 1 false, .send 0 [], .connection 0 .keep,
    .connection 0 .keep, .acceptor 1 true, .acceptor 2 true, .lose 0, .lose 0, .timeout 0,
    .send 0 [], .connection 0 .keep, .connection 0 .keep, .acceptor 1 true, .acceptor 2 true,
    .connection 0 .keep, .connection 0 .keep, .get 0 0 false, .get 0 1 false, .send 0 [],
    .connection 0 .keep, .lose 0, .acceptor 1 true, .lose 0, .timeout 0, .send 0 [],
    .connection 0 .keep, .connection 0 .keep, .acceptor 1 true, .acceptor 2 true,
    .connection 0 .keep, .connection 0 .keep, .get 0 0 false, .get 0 1 false]

/-- It has counted PREPARE_NACKs with the accepted numbers 6 and 0. -/
theorem highest_accepted_wins_learnt :
    ((twoLocks.after refusedTwice).proposers 0).preNacks.map (fun nack => nack.msg.rProposal) =
        [6, 0] ∧
      ∃ nack ∈ ((twoLocks.after refusedTwice).proposers 0).preNacks,
        nack.msg.msgType = .PREPARE_NACK ∧
        nack.msg.inst = ((twoLocks.after refusedTwice).proposers 0).inst ∧
        (∀ other ∈ ((twoLocks.after refusedTwice).proposers 0).preNacks,
          other.msg.rProposal ≤ nack.msg.rProposal) ∧
        (((twoLocks.after refusedTwice).proposers 0).acceptMsg 0).value = nack.msg.value ∧
        (((twoLocks.after refusedTwice).proposers 0).acceptMsg 0).clientId =
          nack.msg.clientId := by
  have both : ((twoLocks.after refusedTwice).proposers 0).preNacks.map
      (fun nack => nack.msg.rProposal) = [6, 0] := by
    decide +kernel
  refine ⟨both, highest_accepted_wins (Config.reachable_after _ _) 0 (by decide +kernel) ?_⟩
  intro empty
  rw [empty] at both
  cases both

/-! ### Every answer that names a client counts -/

/-- The step takes the message off the queue of the server in its response loops. -/
def TakesMessage (server : ℕ) (msg : Message) (group : Group) (label : Label) (_ : Group) : Prop :=
  ∃ address clientGone rest, label = .get server address clientGone ∧
    group.proposerQueue server = msg :: rest

/-- In the step an acceptor sends the message to the server, and its record of the
instance, if it has one, satisfies the condition. -/
def AnswersWhen (condition : AcceptRecord → Prop) (server : ℕ) (msg : Message) (group : Group)
    (label : Label) (_ : Group) : Prop :=
  ∃ acceptor delivered request rest, label = .acceptor acceptor delivered ∧
    group.acceptorQueue acceptor = request :: rest ∧
    ((group.acceptors acceptor).process acceptor request delivered).2 = some (server, msg) ∧
    ∀ record, (group.acceptors acceptor).acceptHistory.lookup msg.inst = some record →
      condition record

/-- When the acceptor answers, it has no record of the instance or has accepted a
value for it. -/
abbrev AnswersOpenly : ℕ → Message → Group → Label → Group → Prop :=
  AnswersWhen fun record => record.accp ≠ noNumber

/-- The reply was counted, and the round goes on or has its majority. -/
structure Counts (groupSize : ℕ) (before after : Proposer) : Prop where
  one : after.responseCnt = before.responseCnt + 1
  goesOn : after.state = .PROPOSING ∨ groupSize / 2 < after.responseCnt

section Answers

variable {server address : ℕ} {clientGone : Bool} {msg : Message} {rest : List Message}
  {labels : List Label}

/-- A reply in a proposer's history was taken off its queue. -/
theorem occurs_takes (run : cfg.machine.Run labels group)
    (seen : msg.signature ∈ (group.proposers server).msgHistory) :
    cfg.machine.Occurs (TakesMessage server msg) labels := by
  refine @Machine.Run.occurs_of_appears _ _ _ _
    (fun state : Group => msg.signature ∈ (state.proposers server).msgHistory)
    ?_ ?_ _ _ run seen
  · intro impossible
    cases impossible
  intro group label next _ taken member
  cases transition_of_step taken with
  | network _ move => exact .inl (move.proposers ▸ member)
  | clientSend | clientRecv | acceptor => exact .inl member
  | acceptClient | closeClient | recvClient | idleExit =>
      exact .inl ((read_update (fun after : Proposer => msg.signature ∈ after.msgHistory)
        (by rfl) server).mp member)
  | proposer other queue found result runs fewer queued move named =>
      rw [Group.commit_proposers] at member
      by_cases equal : server = other
      · subst equal
        rw [Function.update_self] at member
        refine (move.history_cases member).imp_right ?_
        rintro ⟨earlier, isTaken, _, same⟩
        obtain rfl := Message.signature_injective same
        rcases named earlier isTaken with ⟨front, address, clientGone, isGet⟩
        exact ⟨address, clientGone, queue, isGet, front⟩
      · rw [Function.update_of_ne equal] at member
        exact .inl member

/-- A reply that was sent was sent in a turn of an acceptor. -/
theorem occurs_answers (run : cfg.machine.Run labels group) (sent : (server, msg) ∈ group.sent)
    (kind : msg.msgType ∈ proposerMsgTypes) :
    cfg.machine.Occurs (AnswersWhen (fun _ => True) server msg) labels := by
  refine @Machine.Run.occurs_of_appears _ _ _ _
    (fun state : Group => (server, msg) ∈ state.sent) ?_ ?_ _ _ run sent
  · intro impossible
    cases impossible
  intro group label next _ taken member
  cases transition_of_step taken with
  | network _ move => exact .inl (move.sent ▸ member)
  | clientSend | clientRecv | acceptClient | closeClient | recvClient | idleExit =>
      exact .inl member
  | proposer other queue found result runs fewer queued move =>
      simp only [Group.commit_sent, List.mem_append] at member
      refine member.imp_right fun new => absurd kind (acceptorMsgTypes_not_proposer ?_)
      rcases move.broadcast_cases (move.packet_cases new).1 with ⟨_, rfl⟩ | ⟨_, rfl⟩
      · exact prepareMsg_request _ _
      · exact acceptMsg_request _ _
  | acceptor other _ _ _ _ _ _ delivered named =>
      subst named
      rcases Group.step_acceptor_iff.mp taken with ⟨request, rest, queue, _, same⟩
      rw [same] at member
      rcases List.mem_append.mp member with old | new
      · exact .inl old
      · exact .inr ⟨other, delivered, request, rest, rfl, queue, Option.mem_toList.mp new,
          fun _ _ => trivial⟩

/-- A record with an accepted value names its client, one without names none. -/
theorem record_client_iff (reached : cfg.Reachable group) {acceptor : ℕ} {inst : WithBot ℕ}
    {record : AcceptRecord}
    (found : (group.acceptors acceptor).acceptHistory.lookup inst = some record) :
    record.cid ≠ none ↔ record.accp ≠ noNumber := by
  rcases (replies_reachable reached).records acceptor inst record found with
    ⟨nothing, noClient⟩ | ⟨accept, sent, isAccept, _, number, _, clientId⟩
  · exact iff_of_false (not_not.mpr noClient) (not_not.mpr nothing)
  · have kind : accept.msgType ∈ acceptorMsgTypes := by simp [isAccept, acceptorMsgTypes]
    rcases refines_reachable reached with ⟨ledger, _, refines⟩
    rcases refines.accepts accept ((wire_reachable reached).requests acceptor accept sent kind)
      isAccept with ⟨_, entry, _, _, contents⟩
    refine iff_of_true ?_ (number ▸ proposal_ne_noNumber reached sent kind)
    rw [← clientId, (Prod.mk.inj contents).2]
    simp

/-- The answer to a PREPARE names a client exactly when the acceptor answers openly. -/
theorem answer_client_iff (reached : cfg.Reachable group) {acceptor : ℕ} {request reply : Message}
    {after : AcceptHistory}
    (outcome : RequestOutcome acceptor (group.acceptors acceptor).acceptHistory request reply after)
    (kind : reply.msgType = .PREPARE_ACK ∨ reply.msgType = .PREPARE_NACK) :
    reply.clientId ≠ none ↔ ∀ record,
      (group.acceptors acceptor).acceptHistory.lookup reply.inst = some record →
        record.accp ≠ noNumber := by
  cases outcome with
  | granted _ unseen =>
      refine iff_of_true (by simp) fun record found => ?_
      exact absurd (unseen.symm.trans found) (by simp)
  | promised _ record known | refused _ record known =>
      rw [record_client_iff reached known]
      constructor
      · intro something other found
        rwa [← Option.some.inj (known.symm.trans found)]
      · exact fun all => all record known
  | accepted =>
      rcases kind with isAck | isNack
      · cases isAck
      · cases isNack

/-- An answer to a PREPARE that was sent names a client exactly when the acceptor
answered openly. -/
theorem occurs_openly_iff (run : cfg.machine.Run labels group)
    (sent : (server, msg) ∈ group.sent)
    (kind : msg.msgType = .PREPARE_ACK ∨ msg.msgType = .PREPARE_NACK) :
    cfg.machine.Occurs (AnswersOpenly server msg) labels ↔ msg.clientId ≠ none := by
  have answered {acceptor : ℕ} {delivered : Bool} {request : Message} {before : Group}
      (sends : ((before.acceptors acceptor).process acceptor request delivered).2 =
        some (server, msg)) : ∃ after,
      RequestOutcome acceptor (before.acceptors acceptor).acceptHistory request msg after := by
    have turn := process_outcome acceptor (before.acceptors acceptor) request delivered
    generalize (before.acceptors acceptor).process acceptor request delivered = result at turn sends
    cases turn with
    | duplicate | silent | ended | failed => cases sends
    | replied isRequest fresh reply after handled proposer =>
        cases sends
        exact ⟨after, handled⟩
  constructor
  · rintro ⟨before, _, _, state, _, _, reaches, _,
      ⟨acceptor, delivered, request, rest, rfl, queue, sends, openly⟩⟩
    rcases answered sends with ⟨after, handled⟩
    exact (answer_client_iff ⟨before, reaches⟩ handled kind).mpr openly
  · intro present
    have isReply : msg.msgType ∈ proposerMsgTypes := by
      rcases kind with isAck | isNack
      · simp [proposerMsgTypes, isAck]
      · simp [proposerMsgTypes, isNack]
    apply (occurs_answers run sent isReply).mono
    rintro state label next reached ⟨acceptor, delivered, request, rest, named, queue, sends, _⟩
    rcases answered sends with ⟨after, handled⟩
    exact ⟨acceptor, delivered, request, rest, named, queue, sends,
      (answer_client_iff reached handled kind).mp present⟩

/-- Whatever a counted reply leads to, it is counted once. -/
theorem counts_closeProposing (groupSize : ℕ) {proposer : Proposer}
    (proposing : proposer.state = .PROPOSING) :
    Counts groupSize proposer
      (((proposer.remember msg).countReply address msg).closeProposing groupSize) := by
  unfold Proposer.closeProposing Proposer.leaveProposing
  split
  · exact ⟨rfl, .inl proposing⟩
  · rename_i few
    rcases learn_eq ((proposer.remember msg).countReply address msg) with ⟨_, _, same⟩
    rw [same]
    split
    · exact ⟨rfl, .inr (Nat.lt_of_not_le few)⟩
    · exact ⟨rfl, .inr (Nat.lt_of_not_le few)⟩

/-- A reply of the current instance that a proposer in PROPOSING takes off its
queue for the first time is counted, if and only if the acceptor had no record of
the instance or had accepted a value when it answered. -/
theorem promise_counts_iff (run : cfg.machine.Run labels group)
    (taken : group.step cfg (.get server address clientGone) = some next)
    (proposing : (group.proposers server).state = .PROPOSING)
    (queue : group.proposerQueue server = msg :: rest)
    (kind : msg.msgType = .PREPARE_ACK ∨ msg.msgType = .PREPARE_NACK)
    (inst : msg.inst = (group.proposers server).inst)
    (first : ¬ cfg.machine.Occurs (TakesMessage server msg) labels) :
    Counts cfg.groupSize (group.proposers server) (next.proposers server) ↔
      cfg.machine.Occurs (AnswersOpenly server msg) labels := by
  have isReply : msg.msgType ∈ proposerMsgTypes := by
    rcases kind with isAck | isNack
    · simp [proposerMsgTypes, isAck]
    · simp [proposerMsgTypes, isNack]
  have waiting : msg ∈ group.proposerQueue server := by simp [queue]
  have sent := (wire_reachable ⟨labels, run⟩).sent_of_queued waiting isReply
  rw [occurs_openly_iff run sent kind]
  rcases Group.step_get_iff.mp taken with ⟨other, later, result, front, _, takes, rfl⟩
  obtain ⟨rfl, rfl⟩ := List.cons.inj (queue.symm.trans front)
  cases takes with
  | accepting accepting => exact absurd (proposing.symm.trans accepting) (by decide)
  | proposing =>
      rw [Group.commit_proposers, Group.setProposerQueue_proposers, Function.update_self]
      by_cases missing : msg.clientId = none
      · refine iff_of_false (fun counts => ?_) (not_not.mpr missing)
        have one := counts.one
        rw [Proposer.proposing, if_pos missing] at one
        have same : (group.proposers server).responseCnt =
          (group.proposers server).responseCnt + 1 := one
        omega
      · have reply : CountedReply (group.proposers server) msg :=
          ⟨kind, missing, inst, fun seen => first (occurs_takes run seen)⟩
        rw [proposing_counted cfg.groupSize address reply]
        exact iff_of_true (counts_closeProposing cfg.groupSize proposing) missing

end Answers

/-- No message is taken in a run without such a step. -/
theorem not_occurs_takes {cfg : Config} {labels : List Label} {server : ℕ} {msg : Message}
    (none : ∀ label ∈ labels, ∀ address clientGone, label ≠ .get server address clientGone) :
    ¬ cfg.machine.Occurs (TakesMessage server msg) labels := by
  rintro ⟨before, label, after, state, next, rfl, _, _, ⟨address, clientGone, rest, isGet, _⟩⟩
  exact none label (by simp) address clientGone isGet

/-- Server 0 counts the reply of acceptor 1 to its first PREPARE. -/
theorem promise_counts_iff_first : ∃ msg,
    (twoLocks.after (learntRun.take 9)).proposerQueue 0 = [msg] ∧
    (Counts 3 ((twoLocks.after (learntRun.take 9)).proposers 0)
        ((twoLocks.after (learntRun.take 9 ++ [.get 0 0 false])).proposers 0) ↔
      twoLocks.machine.Occurs (AnswersOpenly 0 msg) (learntRun.take 9)) := by
  have queue : (twoLocks.after (learntRun.take 9)).proposerQueue 0 =
      [⟨.PREPARE_ACK, (0 : ℤ), (0 : ℕ), .int 0, some 1, some (-1), (-1 : ℤ)⟩] := by
    decide
  refine ⟨_, queue, promise_counts_iff (Config.run_after (by decide))
    (Config.step_after (by decide)) (by decide) queue (.inl rfl) (by decide) ?_⟩
  apply not_occurs_takes
  simp [learntRun]

/-- Server 0 loses the replies to its first PREPARE; the reply of acceptor 1 to the
second one is on its queue. -/
def promisedTwice : List Label :=
  [.acceptClient 0 0, .clientSend 0, .recvClient 0, .send 0 [], .connection 0 .keep,
    .connection 0 .keep, .acceptor 1 true, .acceptor 2 true, .lose 0, .lose 0, .timeout 0,
    .send 0 [], .connection 0 .keep, .connection 0 .keep, .acceptor 1 true, .acceptor 2 true,
    .connection 0 .keep]

/-- That reply answers the current PREPARE, has not been taken before and is not
counted. -/
theorem promised_twice_abandons : ∃ msg,
    oneLock.machine.Run promisedTwice (oneLock.after promisedTwice) ∧
    (oneLock.after promisedTwice).step oneLock (.get 0 0 false) =
      some (oneLock.after (promisedTwice ++ [.get 0 0 false])) ∧
    ((oneLock.after promisedTwice).proposers 0).state = .PROPOSING ∧
    (oneLock.after promisedTwice).proposerQueue 0 = [msg] ∧
    msg.msgType = .PREPARE_ACK ∧
    msg.inst = ((oneLock.after promisedTwice).proposers 0).inst ∧
    msg.proposal = ((oneLock.after promisedTwice).proposers 0).proposerNum ∧
    ¬ oneLock.machine.Occurs (TakesMessage 0 msg) promisedTwice ∧
    ¬ Counts 3 ((oneLock.after promisedTwice).proposers 0)
      ((oneLock.after (promisedTwice ++ [.get 0 0 false])).proposers 0) := by
  have queue : (oneLock.after promisedTwice).proposerQueue 0 =
      [⟨.PREPARE_ACK, (3 : ℤ), (0 : ℕ), .none, some 1, none, (-1 : ℤ)⟩] := by
    decide
  refine ⟨_, Config.run_after (by decide), Config.step_after (by decide), by decide, queue, rfl,
    by decide, by decide, ?_, ?_⟩
  · apply not_occurs_takes
    simp [promisedTwice]
  · intro counts
    have abandoned : ((oneLock.after (promisedTwice ++ [.get 0 0 false])).proposers 0).responseCnt =
        ((oneLock.after promisedTwice).proposers 0).responseCnt := by
      decide
    have one := counts.one
    omega

end CSE550.Paxos
