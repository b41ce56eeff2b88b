import CSE550.Paxos.Resolution

/-!
Owns what accepted values leave behind: an acceptor keeps having accepted an
instance, and an instance that a server has resolved is accepted by a majority.
-/

namespace CSE550.Paxos

open CSE550.Lib

/-- A reply does not take an accepted value back. -/
theorem RequestOutcome.keeps_accepted {serverId : ℕ} {before after : AcceptHistory}
    {msg reply : Message} (outcome : RequestOutcome serverId before msg reply after)
    (number : msg.proposal ≠ noNumber) {inst : WithBot ℕ} {record : AcceptRecord}
    (found : before.lookup inst = some record) (something : record.accp ≠ noNumber) :
    ∃ later, after.lookup inst = some later ∧ later.accp ≠ noNumber := by
  rcases outcome.lookup_cases inst with ⟨_, same⟩ | ⟨here, _⟩
  · exact ⟨record, same.trans found, something⟩
  · subst here
    cases outcome with
    | granted _ unseen => exact absurd (unseen.symm.trans found) (by simp)
    | promised _ known same _ nothing =>
        obtain rfl := Option.some.inj (same.symm.trans found)
        exact absurd nothing something
    | refused _ known same =>
        obtain rfl := Option.some.inj (same.symm.trans found)
        exact ⟨_, AList.lookup_insert _, something⟩
    | accepted => exact ⟨_, AList.lookup_insert _, number⟩

section Keep

variable {cfg : Config} {group next : Group} {label : Label}

/-- A request on an acceptor queue has a number of a proposer. -/
theorem number_of_request (reached : cfg.Reachable group) {acceptor : ℕ} {msg : Message}
    {rest : List Message} (queue : group.acceptorQueue acceptor = msg :: rest)
    (request : msg.msgType ∈ acceptorMsgTypes) : msg.proposal ≠ noNumber := by
  rcases (wire_reachable reached).acceptorQueue acceptor msg (by simp [queue]) with
    isExit | ⟨sent, _⟩
  · simp [isExit.msgType, acceptorMsgTypes] at request
  · exact proposal_ne_noNumber reached sent request

theorem HasAccepted.keep {acceptor : ℕ} {inst : WithBot ℕ} (has : HasAccepted group acceptor inst)
    (reached : cfg.Reachable group) (transition : Transition cfg group label next) :
    HasAccepted next acceptor inst := by
  cases transition with
  | network next move =>
      unfold HasAccepted
      rw [move.acceptors]
      exact has
  | clientSend | clientRecv | acceptClient | closeClient | recvClient | idleExit => exact has
  | proposer => simpa [HasAccepted] using has
  | acceptor server msg rest result runs queue turn =>
      by_cases same : acceptor = server
      · subst same
        unfold HasAccepted
        rw [show ((group.setAcceptorQueue acceptor rest).commitAcceptor acceptor
          result).acceptors acceptor = result.1 by simp]
        cases turn with
        | duplicate | silent | ended | failed => exact has
        | replied request fresh reply after handled =>
            rcases has with ⟨record, found, something⟩
            exact handled.keeps_accepted (number_of_request reached queue request) found something
      · simpa [HasAccepted, same] using has

theorem HasAccepted.continues {before after : Group} {acceptor : ℕ} {inst : WithBot ℕ}
    (has : HasAccepted before acceptor inst) (reached : cfg.Reachable before)
    (continues : cfg.Continues before after) : HasAccepted after acceptor inst := by
  refine @Machine.Leads.invariant _ _ _ _ _ _ (HasAccepted · acceptor inst) continues reached has ?_
  exact fun _ _ _ reachedOn hasOn taken => hasOn.keep reachedOn (transition_of_step taken)

/-- An acceptor that has sent an acknowledgement has accepted its instance. -/
def AcksAccepted (group : Group) : Prop :=
  ∀ server ack, (server, ack) ∈ group.sent → ack.msgType = .ACCEPT_ACK →
    ∃ acceptor, ack.originId = some acceptor ∧ HasAccepted group acceptor ack.inst

theorem AcksAccepted.keep (accepted : AcksAccepted group) (reached : cfg.Reachable group)
    (transition : Transition cfg group label next) : AcksAccepted next := by
  have keepOld {server : ℕ} {ack : Message} (sent : (server, ack) ∈ group.sent)
      (isAck : ack.msgType = .ACCEPT_ACK) :
      ∃ acceptor, ack.originId = some acceptor ∧ HasAccepted next acceptor ack.inst := by
    rcases accepted server ack sent isAck with ⟨acceptor, origin, has⟩
    exact ⟨acceptor, origin, has.keep reached transition⟩
  intro server ack sent isAck
  cases transition with
  | network next move => exact keepOld (move.sent ▸ sent) isAck
  | clientSend | clientRecv | acceptClient | closeClient | recvClient | idleExit =>
      exact keepOld sent isAck
  | proposer other queue found result runs fewer queued move =>
      rw [Group.commit_sent] at sent
      rcases List.mem_append.mp sent with old | new
      · exact keepOld old isAck
      · rcases move.broadcast_cases (move.packet_cases new).1 with ⟨_, rfl⟩ | ⟨_, rfl⟩
        · cases isAck
        · cases isAck
  | acceptor other msg rest result runs queue turn =>
      rw [Group.commitAcceptor_sent] at sent
      rcases List.mem_append.mp sent with old | new
      · exact keepOld old isAck
      · cases turn with
        | duplicate | silent | ended | failed => cases new
        | replied request fresh reply after handled proposer origin =>
            rcases Prod.mk.inj (List.mem_singleton.mp new) with ⟨_, rfl⟩
            cases handled with
            | granted | promised | refused => cases isAck
            | accepted =>
                refine ⟨other, rfl, acceptedRecord msg, ?_, number_of_request reached queue request⟩
                simp [acceptAck]

theorem acksAccepted_reachable (reached : cfg.Reachable group) : AcksAccepted group :=
  reached.invariant (by rintro _ _ ⟨⟩) fun _ _ _ before accepted taken =>
    accepted.keep before (transition_of_step taken)

/-- A resolution rests on acknowledgements of a majority. -/
theorem resolution_acks (reached : cfg.Reachable group) {server : ℕ} {msg : Message}
    (queued : msg ∈ group.proposerQueue server)
    (resolves : Resolves cfg.groupSize (group.proposers server) (next.proposers server) msg) :
    Majority cfg.acceptorIds fun acceptor => ∃ ack, (server, ack) ∈ group.sent ∧
      IsAck acceptor (group.proposers server).inst (group.proposers server).proposerNum ack := by
  have wire := wire_reachable reached
  have tally := (tally_reachable reached).accepting server resolves.waits
  have counted := (tally.count wire (replies_reachable reached) queued resolves.ack).acks
  have enough : cfg.acceptorIds.card / 2 + 1 ≤ (group.proposers server).responseCnt + 1 := by
    have many := resolves.many
    rw [Finset.card_range]
    omega
  refine AtLeast.mono (AtLeast.fewer counted enough) fun acceptor _ seen => ?_
  rcases seen with ⟨ack, isAck, member⟩
  refine ⟨ack, ?_, isAck⟩
  rcases List.mem_cons.mp member with isLast | old
  · exact Message.signature_injective isLast ▸ wire.sent_of_queued queued resolves.ack.kind
  · exact (wire.sent_of_seen old).1

/-- A majority has accepted every instance that a server has passed. -/
theorem resolved_accepted (reached : cfg.Reachable group) (server : ℕ) {index : ℕ}
    (below : index < (group.proposers server).inst) :
    Majority cfg.acceptorIds (HasAccepted group · index) := by
  revert server index
  refine @Machine.Reachable.invariant _ _ _ (fun state => ∀ (server : ℕ) {index : ℕ},
    index < (state.proposers server).inst → Majority cfg.acceptorIds (HasAccepted state · index))
    ?_ ?_ _ reached
  · intro server index below
    cases below
  intro group label next before accepted taken server index below
  have transition := transition_of_step taken
  have keepOld (old : index < (group.proposers server).inst) :
      Majority cfg.acceptorIds (HasAccepted next · index) :=
    AtLeast.mono (accepted server old) fun _ _ has => has.keep before transition
  rcases step_records taken server with ⟨_, same⟩ | ⟨msg, queued, _, resolves⟩
  · exact keepOld (same ▸ below)
  rcases Nat.lt_or_ge index (group.proposers server).inst with old | new
  · exact keepOld old
  have here : index = (group.proposers server).inst := by
    have bound : (next.proposers server).inst ≤ (group.proposers server).inst + 1 := by
      rcases resolves.after with ⟨state, _, same⟩
      rw [same]
      rcases resolve_cases ((group.proposers server).won cfg.groupSize msg state) msg with
        ⟨error, _, same⟩ | ⟨lockSet, _, same⟩
      · rw [same]
        exact Nat.le_succ _
      · rw [same]
        exact le_rfl
    omega
  refine AtLeast.mono (resolution_acks before queued resolves)
    fun acceptor _ ⟨ack, sent, isAck⟩ => ?_
  rcases acksAccepted_reachable before server ack sent isAck.msgType with ⟨other, origin, has⟩
  obtain rfl := Option.some.inj (isAck.origin.symm.trans origin)
  rw [here, ← isAck.inst]
  exact has.keep before transition

end Keep

end CSE550.Paxos
