import CSE550.Paxos.Collect

/-!
Owns the ways on which a proposer with a client command resolves its instance
when nothing more is lost: a round won with replies and grants, a value placed
with one acceptor, and from one acceptor that has accepted on to a resolution.

Does not own which states offer such a way.
-/

namespace CSE550.Paxos

open CSE550.Lib

/-! ### What one acceptor answers -/

section Handle

variable {serverId : ℕ} {acceptHistory : AcceptHistory} {msg : Message}

theorem handleRequest_accept (isAccept : msg.msgType = .ACCEPT)
    (isOpen : ∀ record, acceptHistory.lookup msg.inst = some record →
      record.prep ≤ msg.proposal) :
    handleRequest serverId acceptHistory msg =
      (some (acceptAck serverId msg), acceptHistory.insert msg.inst (acceptedRecord msg)) := by
  unfold handleRequest handleAccept
  rw [if_neg (by simp [isAccept])]
  cases found : acceptHistory.lookup msg.inst with
  | none => rfl
  | some record => exact if_pos (isOpen record found)

/-- The first PREPARE for an instance is granted with a reply that names a client. -/
theorem handleRequest_grant (isPrepare : msg.msgType = .PREPARE)
    (unseen : acceptHistory.lookup msg.inst = none) :
    ∃ reply after, handleRequest serverId acceptHistory msg = (some reply, after) ∧
      reply.msgType = .PREPARE_ACK ∧ reply.clientId ≠ none ∧ reply.inst = msg.inst := by
  unfold handleRequest handlePrepare
  rw [if_pos isPrepare, unseen]
  exact ⟨_, _, rfl, rfl, by simp, rfl⟩

/-- A higher PREPARE is refused once a value is accepted. -/
theorem handleRequest_refuse (isPrepare : msg.msgType = .PREPARE) {record : AcceptRecord}
    (known : acceptHistory.lookup msg.inst = some record) (higher : record.prep < msg.proposal)
    (accepted : record.accp ≠ noNumber) :
    ∃ reply, handleRequest serverId acceptHistory msg =
        (some reply, acceptHistory.insert msg.inst { record with prep := msg.proposal }) ∧
      reply.msgType = .PREPARE_NACK ∧ reply.inst = msg.inst := by
  unfold handleRequest handlePrepare
  rw [if_pos isPrepare, known]
  simp only [if_pos higher]
  exact ⟨_, rfl, if_pos accepted, rfl⟩

end Handle

theorem OpenTo.of_same {before after : Group} {acceptor : ℕ} {inst : WithBot ℕ}
    {number : WithBot ℤ} (isOpen : OpenTo before acceptor inst number)
    (same : after.acceptors acceptor = before.acceptors acceptor) :
    OpenTo after acceptor inst number := by
  unfold OpenTo
  rw [same]
  exact isOpen

theorem OpenTo.mono {group : Group} {acceptor : ℕ} {inst : WithBot ℕ} {number higher : WithBot ℤ}
    (isOpen : OpenTo group acceptor inst number) (le : number ≤ higher) :
    OpenTo group acceptor inst higher :=
  fun record found => (isOpen record found).trans le

/-- Some number is above all promises of finitely many acceptors. -/
theorem exists_open (group : Group) (inst : WithBot ℕ) (acceptors : List ℕ) :
    ∃ bound : ℤ, ∀ acceptor ∈ acceptors, OpenTo group acceptor inst bound := by
  induction acceptors with
  | nil => exact ⟨0, by simp⟩
  | cons acceptor acceptors inductionHypothesis =>
      rcases inductionHypothesis with ⟨bound, all⟩
      have own : ∃ number : ℤ, OpenTo group acceptor inst number := by
        cases found : (group.acceptors acceptor).acceptHistory.lookup inst with
        | none => exact ⟨0, fun record same => by simp [found] at same⟩
        | some record =>
            refine ⟨record.prep.unbotD 0, fun other same => ?_⟩
            rw [← Option.some.inj (found.symm.trans same)]
            exact WithBot.le_coe_unbotD record.prep 0
      rcases own with ⟨number, isOpen⟩
      refine ⟨max number bound, fun other member => ?_⟩
      rcases List.mem_cons.mp member with rfl | later
      · exact isOpen.mono (WithBot.coe_le_coe.mpr (le_max_left number bound))
      · exact (all other later).mono (WithBot.coe_le_coe.mpr (le_max_right number bound))

section Facts

variable {cfg : Config} {server : ℕ} {group : Group} {msg : Message}

/-- The proposer has not read what was not sent to it. -/
theorem Wire.fresh_of_new (wire : Wire cfg group) (new : (server, msg) ∉ group.sent) :
    msg.signature ∉ (group.proposers server).msgHistory :=
  fun seen => new (wire.sent_of_seen seen).1

/-- A PREPARE_NACK names a client. -/
theorem nack_client (reached : cfg.Reachable group) (sent : (server, msg) ∈ group.sent)
    (kind : msg.msgType = .PREPARE_NACK) : msg.clientId ≠ none := by
  rcases refines_reachable reached with ⟨ledger, _, refines⟩
  rcases refines.nack_carries (wire_reachable reached) (replies_reachable reached) sent kind with
    ⟨index, entry, _, _, contents⟩
  rw [(Prod.mk.inj contents).2]
  simp

/-- The number of a broadcast is none of the acceptors' `-1`. -/
theorem proposal_ne_noNumber (reached : cfg.Reachable group) {acceptor : ℕ}
    (sent : (acceptor, msg) ∈ group.sent) (kind : msg.msgType ∈ acceptorMsgTypes) :
    msg.proposal ≠ noNumber := by
  have among := (wire_reachable reached).requests acceptor msg sent kind
  rcases (numbers_reachable reached).residues msg among with ⟨origin, _, steps, _, number⟩
  rw [number]
  intro same
  have below : (origin + steps * cfg.groupSize : ℤ) = -1 := WithBot.coe_injective same
  have natural : (0 : ℤ) ≤ origin + steps * cfg.groupSize := by positivity
  omega

end Facts

/-! ### A proposer that waits lacks a majority -/

theorem ProposerMove.few {groupSize serverId : ℕ} {proposer : Proposer}
    {taken : Option Message} {result : Proposer × Output}
    (move : ProposerMove groupSize serverId proposer taken result)
    (few : proposer.state = .PROPOSING ∨ proposer.state = .ACCEPTING →
      proposer.responseCnt ≤ groupSize / 2)
    (waits : result.1.state = .PROPOSING ∨ result.1.state = .ACCEPTING) :
    result.1.responseCnt ≤ groupSize / 2 := by
  cases move with
  | ready | accept => exact Nat.zero_le _
  | acceptRaised state => simp [Proposer.raise, state] at waits
  | proposingTimeout => simp [Proposer.abandon] at waits
  | acceptingTimeout => simp [Proposer.acceptingTimeout] at waits
  | proposing address msg state after outcome =>
      cases outcome with
      | counted reply below => exact below
      | unchanged | passed | raised => exact few (.inl state)
      | refused | exited | blocked => simp [Proposer.abandon] at waits
      | won => simp at waits
  | accepting msg state result outcome =>
      cases outcome with
      | counted ack below => exact below
      | unchanged | passed | exited | raisedOther => exact few (.inr state)
      | raisedLater later changed same =>
          rcases same with rfl | rfl
          · exact few (.inr state)
          · exact few (.inr state)
      | lost => simp [Proposer.raise, Proposer.won] at waits
      | own | other => simp [Proposer.won] at waits

theorem waiting_few {cfg : Config} {group : Group} (reached : cfg.Reachable group)
    (server : ℕ) : (group.proposers server).state = .PROPOSING ∨
      (group.proposers server).state = .ACCEPTING →
        (group.proposers server).responseCnt ≤ cfg.groupSize / 2 := by
  revert server
  refine @Machine.Reachable.invariant _ _ _ (fun state => ∀ server,
    (state.proposers server).state = .PROPOSING ∨ (state.proposers server).state = .ACCEPTING →
      (state.proposers server).responseCnt ≤ cfg.groupSize / 2) ?_ ?_ _ reached
  · exact fun _ _ => Nat.zero_le _
  intro group label next _ few taken server waits
  have onlyIn {other : ℕ} {changed : Proposer}
      (own : changed.state = .PROPOSING ∨ changed.state = .ACCEPTING →
        changed.responseCnt ≤ cfg.groupSize / 2) :=
    (Function.forall_update_iff group.proposers fun _ (after : Proposer) =>
      after.state = .PROPOSING ∨ after.state = .ACCEPTING →
        after.responseCnt ≤ cfg.groupSize / 2).mpr
          ⟨own, fun server (_ : server ≠ other) => few server⟩
  cases transition_of_step taken with
  | network _ move =>
      rw [move.proposers] at waits ⊢
      exact few server waits
  | clientSend | clientRecv | acceptor => exact few server waits
  | acceptClient other | closeClient other | idleExit other =>
      refine onlyIn ?_ server waits
      exact fun state => few other state
  | recvClient => exact onlyIn (by simp [Proposer.receiveCommand]) server waits
  | proposer other queue found result runs fewer queued move =>
      rw [Group.commit_proposers] at waits ⊢
      refine onlyIn ?_ server waits
      exact fun state => move.few (few other) state

/-! ### One acceptor accepts -/

/-- An ACCEPT in flight to an acceptor that is open to it is accepted. -/
theorem Requested.accepts {cfg : Config} {group : Group} {acceptor origin : ℕ} {request : Message}
    (requested : Requested cfg group acceptor origin request) (reached : cfg.Reachable group)
    (isAccept : request.msgType = .ACCEPT)
    (isOpen : OpenTo group acceptor request.inst request.proposal) :
    ∃ after, Goes cfg group after ∧ after.proposers = group.proposers ∧
      HasAccepted after acceptor request.inst := by
  have handled : handleRequest acceptor (group.acceptors acceptor).acceptHistory request = _ :=
    handleRequest_accept isAccept isOpen
  refine ⟨_, requested.goes handled, rfl, acceptedRecord request, ?_, ?_⟩
  · simp [Group.answered]
  · exact proposal_ne_noNumber reached
      ((wire_reachable reached).flight _ requested.inFlight) requested.kind

section Ways

variable {cfg : Config} {server acceptor : ℕ} {group : Group}

/-- An available acceptor with an unread request of the server in flight. -/
theorem Available.requested {request : Message} (available : Available cfg server group acceptor)
    (inFlight : (acceptor, request) ∈ group.flight)
    (unread : request.signature ∉ (group.acceptors acceptor).msgHistory)
    (kind : request.msgType ∈ acceptorMsgTypes) (origin : request.originId = some server) :
    Requested cfg group acceptor server request where
  runs := available.runs
  idle := available.idle
  connected := available.answers
  inFlight := inFlight
  unread := unread
  kind := kind
  origin := origin

/-- ACCEPT: the value is placed with an acceptor that is open to the number. -/
theorem Busy.place (busy : Busy cfg server group)
    (accept : (group.proposers server).state = .ACCEPT)
    (available : Available cfg server group acceptor)
    (isOpen : OpenTo group acceptor (group.proposers server).inst
      (group.proposers server).proposerNum) :
    ∃ after, Goes cfg group after ∧
      HasAccepted after acceptor (group.proposers server).inst := by
  rcases busy.propose accept with ⟨asked, goes, resumes, _, _, _, requests⟩
  rcases requests acceptor available.reaches with ⟨inFlight, unread⟩
  have requested := (available.go goes.carries).requested inFlight
    (by rwa [resumes.acceptors]) (acceptMsg_request _ _) rfl
  rcases requested.accepts (goes.continues.reachable busy.reached) rfl
    (isOpen.of_same (by rw [resumes.acceptors])) with ⟨after, goesOn, _, accepted⟩
  exact ⟨after, goes.trans goesOn, accepted⟩

/-! ### A wait that can still end -/

/-- A reply on its way to the server that raises the count it waits for. -/
structure UnderWay (group : Group) (server : ℕ) (reply : Message) : Prop where
  counts : (group.proposers server).Counts reply
  place : reply ∈ group.proposerQueue server ∨ (server, reply) ∈ group.flight

/-- The acceptor answers a request of the server in flight with a reply that counts. -/
structure WillCount (cfg : Config) (group : Group) (server acceptor : ℕ) (request : Message) :
    Prop where
  requested : Requested cfg group acceptor server request
  answer : ∃ reply acceptHistory,
    handleRequest acceptor (group.acceptors acceptor).acceptHistory request =
      (some reply, acceptHistory) ∧
    (reply.signature ∉ (group.proposers server).msgHistory →
      (group.proposers server).Counts reply)

/-- Requests in flight become replies in flight that count. -/
theorem Busy.answers {acceptors : List ℕ} {requests : ℕ → Message}
    (busy : Busy cfg server group) (distinct : acceptors.Nodup)
    (willCount : ∀ acceptor ∈ acceptors,
      WillCount cfg group server acceptor (requests acceptor)) :
    ∃ (after : Group) (replies : List Message), Served cfg server requests acceptors group after ∧
      replies.Nodup ∧ replies.length = acceptors.length ∧
      ∀ reply ∈ replies, (group.proposers server).Counts reply ∧
        (server, reply) ∈ after.flight ∧ (server, reply) ∉ group.sent := by
  rcases serve busy.reached distinct
      (fun acceptor member => (willCount acceptor member).requested)
    (fun acceptor member => (willCount acceptor member).answer) with
    ⟨after, replies, served, distinctReplies, length, all⟩
  refine ⟨after, replies, served, distinctReplies, length, fun reply member => ?_⟩
  rcases all reply member with ⟨counts, flying, new⟩
  exact ⟨counts ((wire_reachable busy.reached).fresh_of_new new), flying, new⟩

/-- Replies taken in a row were sent to the server. -/
theorem InRow.sent {queue messages : List Message} (wire : Wire cfg group)
    (inRow : InRow group server queue messages)
    (inside : ∀ msg ∈ queue, msg ∈ group.proposerQueue server) {reply : Message}
    (member : reply ∈ messages) (kind : reply.msgType ∈ proposerMsgTypes) :
    (server, reply) ∈ group.sent := by
  cases inRow with
  | onQueue _ first => exact wire.sent_of_queued (inside reply (first.subset member)) kind
  | behind arriving _ inFlight =>
      rcases List.mem_append.mp member with queued | flying
      · exact wire.sent_of_queued (inside reply queued) kind
      · exact wire.flight _ (inFlight reply flying).1

/-- New replies in flight come behind the others. -/
theorem InRow.append {after : Group} {queue messages more : List Message} (wire : Wire cfg group)
    (inRow : InRow group server queue messages)
    (stays : ∀ reply, (server, reply) ∈ group.flight → reply.msgType ∈ proposerMsgTypes →
      (server, reply) ∈ after.flight)
    (behind : more ≠ [] → queue <+: messages) (distinct : more.Nodup)
    (new : ∀ reply ∈ more, (server, reply) ∈ after.flight ∧
      reply.msgType ∈ proposerMsgTypes ∧ (server, reply) ∉ group.sent) :
    InRow after server queue (messages ++ more) := by
  have later (arriving : List Message) (different : arriving.Nodup)
      (inFlight : ∀ reply ∈ arriving,
        (server, reply) ∈ group.flight ∧ reply.msgType ∈ proposerMsgTypes) :
      InRow after server queue ((queue ++ arriving) ++ more) := by
    rw [List.append_assoc]
    refine .behind _ (List.Nodup.append different distinct fun reply old isNew => ?_) ?_
    · exact (new reply isNew).2.2 (wire.flight _ (inFlight reply old).1)
    · intro reply member
      rcases List.mem_append.mp member with old | isNew
      · rcases inFlight reply old with ⟨flying, kind⟩
        exact ⟨stays reply flying kind, kind⟩
      · exact ⟨(new reply isNew).1, (new reply isNew).2.1⟩
  cases inRow with
  | onQueue _ first =>
      by_cases none : more = []
      · rw [none, List.append_nil]
        exact .onQueue _ first
      · have whole : messages = queue :=
          first.eq_of_length (le_antisymm first.length_le (behind none).length_le)
        have arrives := later [] List.nodup_nil (by simp)
        rw [List.append_nil] at arrives
        rw [whole]
        exact arrives
  | behind arriving different inFlight => exact later arriving different inFlight

/-- Replies under way and acceptors that will send one end the wait when they are
enough. -/
theorem Busy.settle {messages replies : List Message} {acceptors : List ℕ}
    {requests : ℕ → Message} (busy : Busy cfg server group)
    (waits : (group.proposers server).state = .PROPOSING ∨
      (group.proposers server).state = .ACCEPTING)
    (inRow : InRow group server (group.proposerQueue server) messages)
    (clean : (group.proposers server).state = .PROPOSING →
      (∀ msg ∈ messages, msg.clientId ≠ none) ∧
        Unblocks cfg.groupSize (group.proposers server) messages)
    (distinct : replies.Nodup)
    (counted : ∀ reply ∈ replies, reply ∈ messages ∧ (group.proposers server).Counts reply)
    (different : acceptors.Nodup)
    (behind : acceptors ≠ [] → group.proposerQueue server <+: messages)
    (willCount : ∀ acceptor ∈ acceptors,
      WillCount cfg group server acceptor (requests acceptor))
    (enough : cfg.groupSize / 2 <
      (group.proposers server).responseCnt + (replies.length + acceptors.length)) :
    ∃ middle after, Served cfg server requests acceptors group middle ∧
      Ends cfg server middle after := by
  have wire := wire_reachable busy.reached
  rcases busy.answers different willCount with
    ⟨middle, answered, served, distinctAnswered, length, new⟩
  have inRowOn : InRow middle server (middle.proposerQueue server) (messages ++ answered) := by
    rw [served.queues]
    refine inRow.append wire (fun reply flying kind => served.flight _ flying fun _ => kind)
      (fun some => behind ?_) distinctAnswered
      (fun reply member => ⟨(new reply member).2.1, (new reply member).1.kind,
        (new reply member).2.2⟩)
    rintro rfl
    exact some (List.length_eq_zero_iff.mp length)
  have cleanOn : (middle.proposers server).state = .PROPOSING →
      (∀ msg ∈ messages ++ answered, msg.clientId ≠ none) ∧
        Unblocks cfg.groupSize (middle.proposers server) (messages ++ answered) := by
    rw [served.proposers]
    intro proposing
    rcases clean proposing with ⟨present, unblocks⟩
    refine ⟨fun msg member => ?_, unblocks.append answered⟩
    rcases List.mem_append.mp member with old | isNew
    · exact present msg old
    · rcases (new msg isNew).1 with ⟨_, reply⟩ | ⟨accepting, _⟩
      · exact reply.clientId
      · exact absurd (proposing.symm.trans accepting) (by decide)
  have apart : (replies ++ answered).Nodup := by
    refine List.Nodup.append distinct distinctAnswered fun reply old isNew => ?_
    exact (new reply isNew).2.2
      (inRow.sent wire (fun _ => id) (counted reply old).1 (counted reply old).2.kind)
  have countedOn : ∀ reply ∈ replies ++ answered, reply ∈ messages ++ answered ∧
      (middle.proposers server).Counts reply := by
    rw [served.proposers]
    intro reply member
    rcases List.mem_append.mp member with old | isNew
    · exact ⟨List.mem_append_left _ (counted reply old).1, (counted reply old).2⟩
    · exact ⟨List.mem_append_right _ isNew, (new reply isNew).1⟩
  have total : cfg.groupSize / 2 <
      (middle.proposers server).responseCnt + (replies ++ answered).length := by
    rwa [served.proposers, List.length_append, length]
  have waitsOn : (middle.proposers server).state = .PROPOSING ∨
      (middle.proposers server).state = .ACCEPTING := by rwa [served.proposers]
  have busyOn := busy.go served.goes
  rcases busyOn.gather waitsOn inRowOn cleanOn (waiting_few busyOn.reached server waitsOn) apart
    countedOn total with ⟨after, ends⟩
  exact ⟨middle, after, served, ends⟩

/-! ### ACCEPTING -/

/-- The acceptor acknowledges the ACCEPT the server waits for. -/
structure WillAck (cfg : Config) (group : Group) (server acceptor : ℕ) : Prop where
  requested : Requested cfg group acceptor server ((group.proposers server).acceptMsg server)
  isOpen : OpenTo group acceptor (group.proposers server).inst
    (group.proposers server).proposerNum

/-- The server can still count a majority of acknowledgements. -/
structure CanFinish (cfg : Config) (group : Group) (server : ℕ) : Prop where
  accepting : (group.proposers server).state = .ACCEPTING
  majority : ∃ (acks : List Message) (acceptors : List ℕ), acks.Nodup ∧ acceptors.Nodup ∧
    (∀ ack ∈ acks, UnderWay group server ack) ∧
    (∀ acceptor ∈ acceptors, WillAck cfg group server acceptor) ∧
    cfg.groupSize / 2 < (group.proposers server).responseCnt + (acks.length + acceptors.length)

theorem WillAck.counts (willAck : WillAck cfg group server acceptor)
    (accepting : (group.proposers server).state = .ACCEPTING) :
    WillCount cfg group server acceptor ((group.proposers server).acceptMsg server) where
  requested := willAck.requested
  answer := ⟨_, _, handleRequest_accept rfl willAck.isOpen,
    fun fresh => .inr ⟨accepting, rfl, rfl, rfl, fresh⟩⟩

theorem Busy.complete (busy : Busy cfg server group) (canFinish : CanFinish cfg group server) :
    ∃ final, EndsResolved cfg server group final := by
  rcases canFinish with ⟨accepting, acks, acceptors, distinct, different, underWay, will, enough⟩
  have never {outcome : Prop} (proposing : (group.proposers server).state = .PROPOSING) : outcome :=
    absurd (proposing.symm.trans accepting) (by decide)
  have inRow : InRow group server (group.proposerQueue server)
      (group.proposerQueue server ++ acks.filter (· ∉ group.proposerQueue server)) := by
    refine .behind _ (distinct.filter _) fun ack member => ?_
    simp only [List.mem_filter, decide_eq_true_eq] at member
    exact ⟨(underWay ack member.1).place.resolve_left member.2, (underWay ack member.1).counts.kind⟩
  have counted : ∀ ack ∈ acks, ack ∈ group.proposerQueue server ++
      acks.filter (· ∉ group.proposerQueue server) ∧ (group.proposers server).Counts ack := by
    intro ack member
    refine ⟨?_, (underWay ack member).counts⟩
    by_cases queued : ack ∈ group.proposerQueue server
    · exact List.mem_append_left _ queued
    · exact List.mem_append_right _ (by simp [member, queued])
  rcases busy.settle (.inr accepting) inRow never distinct counted different
    (fun _ => List.prefix_append _ _)
    (fun acceptor member => (will acceptor member).counts accepting) enough with
    ⟨middle, final, served, ends⟩
  cases ends with
  | won proposing =>
      rw [served.proposers] at proposing
      exact never proposing
  | resolved _ resolved =>
      exact ⟨final, resolved.before served.goes (served.elsewhere _ fun _ _ => rfl)⟩

/-- ACCEPT: a majority of open acceptors resolves the instance. -/
theorem Busy.finish {quorum : List ℕ} (busy : Busy cfg server group)
    (accept : (group.proposers server).state = .ACCEPT) (distinct : quorum.Nodup)
    (many : cfg.groupSize / 2 < quorum.length)
    (available : ∀ acceptor ∈ quorum, Available cfg server group acceptor)
    (isOpen : ∀ acceptor ∈ quorum, OpenTo group acceptor (group.proposers server).inst
      (group.proposers server).proposerNum) :
    ∃ final, EndsResolved cfg server group final := by
  rcases busy.propose accept with ⟨asked, goes, resumes, accepting, _, same, requests⟩
  have inst := (goes.carries.task server).inst
  have number : (asked.proposers server).proposerNum = (group.proposers server).proposerNum :=
    WithBot.coe_injective (congrArg Message.proposal same)
  have will : ∀ acceptor ∈ quorum, WillAck cfg asked server acceptor := by
    intro acceptor member
    rcases requests acceptor (available acceptor member).reaches with ⟨inFlight, unread⟩
    refine ⟨?_, ?_⟩
    · rw [same]
      exact ((available acceptor member).go goes.carries).requested inFlight
        (by rwa [resumes.acceptors]) (acceptMsg_request _ _) rfl
    · rw [inst, number]
      exact (isOpen acceptor member).of_same (by rw [resumes.acceptors])
  have canFinish : CanFinish cfg asked server :=
    ⟨accepting, [], quorum, List.nodup_nil, distinct, by simp, will, by simp; omega⟩
  rcases (busy.go goes).complete canFinish with ⟨final, resolved⟩
  exact ⟨final, resolved.before goes (.of_same _ resumes.acceptors)⟩

/-! ### PROPOSING -/

/-- The acceptor has no record of the instance. -/
def Unseen (group : Group) (acceptor : ℕ) (inst : WithBot ℕ) : Prop :=
  (group.acceptors acceptor).acceptHistory.lookup inst = none

/-- The acceptor grants the server's instance on a PREPARE in flight. -/
structure WillGrant (cfg : Config) (group : Group) (server acceptor : ℕ) (request : Message) :
    Prop where
  requested : Requested cfg group acceptor server request
  prepare : request.msgType = .PREPARE
  inst : request.inst = (group.proposers server).inst
  unseen : Unseen group acceptor (group.proposers server).inst

/-- A proposer that waits for promises can count a majority: replies among the
messages that it takes off the queue in a row, none of which ends the round, and
behind them the grants of acceptors. The majority does not find it blocked. -/
inductive CanCount (cfg : Config) (group : Group) (server : ℕ) (proposer : Proposer)
    (queue : List Message) (grants : ℕ → Prop) : Prop
  | intro (messages replies : List Message) (acceptors : List ℕ)
      (inRow : InRow group server queue messages) (clean : ∀ msg ∈ messages, msg.clientId ≠ none)
      (unblocks : Unblocks cfg.groupSize proposer messages) (distinct : replies.Nodup)
      (counted : ∀ reply ∈ replies, reply ∈ messages ∧ CountedReply proposer reply)
      (different : acceptors.Nodup) (behind : acceptors ≠ [] → queue <+: messages)
      (grant : ∀ acceptor ∈ acceptors, grants acceptor)
      (enough : cfg.groupSize / 2 < proposer.responseCnt + (replies.length + acceptors.length))

/-- The current round of the server can bring a majority. -/
structure CanWin (cfg : Config) (group : Group) (server : ℕ) : Prop where
  proposing : (group.proposers server).state = .PROPOSING
  count : CanCount cfg group server (group.proposers server) (group.proposerQueue server)
    fun acceptor => ∃ request, WillGrant cfg group server acceptor request

theorem WillGrant.counts {request : Message}
    (willGrant : WillGrant cfg group server acceptor request)
    (proposing : (group.proposers server).state = .PROPOSING) :
    WillCount cfg group server acceptor request where
  requested := willGrant.requested
  answer := by
    have unseen := willGrant.unseen
    unfold Unseen at unseen
    rw [← willGrant.inst] at unseen
    rcases @handleRequest_grant acceptor _ _ willGrant.prepare unseen with
      ⟨reply, after, handled, kind, client, inst⟩
    exact ⟨reply, after, handled, fun fresh =>
      .inl ⟨proposing, .inl kind, client, inst.trans willGrant.inst, fresh⟩⟩

/-- A request in flight waits on while no acceptor moves. -/
theorem Requested.go {origin : ℕ} {request : Message} {after : Group}
    (requested : Requested cfg group acceptor origin request) (carries : Carries group after)
    (acceptors : after.acceptors = group.acceptors)
    (stays : ∀ packet ∈ group.flight, packet ∈ after.flight) :
    Requested cfg after acceptor origin request where
  runs := by
    rcases requested.runs with ⟨known, up, running⟩
    exact ⟨known, by rw [carries.stopped, up], by rw [acceptors, running]⟩
  idle := by rw [carries.acceptorQueue, requested.idle]
  connected := by rw [acceptors]; exact requested.connected
  inFlight := stays _ requested.inFlight
  unread := by rw [acceptors]; exact requested.unread
  kind := requested.kind
  origin := requested.origin

theorem WillGrant.go {request : Message} {taken : List Message} {after : Group}
    (willGrant : WillGrant cfg group server acceptor request) (goes : Goes cfg group after)
    (resumes : Resumes server taken group after) : WillGrant cfg after server acceptor request where
  requested := willGrant.requested.go goes.carries resumes.acceptors resumes.flight
  prepare := willGrant.prepare
  inst := by rw [willGrant.inst, (goes.carries.task server).inst]
  unseen := by
    unfold Unseen
    rw [resumes.acceptors, (goes.carries.task server).inst]
    exact willGrant.unseen

/-- Such a round leads to ACCEPT; acceptors open to its number stay open. -/
theorem Busy.win (busy : Busy cfg server group) (canWin : CanWin cfg group server) :
    ∃ after, Goes cfg group after ∧ (after.proposers server).state = .ACCEPT ∧
      ∀ other, OpenTo group other (group.proposers server).inst
        (group.proposers server).proposerNum →
          OpenTo after other (after.proposers server).inst
            (after.proposers server).proposerNum := by
  rcases canWin with ⟨proposing, ⟨messages, replies, acceptors, inRow, clean, unblocks, distinct,
    counted, different, behind, grants, enough⟩⟩
  have : Nonempty Message := ⟨exitMessage none⟩
  choose! requests grants using grants
  rcases busy.settle (.inl proposing) inRow (fun _ => ⟨clean, unblocks⟩) distinct
    (fun reply member => ⟨(counted reply member).1, .inl ⟨proposing, (counted reply member).2⟩⟩)
    different behind (fun acceptor member => (grants acceptor member).counts proposing) enough with
    ⟨middle, after, served, ends⟩
  cases ends with
  | won _ goes acceptors number accept =>
      refine ⟨after, served.goes.trans goes, accept, fun other isOpen => ?_⟩
      rw [served.proposers] at number
      have openTo : OpenTo middle other (group.proposers server).inst
          (group.proposers server).proposerNum := by
        refine served.openTo other _ _ isOpen fun member => ?_
        have wire := wire_reachable busy.reached
        have requested := (grants other member).requested
        have among := wire.requests other _ (wire.flight _ requested.inFlight) requested.kind
        exact ((numbers_reachable busy.reached).servers server).bound _ among requested.origin
      rw [(goes.carries.task server).inst, served.proposers]
      exact (openTo.mono (WithBot.coe_le_coe.mpr number)).of_same (by rw [acceptors])
  | resolved accepting =>
      rw [served.proposers] at accepting
      exact absurd (proposing.symm.trans accepting) (by decide)

/-- The proposer in a new round, after rounds in which it has read the messages. -/
def Proposer.afterRounds (proposer : Proposer) (messages : List Message) : Proposer :=
  { proposer with
    responseCnt := 0
    preNacks := []
    msgHistory := messages.map Message.signature ++ proposer.msgHistory }

/-- A new round of the server, once it has taken some messages off the queue, can
bring a majority. Acceptors without a record grant its PREPARE or one in flight. -/
inductive CanStart (cfg : Config) (group : Group) (server : ℕ) : Prop
  | intro (drained later : List Message) (queue : group.proposerQueue server = drained ++ later)
      (count : CanCount cfg group server ((group.proposers server).afterRounds drained) later
        fun acceptor => (Available cfg server group acceptor ∧
          Unseen group acceptor (group.proposers server).inst) ∨
            ∃ request, WillGrant cfg group server acceptor request)

theorem InRow.mono {after : Group} {queue messages : List Message}
    (inRow : InRow group server queue messages)
    (stays : ∀ packet ∈ group.flight, packet ∈ after.flight) :
    InRow after server queue messages := by
  cases inRow with
  | onQueue _ first => exact .onQueue _ first
  | behind arriving distinct inFlight =>
      exact .behind arriving distinct fun reply member =>
        ⟨stays _ (inFlight reply member).1, (inFlight reply member).2⟩

/-- The same replies count, and a blocked proposer is no more blocked than the other. -/
theorem Unblocks.of_same {groupSize : ℕ} {left right : Proposer} {messages : List Message}
    (unblocks : Unblocks groupSize left messages) (free : ¬ left.blocked → ¬ right.blocked)
    (nacks : left.preNacks ≠ [] → right.preNacks ≠ [])
    (count : right.responseCnt = left.responseCnt)
    (counted : ∀ reply, CountedReply left reply ↔ CountedReply right reply) :
    Unblocks groupSize right messages := by
  cases unblocks with
  | free unblocked => exact .free (free unblocked)
  | learnt some => exact .learnt (nacks some)
  | learns early late nack split isNack reply few =>
      refine .learns early late nack split isNack ((counted nack).mp reply) ?_
      intro replies inside distinct all
      rw [count]
      exact few replies inside distinct fun other member => (counted other).mpr (all other member)

/-- What counts in a new round is what neither was read before nor in the rounds between. -/
theorem Resumes.counted_iff {taken : List Message} {after : Group} {reply : Message}
    (resumes : Resumes server taken group after)
    (task : SameTask (group.proposers server) (after.proposers server)) :
    CountedReply ((group.proposers server).afterRounds taken) reply ↔
      CountedReply (after.proposers server) reply := by
  constructor
  · rintro ⟨kind, client, inst, fresh⟩
    refine ⟨kind, client, by rw [task.inst]; exact inst, fun seen => fresh ?_⟩
    rcases resumes.history _ seen with old | ⟨msg, read, same⟩
    · exact List.mem_append_right _ old
    · exact List.mem_append_left _ (List.mem_map.mpr ⟨msg, read, same⟩)
  · intro counted
    refine ⟨counted.msgType, counted.clientId, by rw [counted.inst, task.inst]; rfl, ?_⟩
    intro seen
    rcases List.mem_append.mp seen with isTaken | old
    · rcases List.mem_map.mp isTaken with ⟨msg, read, same⟩
      obtain rfl := Message.signature_injective same
      exact counted.fresh (resumes.read msg read counted.clientId counted.kind)
    · exact counted.fresh (resumes.remembers _ old)

/-- The new round, with a number above any bound. -/
theorem Busy.start (busy : Busy cfg server group) (canStart : CanStart cfg group server)
    (bound : ℤ) :
    ∃ after, Goes cfg group after ∧ after.acceptors = group.acceptors ∧
      bound < (after.proposers server).proposerNum ∧ CanWin cfg after server := by
  rcases canStart with ⟨drained, later, queue, messages, replies, acceptors, inRow, clean, unblocks,
    distinct, counted, different, behind, grants, enough⟩
  rcases busy.toReady with ⟨first, goesFirst, resumesFirst, readyFirst⟩
  have busyFirst := busy.go goesFirst
  rcases busyFirst.raise readyFirst bound with
    ⟨second, raises, resumesSecond, readySecond, above⟩
  have busySecond := busyFirst.go raises
  have resumesBoth := resumesFirst.trans resumesSecond
  have queueSecond : second.proposerQueue server = drained ++ later :=
    resumesBoth.queue.symm.trans queue
  rcases busySecond.drain readySecond queueSecond with ⟨third, drains, resumesThird, readyThird⟩
  have busyThird := busySecond.go drains
  rcases busyThird.ask readyThird with
    ⟨asked, asks, resumesLast, proposing, none, number, requests⟩
  have goes := goesFirst.trans (raises.trans (drains.trans asks))
  have task := goes.carries.task server
  have resumes : Resumes server drained group asked := by
    simpa using resumesBoth.trans (resumesThird.trans resumesLast)
  have queueLast : asked.proposerQueue server = later :=
    List.append_cancel_left (resumes.queue.symm.trans queue)
  have countedIff (reply : Message) := @Resumes.counted_iff _ _ _ _ reply resumes task
  refine ⟨asked, goes, resumes.acceptors, ?_, ⟨proposing, ?_⟩⟩
  · rw [number]
    exact lt_of_lt_of_le above resumesThird.number
  rw [queueLast]
  refine ⟨messages, replies, acceptors, inRow.mono resumes.flight, clean,
    unblocks.of_same task.unblocked (fun some => absurd rfl some) none countedIff, distinct,
    fun reply member => ⟨(counted reply member).1, (countedIff reply).mp (counted reply member).2⟩,
    different, behind, fun acceptor member => ?_, ?_⟩
  · have same : (asked.proposers server).inst = (group.proposers server).inst := task.inst
    rcases grants acceptor member with ⟨available, isUnseen⟩ | ⟨request, willGrant⟩
    · have availableOn := available.go goes.carries
      have sameConnections : (third.proposers server).serverConnections =
          (asked.proposers server).serverConnections := (asks.carries.task server).connections.symm
      rcases requests acceptor (by rw [sameConnections]; exact availableOn.reaches) with
        ⟨inFlight, unread⟩
      refine ⟨_, availableOn.requested inFlight (by rwa [resumesLast.acceptors])
        (prepareMsg_request _ _) rfl, rfl, ?_, ?_⟩
      · rw [(asks.carries.task server).inst]
        rfl
      · unfold Unseen
        rw [resumes.acceptors, same]
        exact isUnseen
    · exact ⟨request, willGrant.go goes resumes⟩
  · rw [none]
    simpa [Proposer.afterRounds] using enough

/-! ### One acceptor that has accepted -/

/-- A proposer in READY and the PREPARE_NACKs it has drawn from one acceptor that
has accepted a value. -/
structure Refusing (cfg : Config) (server acceptor : ℕ) (replies : List Message)
    (group : Group) : Prop where
  busy : Busy cfg server group
  ready : (group.proposers server).state = .READY
  empty : group.proposerQueue server = []
  available : Available cfg server group acceptor
  accepted : ∃ record : AcceptRecord, (group.acceptors acceptor).acceptHistory.lookup
    ((group.proposers server).inst : WithBot ℕ) = some record ∧ record.accp ≠ noNumber ∧
      record.prep < (group.proposers server).proposerNum
  distinct : replies.Nodup
  replies : ∀ reply ∈ replies, (server, reply) ∈ group.flight ∧
    reply.msgType = .PREPARE_NACK ∧ CountedReply (group.proposers server) reply

/-- A reply that counts does so as long as the instance and the history stay. -/
theorem CountedReply.of_task {before after : Proposer} {reply : Message}
    (counted : CountedReply before reply) (task : SameTask before after)
    (history : ∀ signature ∈ after.msgHistory, signature ∈ before.msgHistory) :
    CountedReply after reply :=
  ⟨counted.msgType, counted.clientId, by rw [task.inst, counted.inst],
    fun seen => counted.fresh (history _ seen)⟩

theorem Resumes.history_nil {before after : Group} (resumes : Resumes server [] before after)
    {signature : Signature} (member : signature ∈ (after.proposers server).msgHistory) :
    signature ∈ (before.proposers server).msgHistory := by
  rcases resumes.history signature member with old | ⟨_, impossible, _⟩
  · exact old
  · cases impossible

/-- One more round draws one more PREPARE_NACK. -/
theorem Refusing.once {replies : List Message}
    (refusing : Refusing cfg server acceptor replies group) :
    ∃ after reply, Goes cfg group after ∧
      Refusing cfg server acceptor (reply :: replies) after ∧
      (group.proposers server).proposerNum ≤ (after.proposers server).proposerNum ∧
      Elsewhere (group.proposers server).inst group after ∧
      ∀ other ≠ acceptor, after.acceptors other = group.acceptors other := by
  rcases refusing.accepted with ⟨record, known, something, higher⟩
  rcases refusing.busy.ask refusing.ready with
    ⟨asked, asks, resumes, proposing, _, number, requests⟩
  rcases requests acceptor refusing.available.reaches with ⟨inFlight, unread⟩
  have busyAsked := refusing.busy.go asks
  have requested := (refusing.available.go asks.carries).requested inFlight
    (by rwa [resumes.acceptors]) (prepareMsg_request _ _) rfl
  rw [← resumes.acceptors] at known
  rcases @handleRequest_refuse acceptor _ ((group.proposers server).prepareMsg server) rfl record
    known higher something with ⟨nack, handled, kind, inst⟩
  have new := requested.new busyAsked.reached handled
  have answers := requested.goes handled
  have busyOn := busyAsked.go answers
  rcases busyOn.giveUp proposing with ⟨after, givesUp, resumesOn, ready, _, raised⟩
  have goes := asks.trans (answers.trans givesUp)
  have task := goes.carries.task server
  have seen {signature : Signature} (member : signature ∈ (after.proposers server).msgHistory) :
      signature ∈ (asked.proposers server).msgHistory := resumesOn.history_nil member
  have wire := wire_reachable busyAsked.reached
  have client : nack.clientId ≠ none := nack_client busyOn.reached
    (List.mem_append_right _ (List.mem_singleton_self (server, nack))) kind
  have above : (group.proposers server).proposerNum + 1 ≤ (after.proposers server).proposerNum := by
    rw [← number]
    exact raised
  refine ⟨after, nack, goes, ⟨busyOn.go givesUp, ready, ?_,
    refusing.available.go goes.carries, ?_, ?_, ?_⟩, by omega, ?_, ?_⟩
  · have queue := resumes.queue.symm.trans refusing.empty
    exact resumesOn.queue.symm.trans queue
  · refine ⟨{ record with prep := (group.proposers server).proposerNum }, ?_, something, ?_⟩
    · rw [resumesOn.acceptors, task.inst]
      simp [Group.answered, Proposer.prepareMsg]
    · exact WithBot.coe_lt_coe.mpr (by omega)
  · refine List.nodup_cons.mpr ⟨fun member => new ?_, refusing.distinct⟩
    exact wire.flight _ (resumes.flight _ (refusing.replies nack member).1)
  · intro reply member
    rcases List.mem_cons.mp member with rfl | old
    · refine ⟨resumesOn.flight _ (List.mem_append_right _ (List.mem_singleton_self _)), kind,
        .inr kind, client, ?_, fun member => wire.fresh_of_new new (seen member)⟩
      rw [inst, task.inst]
      rfl
    · rcases refusing.replies reply old with ⟨flying, isNack, counted⟩
      have isReply := acceptorMsgTypes_not_proposer requested.kind
      refine ⟨resumesOn.flight _ (mem_answered_flight (resumes.flight _ flying) ?_), isNack,
        counted.of_task task fun _ member => resumes.history_nil (seen member)⟩
      rintro ⟨⟩
      exact isReply counted.kind
  · exact (Elsewhere.of_same _ resumes.acceptors).trans
      ((elsewhere_answered handled).trans (.of_same _ resumesOn.acceptors))
  · intro other different
    rw [resumesOn.acceptors]
    simp [Group.answered, Group.receive, different, resumes.acceptors]

theorem Refusing.times (count : ℕ) {replies : List Message}
    (refusing : Refusing cfg server acceptor replies group) :
    ∃ (after : Group) (drawn : List Message), Goes cfg group after ∧
      Refusing cfg server acceptor drawn after ∧ drawn.length = replies.length + count ∧
      (group.proposers server).proposerNum ≤ (after.proposers server).proposerNum ∧
      Elsewhere (group.proposers server).inst group after ∧
      ∀ other ≠ acceptor, after.acceptors other = group.acceptors other := by
  induction count generalizing group replies with
  | zero =>
      exact ⟨group, replies, .refl _ _, refusing, rfl, le_rfl, .of_same _ rfl, fun _ _ => rfl⟩
  | succ count inductionHypothesis =>
      rcases refusing.once with ⟨middle, reply, goes, refusingOn, number, elsewhere, untouched⟩
      rcases inductionHypothesis refusingOn with
        ⟨after, drawn, goesOn, refusingLast, length, numberOn, elsewhereOn, untouchedOn⟩
      rw [(goes.carries.task server).inst] at elsewhereOn
      refine ⟨after, drawn, goes.trans goesOn, refusingLast, ?_, number.trans numberOn,
        elsewhere.trans elsewhereOn, ?_⟩
      · rw [length, List.length_cons]
        omega
      · intro other different
        rw [untouchedOn other different, untouched other different]

/-- PREPARE_NACKs of one acceptor, each from a round of its own, are a majority
for the loop of PROPOSING. -/
theorem Refusing.wins {replies : List Message}
    (refusing : Refusing cfg server acceptor replies group)
    (many : cfg.groupSize / 2 < replies.length) :
    ∃ after, Goes cfg group after ∧ after.acceptors = group.acceptors ∧
      (group.proposers server).proposerNum ≤ (after.proposers server).proposerNum ∧
      (after.proposers server).state = .ACCEPT := by
  rcases refusing.busy.ask refusing.ready with
    ⟨asked, asks, resumes, proposing, none, number, _⟩
  have empty : asked.proposerQueue server = [] := resumes.queue.symm.trans refusing.empty
  have inRow : InRow asked server (asked.proposerQueue server) replies := by
    rw [empty]
    exact .behind replies refusing.distinct fun reply member =>
      ⟨resumes.flight _ (refusing.replies reply member).1,
        (refusing.replies reply member).2.2.kind⟩
  have counted : ∀ reply ∈ replies, CountedReply (asked.proposers server) reply :=
    fun reply member => (refusing.replies reply member).2.2.of_task (asks.carries.task server)
      fun _ member => resumes.history_nil member
  have unblocks : Unblocks cfg.groupSize (asked.proposers server) replies := by
    cases replies with
    | nil => simp at many
    | cons nack replies =>
        refine .learns [] replies nack rfl (refusing.replies nack (by simp)).2.1
          (counted nack (by simp)) fun others inside _ _ => ?_
        rw [List.subset_nil.mp inside, none]
        exact Nat.zero_le _
  rcases (refusing.busy.go asks).gather (.inl proposing) inRow
    (fun _ => ⟨fun reply member => (counted reply member).clientId, unblocks⟩) (by omega)
    refusing.distinct (fun reply member => ⟨member, .inl ⟨proposing, counted reply member⟩⟩)
    (by omega) with ⟨after, ends⟩
  cases ends with
  | won _ goes acceptors numberOn accept =>
      exact ⟨after, asks.trans goes, acceptors.trans resumes.acceptors, number ▸ numberOn, accept⟩
  | resolved accepting => exact absurd (proposing.symm.trans accepting) (by decide)

/-- From one acceptor that has accepted a value the server learns that value, with
a number that finds the given acceptors open. -/
theorem Busy.relearn (busy : Busy cfg server group)
    (available : Available cfg server group acceptor)
    (accepted : HasAccepted group acceptor (group.proposers server).inst) (others : List ℕ) :
    ∃ after, Goes cfg group after ∧ Elsewhere (group.proposers server).inst group after ∧
      (after.proposers server).state = .ACCEPT ∧
      ∀ other ∈ others, OpenTo after other (after.proposers server).inst
        (after.proposers server).proposerNum := by
  rcases exists_open group (group.proposers server).inst (acceptor :: others) with ⟨bound, isOpen⟩
  rcases busy.toReady with ⟨first, goesFirst, resumesFirst, readyFirst⟩
  have busyFirst := busy.go goesFirst
  rcases busyFirst.raise readyFirst bound with
    ⟨second, raises, resumesSecond, readySecond, above⟩
  have busySecond := busyFirst.go raises
  rcases busySecond.drain readySecond (List.append_nil (second.proposerQueue server)).symm with
    ⟨third, drains, resumesThird, readyThird⟩
  have goes := goesFirst.trans (raises.trans drains)
  have acceptors : third.acceptors = group.acceptors := by
    rw [resumesThird.acceptors, resumesSecond.acceptors, resumesFirst.acceptors]
  have higher : (bound : WithBot ℤ) < (third.proposers server).proposerNum :=
    WithBot.coe_lt_coe.mpr (lt_of_lt_of_le above resumesThird.number)
  have refusing : Refusing cfg server acceptor [] third :=
    { busy := busySecond.go drains
      ready := readyThird
      empty := by simpa using resumesThird.queue
      available := available.go goes.carries
      accepted := by
        rcases accepted with ⟨record, known, something⟩
        rw [acceptors, (goes.carries.task server).inst]
        exact ⟨record, known, something, (isOpen acceptor (by simp) record known).trans_lt higher⟩
      distinct := List.nodup_nil
      replies := by simp }
  rcases refusing.times (cfg.groupSize / 2 + 1) with
    ⟨fourth, drawn, draws, refusingOn, length, number, elsewhere, untouched⟩
  rcases refusingOn.wins (by simp [length]) with ⟨after, wins, sameAcceptors, numberOn, accept⟩
  have goesLast := goes.trans (draws.trans wins)
  rw [(goes.carries.task server).inst] at elsewhere
  refine ⟨after, goesLast, (Elsewhere.of_same _ acceptors).trans
    (elsewhere.trans (.of_same _ sameAcceptors)), accept, fun other member => ?_⟩
  by_cases same : other = acceptor
  · subst same
    rcases refusingOn.accepted with ⟨record, known, _, below⟩
    intro found foundHere
    rw [sameAcceptors, (wins.carries.task server).inst] at foundHere
    rw [← Option.some.inj (known.symm.trans foundHere)]
    exact below.le.trans (WithBot.coe_le_coe.mpr numberOn)
  · have raised : (bound : WithBot ℤ) ≤ (after.proposers server).proposerNum :=
      higher.le.trans (WithBot.coe_le_coe.mpr (number.trans numberOn))
    rw [(goesLast.carries.task server).inst]
    refine ((isOpen other (by simp [member])).mono raised).of_same ?_
    rw [sameAcceptors, untouched other same, acceptors]

/-- From one acceptor that has accepted a value on to a resolution. -/
theorem Busy.conclude {quorum : List ℕ} (busy : Busy cfg server group)
    (available : Available cfg server group acceptor)
    (accepted : HasAccepted group acceptor (group.proposers server).inst) (distinct : quorum.Nodup)
    (many : cfg.groupSize / 2 < quorum.length)
    (all : ∀ other ∈ quorum, Available cfg server group other) :
    ∃ final, EndsResolved cfg server group final := by
  rcases busy.relearn available accepted quorum with ⟨after, goes, elsewhere, accept, isOpen⟩
  rcases (busy.go goes).finish accept distinct many
    (fun other member => (all other member).go goes.carries) isOpen with ⟨final, resolved⟩
  exact ⟨final, resolved.before goes elsewhere⟩

end Ways

end CSE550.Paxos
