import CSE550.Paxos.Serve

/-!
Owns what a waiting proposer makes of its messages when nothing more is lost:
replies in flight arrive, the queue is taken off in order, and a majority of
replies that count ends the wait.

Does not own who sends these replies.
-/

namespace CSE550.Paxos

open CSE550.Lib

/-! ### One message taken off the queue -/

/-- The message is of a kind the proposer queue holds. -/
def Expected (msg : Message) : Prop := IsExit msg ∨ msg.msgType ∈ proposerMsgTypes

theorem Expected.of_queued {cfg : Config} {group : Group} {server : ℕ} {msg : Message}
    (wire : Wire cfg group) (queued : msg ∈ group.proposerQueue server) : Expected msg :=
  (wire.proposerQueue server msg queued).imp_right And.right

/-- A proposer that has counted a PREPARE_NACK is not blocked: the entry it learns was
admitted with the resources it holds itself. -/
theorem blocked_of_learn {cfg : Config} {group : Group} {server : ℕ} {msg : Message}
    (reached : cfg.Reachable group) (proposing : (group.proposers server).state = .PROPOSING)
    (queued : msg ∈ group.proposerQueue server)
    (reply : CountedReply (group.proposers server) msg) (address : ℕ)
    (blocked : (((group.proposers server).remember msg).countReply address msg).learn.blocked) :
    (((group.proposers server).remember msg).countReply address msg).preNacks = [] ∧
      (group.proposers server).blocked := by
  rcases refines_reachable reached with ⟨ledger, sound, refines⟩
  have wire := wire_reachable reached
  have replies := replies_reachable reached
  have tally := ((tally_reachable reached).proposing server proposing).count wire replies queued
    reply address
  generalize counted : ((group.proposers server).remember msg).countReply address msg = after
    at tally blocked ⊢
  rcases refines.learn wire replies tally with ⟨none, same⟩ | ⟨entry, found, learnt⟩
  · rw [same] at blocked
    subst counted
    exact ⟨none, blocked⟩
  · rcases learn_eq after with ⟨value, clientId, same⟩
    rcases blocked with ⟨own, isLock, held⟩
    obtain rfl := learnt.unique ((Proposer.ownLearnt_iff _).mp own)
    rw [same] at found isLock held
    subst counted
    rcases sound.admitted _ _ found with ⟨lockSet, replayed, admits⟩
    obtain rfl := Option.some.inj ((refines.replicas server).lockSet.symm.trans replayed)
    exact absurd held (admits isLock)

/-- In PROPOSING no expected message ends the client's command. -/
theorem ProposingOutcome.task {groupSize address : ℕ} {proposer after : Proposer} {msg : Message}
    (outcome : ProposingOutcome groupSize proposer address msg after) (expected : Expected msg)
    (free : CountedReply proposer msg →
      ((proposer.remember msg).countReply address msg).learn.blocked → proposer.blocked) :
    SameTask proposer after ∧ proposer.proposerNum ≤ after.proposerNum ∧
      ∀ signature ∈ after.msgHistory,
        signature ∈ proposer.msgHistory ∨ msg.signature = signature := by
  have remembered : ∀ signature ∈ (proposer.remember msg).msgHistory,
      signature ∈ proposer.msgHistory ∨ msg.signature = signature := by
    intro signature member
    rcases List.mem_cons.mp member with rfl | old
    · exact .inr rfl
    · exact .inl old
  cases outcome with
  | refused | exited =>
      exact ⟨⟨rfl, rfl, rfl, rfl, rfl, rfl, fun _ => by simp [Proposer.abandon], id⟩,
        by simp [Proposer.abandon], fun _ member => .inl member⟩
  | unchanged => exact ⟨.refl _, le_rfl, fun _ member => .inl member⟩
  | passed | counted => exact ⟨⟨rfl, rfl, rfl, rfl, rfl, rfl, id, id⟩, le_rfl, remembered⟩
  | raised other notExit =>
      rcases expected with isExit | reply
      · exact absurd isExit.msgType notExit
      · exact absurd reply other
  | blocked reply | won reply =>
      have unblocked := mt (free reply)
      rcases learn_eq ((proposer.remember msg).countReply address msg) with ⟨value, clientId, same⟩
      rw [same] at unblocked ⊢
      refine ⟨⟨rfl, rfl, rfl, rfl, rfl, rfl, fun _ => by simp [Proposer.abandon], unblocked⟩, ?_,
        remembered⟩
      simp [Proposer.abandon, Proposer.countReply, Proposer.remember]

/-! ### No reply is ahead of its proposer -/

theorem Proposer.inst_le_resolve (proposer : Proposer) (msg : Message) :
    proposer.inst ≤ (proposer.resolve msg).inst := by
  rcases resolve_cases proposer msg with ⟨error, _, same⟩ | ⟨lockSet, _, same⟩
  · rw [same]
    exact le_rfl
  · rw [same]
    exact Nat.le_succ _

theorem ProposerMove.inst_le {groupSize serverId : ℕ} {proposer : Proposer}
    {taken : Option Message} {result : Proposer × Output}
    (move : ProposerMove groupSize serverId proposer taken result) :
    proposer.inst ≤ result.1.inst := by
  cases move with
  | ready | accept | acceptRaised | proposingTimeout | acceptingTimeout => exact le_rfl
  | proposing address msg state after outcome =>
      cases outcome with
      | refused | unchanged | passed | exited | raised | counted => exact le_rfl
      | blocked | won =>
          rcases learn_eq ((proposer.remember msg).countReply address msg) with
            ⟨value, clientId, same⟩
          rw [same]
          exact le_rfl
  | accepting msg state result outcome =>
      cases outcome with
      | unchanged | passed | exited | raisedOther | counted | lost => exact le_rfl
      | raisedLater later changed same =>
          rcases same with rfl | rfl
          · exact le_rfl
          · exact le_rfl
      | own => exact (proposer.won groupSize msg .IDLE).inst_le_resolve msg
      | other => exact (proposer.won groupSize msg .READY).inst_le_resolve msg

/-- No broadcast is for an instance its server has not reached. -/
def Timely (group : Group) : Prop :=
  ∀ server, ∀ msg ∈ group.broadcasts, msg.originId = some server →
    msg.inst ≤ (group.proposers server).inst

theorem Timely.keep {cfg : Config} {group next : Group} {label : Label} (timely : Timely group)
    (transition : Transition cfg group label next) : Timely next := by
  have keepOld (forward : ∀ server, (group.proposers server).inst ≤ (next.proposers server).inst)
      (server : ℕ) (msg : Message) (member : msg ∈ group.broadcasts)
      (origin : msg.originId = some server) : msg.inst ≤ (next.proposers server).inst :=
    (timely server msg member origin).trans (Nat.cast_le.mpr (forward server))
  have advance {server : ℕ} {after : Proposer}
      (forward : (group.proposers server).inst ≤ after.inst) (other : ℕ) :
      (group.proposers other).inst ≤ (Function.update group.proposers server after other).inst := by
    by_cases same : other = server
    · subst same
      simpa using forward
    · simp [same]
  cases transition with
  | network next move =>
      intro server msg member origin
      rw [move.broadcasts] at member
      exact keepOld (fun _ => by rw [move.proposers]) server msg member origin
  | clientSend | clientRecv | acceptor => exact timely
  | acceptClient | closeClient | recvClient | idleExit => exact keepOld (advance le_rfl)
  | proposer server queue taken result runs fewer queued move =>
      have forward : ∀ other, (group.proposers other).inst ≤
          (((group.setProposerQueue server queue).commit server result).proposers other).inst := by
        intro other
        rw [Group.commit_proposers]
        exact advance move.inst_le other
      intro other msg member origin
      rw [Group.commit_broadcasts] at member
      rcases List.mem_append.mp member with old | new
      · exact keepOld forward other msg old origin
      · have own : msg.originId = some server ∧ msg.inst = (group.proposers server).inst := by
          rcases move.broadcast_cases new with ⟨_, rfl⟩ | ⟨_, rfl⟩
          · exact ⟨rfl, rfl⟩
          · exact ⟨rfl, rfl⟩
        have same : other = server := Option.some.inj (origin.symm.trans own.1)
        subst same
        rw [own.2]
        exact Nat.cast_le.mpr (forward other)

theorem timely_reachable {cfg : Config} {group : Group} (reached : cfg.Reachable group) :
    Timely group :=
  reached.invariant (by rintro _ _ ⟨⟩)
    fun _ _ _ _ timely taken => timely.keep (transition_of_step taken)

/-- A message on a proposer queue is not for a later instance. -/
theorem inst_le_of_queued {cfg : Config} {group : Group} {server : ℕ} {msg : Message}
    (reached : cfg.Reachable group) (queued : msg ∈ group.proposerQueue server) :
    msg.inst ≤ (group.proposers server).inst := by
  have wire := wire_reachable reached
  rcases wire.proposerQueue server msg queued with ⟨clientId, rfl⟩ | ⟨sent, kind⟩
  · exact bot_le
  · rcases (replies_reachable reached).answers server msg sent kind with
      ⟨acceptor, request, answered⟩
    have isRequest : request.msgType ∈ acceptorMsgTypes := by
      rcases answered.kind with ⟨_, isAccept, _⟩ | ⟨_, isPrepare⟩
      · simp [isAccept, acceptorMsgTypes]
      · simp [isPrepare, acceptorMsgTypes]
    rw [answered.inst]
    exact timely_reachable reached server request
      (wire.requests acceptor request answered.sent isRequest) answered.requestOrigin

/-! ### Replies that count -/

/-- A reply that PROPOSING counts is recorded and counted. -/
theorem proposing_counted {proposer : Proposer} {msg : Message} (groupSize address : ℕ)
    (reply : CountedReply proposer msg) :
    proposer.proposing groupSize address msg =
      ((proposer.remember msg).countReply address msg).closeProposing groupSize := by
  have isReply := reply.kind
  unfold Proposer.proposing
  rw [if_neg reply.clientId]
  simp only [ifDup, isReply, reply.fresh, if_true, if_false]
  show (proposer.remember msg).dispatchProposing groupSize address msg = _
  unfold Proposer.dispatchProposing
  refine (if_neg (not_not.mpr reply.inst)).trans ?_
  rcases reply.msgType with isAck | isNack
  · rw [isAck]
  · rw [isNack]

/-- PROPOSING forgets no message, and it remembers a reply that names a client. -/
theorem proposing_remembers (groupSize address : ℕ) (proposer : Proposer) (msg : Message) :
    (∀ signature ∈ proposer.msgHistory,
      signature ∈ (proposer.proposing groupSize address msg).msgHistory) ∧
    (msg.clientId ≠ none → msg.msgType ∈ proposerMsgTypes →
      msg.signature ∈ (proposer.proposing groupSize address msg).msgHistory) := by
  unfold Proposer.proposing
  split
  · rename_i missing
    exact ⟨fun _ => id, fun present => absurd missing present⟩
  · by_cases reply : msg.msgType ∈ proposerMsgTypes
    · by_cases seen : msg.signature ∈ proposer.msgHistory
      · simp [ifDup, reply, seen]
      · simp +contextual [ifDup, reply, seen, Proposer.dispatchProposing_msgHistory]
    · simp [ifDup, reply, Proposer.dispatchProposing_msgHistory]

/-- What PROPOSING does not count changes at most the history. -/
theorem proposing_uncounted {proposer : Proposer} {msg : Message} (groupSize address : ℕ)
    (present : msg.clientId ≠ none) (expected : Expected msg)
    (uncounted : ¬ CountedReply proposer msg) :
    proposer.proposing groupSize address msg = proposer ∨
      proposer.proposing groupSize address msg = proposer.remember msg := by
  have outcome := proposing_outcome groupSize proposer address msg
  generalize proposer.proposing groupSize address msg = after at outcome ⊢
  cases outcome with
  | refused missing => exact absurd missing present
  | unchanged => exact .inl rfl
  | passed => exact .inr rfl
  | exited isExit inst =>
      rcases expected with ⟨clientId, rfl⟩ | reply
      · exact absurd inst (WithBot.bot_ne_coe)
      · simp [isExit, proposerMsgTypes] at reply
  | raised other notExit =>
      rcases expected with isExit | reply
      · exact absurd isExit.msgType notExit
      · exact absurd reply other
  | counted reply | blocked reply | won reply => exact absurd reply uncounted

/-- The loop test of a proposer that a majority does not find blocked. -/
theorem closeProposing_cases (groupSize : ℕ) (proposer : Proposer)
    (unblocked : groupSize / 2 < proposer.responseCnt → ¬ proposer.learn.blocked) :
    (proposer.responseCnt ≤ groupSize / 2 ∧ proposer.closeProposing groupSize = proposer) ∨
      (groupSize / 2 < proposer.responseCnt ∧ ∃ value clientId,
        ¬ ({ proposer with learntCommand := value, learntClient := clientId } : Proposer).blocked ∧
        proposer.closeProposing groupSize =
          { proposer with
            learntCommand := value, learntClient := clientId, state := .ACCEPT }) := by
  rcases learn_eq proposer with ⟨value, clientId, same⟩
  unfold Proposer.closeProposing Proposer.leaveProposing
  split
  · exact .inl ⟨‹_›, rfl⟩
  · rename_i many
    have free := unblocked (Nat.lt_of_not_le many)
    rw [if_neg free]
    rw [same] at free ⊢
    exact .inr ⟨Nat.lt_of_not_le many, value, clientId, free, rfl⟩

/-- An acknowledgement that ACCEPTING counts is recorded and counted. -/
theorem accepting_counted {proposer : Proposer} {msg : Message} (groupSize serverId : ℕ)
    (ack : CountedAck proposer msg) :
    proposer.accepting groupSize serverId msg false =
      if proposer.responseCnt + 1 ≤ groupSize / 2 then
        ({ proposer.remember msg with responseCnt := proposer.responseCnt + 1 }, .silent)
      else
        { proposer.remember msg with responseCnt := proposer.responseCnt + 1 }.leaveAccepting
          groupSize serverId msg false := by
  have isReply := ack.kind
  unfold Proposer.accepting
  simp only [ifDup, isReply, ack.fresh, if_true, if_false]
  show (proposer.remember msg).dispatchAccepting groupSize serverId msg false = _
  unfold Proposer.dispatchAccepting
  refine (if_neg (not_not.mpr ack.inst)).trans ?_
  rw [ack.msgType]
  exact if_pos ack.proposal

/-- What ACCEPTING does not count leaves the wait as it is. -/
theorem accepting_uncounted {proposer : Proposer} {msg : Message} (groupSize serverId : ℕ)
    (expected : Expected msg) (inst : msg.inst ≤ proposer.inst)
    (uncounted : ¬ CountedAck proposer msg) :
    ∃ after, proposer.accepting groupSize serverId msg false = (after, .silent) ∧
      (after = proposer ∨ after = proposer.remember msg ∨
        after = { proposer with done := true }) := by
  have outcome := accepting_outcome groupSize serverId proposer msg false
  generalize proposer.accepting groupSize serverId msg false = result at outcome ⊢
  cases outcome with
  | unchanged => exact ⟨_, rfl, .inl rfl⟩
  | passed => exact ⟨_, rfl, .inr (.inl rfl)⟩
  | exited => exact ⟨_, rfl, .inr (.inr rfl)⟩
  | raisedLater later => exact absurd inst later
  | raisedOther other notExit =>
      rcases expected with isExit | reply
      · exact absurd isExit.msgType notExit
      · exact absurd reply other
  | counted ack | lost _ ack | own ack | other ack => exact absurd ack uncounted

/-- The proposer once it has resolved its instance on the acknowledgement. -/
def Proposer.concluded (groupSize : ℕ) (proposer : Proposer) (msg : Message) : Proposer :=
  (proposer.won groupSize msg (if proposer.ownLearnt then .IDLE else .READY)).resolve msg

/-- Leaving ACCEPTING on an acknowledgement that names a client resolves the instance. -/
theorem leaveAccepting_concluded (groupSize serverId : ℕ) (proposer : Proposer) {msg : Message}
    (present : msg.clientId ≠ none) :
    ({ proposer.remember msg with
      responseCnt := proposer.responseCnt + 1 }.leaveAccepting groupSize serverId msg false).1 =
        proposer.concluded groupSize msg := by
  unfold Proposer.leaveAccepting Proposer.concluded
  by_cases own : proposer.ownLearnt
  · rw [if_pos (by exact own), if_neg present, if_pos own]
    rfl
  · rw [if_neg (by exact own), if_neg own]
    rfl

/-! ### A message is taken -/

/-- The message raises the count the proposer waits for. -/
def Proposer.Counts (proposer : Proposer) (msg : Message) : Prop :=
  (proposer.state = .PROPOSING ∧ CountedReply proposer msg) ∨
    (proposer.state = .ACCEPTING ∧ CountedAck proposer msg)

theorem Proposer.Counts.kind {proposer : Proposer} {msg : Message}
    (counts : proposer.Counts msg) : msg.msgType ∈ proposerMsgTypes := by
  rcases counts with ⟨_, reply⟩ | ⟨_, ack⟩
  · exact reply.kind
  · exact ack.kind

/-- The continuation ends with the step in which the server resolves its instance. -/
inductive EndsResolved (cfg : Config) (server : ℕ) (before after : Group) : Prop
  | intro (last : Group) (msg : Message) (rest : List Message) (goes : Goes cfg before last)
      (accepting : (last.proposers server).state = .ACCEPTING)
      (queue : last.proposerQueue server = msg :: rest)
      (ack : CountedAck (last.proposers server) msg)
      (step : cfg.machine.step last (.get server 0 false) = some after)
      (elsewhere : Elsewhere (before.proposers server).inst before after)
      (concluded : after.proposers server = (last.proposers server).concluded cfg.groupSize msg)

theorem EndsResolved.continues {cfg : Config} {server : ℕ} {before after : Group}
    (ends : EndsResolved cfg server before after) : cfg.Continues before after := by
  rcases ends with ⟨last, msg, rest, goes, accepting, queue, ack, step, elsewhere, concluded⟩
  exact goes.continues.trans (.step step rfl)

theorem EndsResolved.before {cfg : Config} {server : ℕ} {first second third : Group}
    (ends : EndsResolved cfg server second third) (goes : Goes cfg first second)
    (elsewhere : Elsewhere (first.proposers server).inst first second) :
    EndsResolved cfg server first third := by
  rcases ends with ⟨last, msg, rest, goesOn, accepting, queue, ack, step, elsewhereOn, concluded⟩
  rw [(goes.carries.task server).inst] at elsewhereOn
  exact ⟨last, msg, rest, goes.trans goesOn, accepting, queue, ack, step,
    elsewhere.trans elsewhereOn, concluded⟩

theorem EndsResolved.recorded {cfg : Config} {server : ℕ} {before after : Group}
    (ends : EndsResolved cfg server before after) :
    (after.proposers server).instanceResolutions.lookup (before.proposers server).inst ≠ none := by
  rcases ends with ⟨last, msg, rest, goes, accepting, queue, ack, step, elsewhere, concluded⟩
  rw [concluded, ← (goes.carries.task server).inst]
  simp [Proposer.concluded, Proposer.won, Proposer.remember]

/-- The wait of the server is over: it goes on to ACCEPT, or has resolved its instance. -/
inductive Ends (cfg : Config) (server : ℕ) (before after : Group) : Prop
  | won (proposing : (before.proposers server).state = .PROPOSING)
      (goes : Goes cfg before after) (acceptors : after.acceptors = before.acceptors)
      (number : (before.proposers server).proposerNum ≤ (after.proposers server).proposerNum)
      (accept : (after.proposers server).state = .ACCEPT)
  | resolved (accepting : (before.proposers server).state = .ACCEPTING)
      (ends : EndsResolved cfg server before after)

/-- The proposer waits on after the message. -/
structure WaitsOn (groupSize : ℕ) (msg : Message) (before after : Proposer) : Prop where
  task : SameTask before after
  state : after.state = before.state
  number : after.proposerNum = before.proposerNum
  history : ∀ signature ∈ after.msgHistory,
    signature ∈ before.msgHistory ∨ msg.signature = signature
  remembers : ∀ signature ∈ before.msgHistory, signature ∈ after.msgHistory
  nacks : before.preNacks ≠ [] → after.preNacks ≠ []
  few : before.responseCnt ≤ groupSize / 2 → after.responseCnt ≤ groupSize / 2
  counted : before.Counts msg →
    after.responseCnt = before.responseCnt + 1 ∧ msg.signature ∈ after.msgHistory ∧
      (before.state = .PROPOSING → msg.msgType = .PREPARE_NACK → after.preNacks ≠ [])
  passed : ¬ before.Counts msg → after.responseCnt = before.responseCnt

/-- The proposer waits on after a message that does not count. -/
theorem WaitsOn.uncounted {groupSize : ℕ} {msg : Message} {proposer after : Proposer}
    (uncounted : ¬ proposer.Counts msg) (same : after = proposer ∨ after = proposer.remember msg ∨
      after = { proposer with done := true }) : WaitsOn groupSize msg proposer after := by
  have never {outcome : Prop} (counts : proposer.Counts msg) : outcome := absurd counts uncounted
  rcases same with rfl | rfl | rfl
  · exact ⟨.refl _, rfl, rfl, fun _ member => .inl member, fun _ member => member, id, id, never,
      fun _ => rfl⟩
  · exact ⟨⟨rfl, rfl, rfl, rfl, rfl, rfl, id, id⟩, rfl, rfl, fun _ member =>
      (List.mem_cons.mp member).symm.imp_right Eq.symm, fun _ => List.mem_cons_of_mem _, id, id,
      never, fun _ => rfl⟩
  · exact ⟨⟨rfl, rfl, rfl, rfl, rfl, rfl, id, id⟩, rfl, rfl, fun _ member => .inl member,
      fun _ member => member, id, id, never, fun _ => rfl⟩

/-- A message that counts still does after another one. -/
theorem WaitsOn.counts {groupSize : ℕ} {msg reply : Message} {before after : Proposer}
    (waits : WaitsOn groupSize msg before after) (counts : before.Counts reply)
    (other : reply ≠ msg) : after.Counts reply := by
  have fresh (old : reply.signature ∉ before.msgHistory) :
      reply.signature ∉ after.msgHistory := by
    intro member
    rcases waits.history _ member with seen | same
    · exact old seen
    · exact other (Message.signature_injective same.symm)
  rcases counts with ⟨state, counted⟩ | ⟨state, counted⟩
  · exact .inl ⟨waits.state.trans state, counted.msgType, counted.clientId,
      by rw [waits.task.inst, counted.inst], fresh counted.fresh⟩
  · exact .inr ⟨waits.state.trans state, counted.msgType, by rw [waits.number, counted.proposal],
      by rw [waits.task.inst, counted.inst], fresh counted.fresh⟩

/-! ### A majority that finds the proposer blocked -/

/-- The replies among the messages do not bring the proposer a majority. -/
def Few (groupSize : ℕ) (proposer : Proposer) (messages : List Message) : Prop :=
  ∀ replies ⊆ messages, replies.Nodup → (∀ reply ∈ replies, CountedReply proposer reply) →
    proposer.responseCnt + replies.length ≤ groupSize / 2

/-- A majority that the messages complete does not find the proposer blocked: it is
not, it has counted a PREPARE_NACK, or one of the messages is a PREPARE_NACK that it
counts in time. -/
inductive Unblocks (groupSize : ℕ) (proposer : Proposer) (messages : List Message) : Prop
  | free (unblocked : ¬ proposer.blocked)
  | learnt (some : proposer.preNacks ≠ [])
  | learns (early late : List Message) (nack : Message) (split : messages = early ++ nack :: late)
      (isNack : nack.msgType = .PREPARE_NACK) (reply : CountedReply proposer nack)
      (few : Few groupSize proposer early)

theorem Unblocks.append {groupSize : ℕ} {proposer : Proposer} {messages : List Message}
    (unblocks : Unblocks groupSize proposer messages) (more : List Message) :
    Unblocks groupSize proposer (messages ++ more) := by
  cases unblocks with
  | free unblocked => exact .free unblocked
  | learnt some => exact .learnt some
  | learns early late nack split isNack reply few =>
      refine .learns early (late ++ more) nack ?_ isNack reply few
      rw [split, List.append_assoc, List.cons_append]

/-- What is left of the messages after the first. -/
theorem Unblocks.next {groupSize : ℕ} {msg : Message} {messages : List Message}
    {before after : Proposer} (unblocks : Unblocks groupSize before (msg :: messages))
    (proposing : before.state = .PROPOSING) (waits : WaitsOn groupSize msg before after) :
    Unblocks groupSize after messages := by
  cases unblocks with
  | free unblocked => exact .free (waits.task.unblocked unblocked)
  | learnt some => exact .learnt (waits.nacks some)
  | learns early late nack split isNack reply few =>
      by_cases first : nack = msg
      · subst first
        exact .learnt ((waits.counted (.inl ⟨proposing, reply⟩)).2.2 proposing isNack)
      have isProposing : after.state = .PROPOSING := waits.state.trans proposing
      cases early with
      | nil => exact absurd (List.cons.inj split).1.symm first
      | cons other early =>
          rcases List.cons.inj split with ⟨rfl, rest⟩
          have later : CountedReply after nack := by
            rcases waits.counts (.inl ⟨proposing, reply⟩) first with ⟨_, counted⟩ | ⟨accepting, _⟩
            · exact counted
            · exact absurd (isProposing.symm.trans accepting) (by decide)
          refine .learns early late nack rest isNack later fun replies inside distinct all => ?_
          have earlier : ∀ reply ∈ replies, CountedReply before reply := fun reply member =>
            ⟨(all reply member).msgType, (all reply member).clientId,
              by rw [(all reply member).inst, waits.task.inst],
              fun seen => (all reply member).fresh (waits.remembers _ seen)⟩
          by_cases counts : before.Counts msg
          · -- the message itself is one more of the replies before
            rcases waits.counted counts with ⟨count, read, _⟩
            have isNew : msg ∉ replies := fun member => (all msg member).fresh read
            have isReply : CountedReply before msg := by
              rcases counts with ⟨_, counted⟩ | ⟨accepting, _⟩
              · exact counted
              · exact absurd (proposing.symm.trans accepting) (by decide)
            have whole := few (msg :: replies) (List.cons_subset_cons _ inside)
              (List.nodup_cons.mpr ⟨isNew, distinct⟩) (List.forall_mem_cons.mpr ⟨isReply, earlier⟩)
            rw [List.length_cons] at whole
            omega
          · rw [waits.passed counts]
            exact few replies (fun _ member => List.mem_cons_of_mem _ (inside member)) distinct
              earlier

/-! ### One message of the queue -/

section Take

variable {cfg : Config} {server : ℕ} {group : Group} {msg : Message} {rest : List Message}

/-- The message completes a majority that does not find the proposer blocked. -/
theorem Unblocks.not_blocked {messages : List Message} (reached : cfg.Reachable group)
    (proposing : (group.proposers server).state = .PROPOSING)
    (queued : msg ∈ group.proposerQueue server)
    (reply : CountedReply (group.proposers server) msg)
    (unblocks : Unblocks cfg.groupSize (group.proposers server) (msg :: messages)) (address : ℕ)
    (many : cfg.groupSize / 2 < (group.proposers server).responseCnt + 1) :
    ¬ (((group.proposers server).remember msg).countReply address msg).learn.blocked := by
  intro blocked
  rcases blocked_of_learn reached proposing queued reply address blocked with ⟨none, before⟩
  have refused (isNack : msg.msgType = .PREPARE_NACK) :
      (((group.proposers server).remember msg).countReply address msg).preNacks ≠ [] := by
    simp [Proposer.countReply, isNack]
  cases unblocks with
  | free unblocked => exact unblocked before
  | learnt some =>
      have kept : (group.proposers server).preNacks = [] := by
        simp only [Proposer.countReply, Proposer.remember] at none
        split at none
        · simp at none
        · exact none
      exact some kept
  | learns early late nack split isNack isReply few =>
      cases early with
      | nil =>
          obtain rfl := (List.cons.inj split).1
          exact refused isNack none
      | cons other early =>
          obtain rfl := (List.cons.inj split).1
          have one := few [msg] (by simp) (List.nodup_singleton _) (by simpa using reply)
          rw [List.length_singleton] at one
          omega

/-- A message is taken and the proposer waits on. -/
structure TakesOne (cfg : Config) (server : ℕ) (msg : Message) (before after : Group) : Prop where
  goes : Goes cfg before after
  acceptors : after.acceptors = before.acceptors
  queue : before.proposerQueue server = msg :: after.proposerQueue server
  waits : WaitsOn cfg.groupSize msg (before.proposers server) (after.proposers server)

theorem Busy.takesOne {proposer : Proposer} (busy : Busy cfg server group)
    (queue : group.proposerQueue server = msg :: rest)
    (takes : Takes cfg.groupSize server 0 false (group.proposers server) msg (proposer, .silent))
    (waits : WaitsOn cfg.groupSize msg (group.proposers server) proposer) :
    TakesOne cfg server msg group
      ((group.setProposerQueue server rest).commit server (proposer, .silent)) := by
  have taken : cfg.machine.step group (.get server 0 false) = some _ :=
    Group.step_get_iff.mpr ⟨msg, rest, _, queue, busy.runs, takes, rfl⟩
  refine ⟨⟨.step taken rfl, .take busy.busy waits.task rfl⟩, by simp, by simp [queue], ?_⟩
  rw [Group.commit_proposers, Function.update_self]
  exact waits

/-- PROPOSING takes a message that names a client. -/
theorem Busy.takeProposing {messages : List Message} (busy : Busy cfg server group)
    (proposing : (group.proposers server).state = .PROPOSING)
    (queue : group.proposerQueue server = msg :: rest) (present : msg.clientId ≠ none)
    (unblocks : Unblocks cfg.groupSize (group.proposers server) (msg :: messages)) :
    ∃ after, Ends cfg server group after ∨ TakesOne cfg server msg group after := by
  have queued : msg ∈ group.proposerQueue server := by simp [queue]
  have expected := Expected.of_queued (wire_reachable busy.reached) queued
  have takes : Takes cfg.groupSize server 0 false (group.proposers server) msg
      ((group.proposers server).proposing cfg.groupSize 0 msg, .silent) := .proposing proposing
  by_cases reply : CountedReply (group.proposers server) msg
  · rw [proposing_counted cfg.groupSize 0 reply] at takes
    rcases closeProposing_cases cfg.groupSize
        (((group.proposers server).remember msg).countReply 0 msg)
        (unblocks.not_blocked busy.reached proposing queued reply 0) with
      ⟨few, same⟩ | ⟨_, value, clientId, unblocked, same⟩
    · rw [same] at takes
      refine ⟨_, .inr (busy.takesOne queue takes ⟨⟨rfl, rfl, rfl, rfl, rfl, rfl, id, id⟩, rfl, rfl,
        ?_, fun _ => List.mem_cons_of_mem _, ?_, fun _ => few,
        fun _ => ⟨rfl, List.mem_cons_self, ?_⟩,
        fun uncounted => absurd (.inl ⟨proposing, reply⟩) uncounted⟩)⟩
      · exact fun _ member => (List.mem_cons.mp member).symm.imp_right Eq.symm
      · intro some none
        simp only [Proposer.countReply, Proposer.remember] at none
        split at none
        · simp at none
        · exact some none
      · intro _ isNack
        simp [Proposer.countReply, isNack]
    · rw [same] at takes
      have taken : cfg.machine.step group (.get server 0 false) = some _ :=
        Group.step_get_iff.mpr ⟨msg, rest, _, queue, busy.runs, takes, rfl⟩
      refine ⟨_, .inl (.won proposing
        ⟨.step taken rfl, .take busy.busy
          ⟨rfl, rfl, rfl, rfl, rfl, rfl, fun _ => by simp, fun _ => unblocked⟩ rfl⟩
        ?_ ?_ ?_)⟩
      · simp
      · simp [Proposer.countReply, Proposer.remember]
      · simp
  · have uncounted : ¬ (group.proposers server).Counts msg := by
      rintro (⟨_, counted⟩ | ⟨accepting, _⟩)
      · exact reply counted
      · exact absurd (proposing.symm.trans accepting) (by decide)
    rcases proposing_uncounted cfg.groupSize 0 present expected reply with same | same
    · rw [same] at takes
      exact ⟨_, .inr (busy.takesOne queue takes (.uncounted uncounted (.inl rfl)))⟩
    · rw [same] at takes
      exact ⟨_, .inr (busy.takesOne queue takes (.uncounted uncounted (.inr (.inl rfl))))⟩

/-- ACCEPTING takes a message. -/
theorem Busy.takeAccepting (busy : Busy cfg server group)
    (accepting : (group.proposers server).state = .ACCEPTING)
    (queue : group.proposerQueue server = msg :: rest) :
    ∃ after, Ends cfg server group after ∨ TakesOne cfg server msg group after := by
  have wire := wire_reachable busy.reached
  have queued : msg ∈ group.proposerQueue server := by simp [queue]
  have takes : Takes cfg.groupSize server 0 false (group.proposers server) msg
      ((group.proposers server).accepting cfg.groupSize server msg false) := .accepting accepting
  by_cases ack : CountedAck (group.proposers server) msg
  · rw [accepting_counted cfg.groupSize server ack] at takes
    split at takes
    · rename_i few
      refine ⟨_, .inr (busy.takesOne queue takes ⟨⟨rfl, rfl, rfl, rfl, rfl, rfl, id, id⟩, rfl, rfl,
        ?_, fun _ => List.mem_cons_of_mem _, id, fun _ => few,
        fun _ => ⟨rfl, List.mem_cons_self, ?_⟩,
        fun uncounted => absurd (.inr ⟨accepting, ack⟩) uncounted⟩)⟩
      · exact fun _ member => (List.mem_cons.mp member).symm.imp_right Eq.symm
      · exact fun proposing => absurd (proposing.symm.trans accepting) (by decide)
    · have present : msg.clientId ≠ none := by
        rcases refines_reachable busy.reached with ⟨ledger, _, refines⟩
        rcases (refines.replicas server).accepting (.inr accepting) with ⟨entry, found, _⟩
        rw [refines.ack_client wire (replies_reachable busy.reached) queued ack found]
        simp
      have taken : cfg.machine.step group (.get server 0 false) = some _ :=
        Group.step_get_iff.mpr ⟨msg, rest, _, queue, busy.runs, takes, rfl⟩
      refine ⟨_, .inl (.resolved accepting
        ⟨group, msg, rest, .refl _ _, accepting, queue, ack, taken, .of_same _ (by simp), ?_⟩)⟩
      rw [Group.commit_proposers, Function.update_self]
      exact leaveAccepting_concluded cfg.groupSize server _ present
  · have uncounted : ¬ (group.proposers server).Counts msg := by
      rintro (⟨proposing, _⟩ | ⟨_, counted⟩)
      · exact absurd (proposing.symm.trans accepting) (by decide)
      · exact ack counted
    rcases accepting_uncounted cfg.groupSize server (Expected.of_queued wire queued)
        (inst_le_of_queued busy.reached queued) ack with ⟨after, result, same⟩
    rw [result] at takes
    exact ⟨_, .inr (busy.takesOne queue takes (.uncounted uncounted same))⟩

end Take

/-! ### The queue is taken -/

section Queue

variable {cfg : Config} {server : ℕ} {group : Group}

/-- A round in which one message is taken off the queue. -/
theorem Busy.drainOne {msg : Message} {rest : List Message} (busy : Busy cfg server group)
    (ready : (group.proposers server).state = .READY)
    (queue : group.proposerQueue server = msg :: rest) :
    ∃ after, Goes cfg group after ∧ Resumes server [msg] group after ∧
      (after.proposers server).state = .READY := by
  rcases busy.ask ready with ⟨asked, asks, resumes, proposing, _⟩
  have busyOn := busy.go asks
  have queueOn : asked.proposerQueue server = msg :: rest := resumes.queue.symm.trans queue
  have queued : msg ∈ asked.proposerQueue server := by simp [queueOn]
  have expected := Expected.of_queued (wire_reachable busyOn.reached) queued
  have outcome := proposing_outcome cfg.groupSize (asked.proposers server) 0 msg
  rcases outcome.task expected fun reply blocked =>
    (blocked_of_learn busyOn.reached proposing queued reply 0 blocked).2 with
    ⟨task, number, history⟩
  have taken : cfg.machine.step asked (.get server 0 false) = some _ := Group.step_get_iff.mpr
    ⟨msg, rest, _, queueOn, busyOn.runs, .proposing proposing, rfl⟩
  have takes : Goes cfg asked _ := ⟨.step taken rfl, .take busyOn.busy task rfl⟩
  have busyLast := busyOn.go takes
  rcases busyLast.toReady with ⟨after, goes, resumesLast, readyAgain⟩
  rcases proposing_remembers cfg.groupSize 0 (asked.proposers server) msg with ⟨remembers, read⟩
  have resumesOn := resumes.trans
    ((Resumes.take queueOn history remembers read number).trans resumesLast)
  exact ⟨after, asks.trans (takes.trans goes), resumesOn, readyAgain⟩

/-- A proposer in READY works off the messages at the head of its queue. -/
theorem Busy.drain {drained kept : List Message} (busy : Busy cfg server group)
    (ready : (group.proposers server).state = .READY)
    (queue : group.proposerQueue server = drained ++ kept) :
    ∃ after, Goes cfg group after ∧ Resumes server drained group after ∧
      (after.proposers server).state = .READY := by
  induction drained generalizing group with
  | nil => exact ⟨group, .refl _ _, .refl _ _, ready⟩
  | cons msg drained inductionHypothesis =>
      rcases busy.drainOne ready queue with ⟨middle, goes, resumes, readyOn⟩
      have busyOn := busy.go goes
      have queueOn : middle.proposerQueue server = drained ++ kept :=
        List.cons.inj (resumes.queue.symm.trans queue) |>.2
      rcases inductionHypothesis busyOn readyOn queueOn with
        ⟨after, goesOn, resumesOn, readyAgain⟩
      exact ⟨after, goes.trans goesOn, resumes.trans resumesOn, readyAgain⟩

/-- The wait of a server that has not gone on in the meantime. -/
theorem Ends.after {middle after : Group} (ends : Ends cfg server middle after)
    (goes : Goes cfg group middle) (acceptors : middle.acceptors = group.acceptors)
    (state : (middle.proposers server).state = (group.proposers server).state)
    (number : (group.proposers server).proposerNum ≤ (middle.proposers server).proposerNum) :
    Ends cfg server group after := by
  cases ends with
  | won proposing goesOn acceptorsOn numberOn accept =>
      exact .won (state.symm.trans proposing) (goes.trans goesOn) (acceptorsOn.trans acceptors)
        (number.trans numberOn) accept
  | resolved accepting ends =>
      exact .resolved (state.symm.trans accepting) (ends.before goes (.of_same _ acceptors))

/-- The replies at the head of the queue that count end the wait when they are
enough. In PROPOSING a message without a client would end the round instead. -/
theorem Busy.collect {messages rest replies : List Message} (busy : Busy cfg server group)
    (waits : (group.proposers server).state = .PROPOSING ∨
      (group.proposers server).state = .ACCEPTING)
    (onQueue : group.proposerQueue server = messages ++ rest)
    (clean : (group.proposers server).state = .PROPOSING →
      (∀ msg ∈ messages, msg.clientId ≠ none) ∧
        Unblocks cfg.groupSize (group.proposers server) messages)
    (few : (group.proposers server).responseCnt ≤ cfg.groupSize / 2) (distinct : replies.Nodup)
    (counted : ∀ reply ∈ replies, reply ∈ messages ∧ (group.proposers server).Counts reply)
    (enough : cfg.groupSize / 2 < (group.proposers server).responseCnt + replies.length) :
    ∃ after, Ends cfg server group after := by
  induction messages generalizing group replies with
  | nil =>
      have none : replies = [] :=
        List.eq_nil_iff_forall_not_mem.mpr fun reply member => by simpa using counted reply member
      simp [none] at enough
      omega
  | cons msg messages inductionHypothesis =>
      have taken :
          ∃ middle, Ends cfg server group middle ∨ TakesOne cfg server msg group middle := by
        rcases waits with proposing | accepting
        · rcases clean proposing with ⟨present, unblocks⟩
          exact busy.takeProposing proposing onQueue (present msg (by simp)) unblocks
        · exact busy.takeAccepting accepting onQueue
      rcases taken with ⟨middle, ends | takes⟩
      · exact ⟨middle, ends⟩
      have state := takes.waits.state
      have busyOn := busy.go takes.goes
      have total : (group.proposers server).responseCnt + replies.length ≤
          (middle.proposers server).responseCnt + (replies.erase msg).length := by
        by_cases member : msg ∈ replies
        · have more := (takes.waits.counted (counted msg member).2).1
          have positive := List.length_pos_of_mem member
          rw [List.length_erase_of_mem member]
          omega
        · rw [List.erase_of_not_mem member]
          by_cases counts : (group.proposers server).Counts msg
          · have more := (takes.waits.counted counts).1
            omega
          · rw [takes.waits.passed counts]
      have later : ∀ reply ∈ replies.erase msg,
          reply ∈ messages ∧ (middle.proposers server).Counts reply := by
        intro reply member
        rcases (List.Nodup.mem_erase_iff distinct).mp member with ⟨other, old⟩
        rcases counted reply old with ⟨queued, counts⟩
        exact ⟨(List.mem_cons.mp queued).resolve_left other, takes.waits.counts counts other⟩
      have queueOn : middle.proposerQueue server = messages ++ rest :=
        (List.cons.inj (takes.queue.symm.trans onQueue)).2
      have cleanOn : (middle.proposers server).state = .PROPOSING →
          (∀ msg ∈ messages, msg.clientId ≠ none) ∧
            Unblocks cfg.groupSize (middle.proposers server) messages := by
        rw [state]
        intro proposing
        rcases clean proposing with ⟨present, unblocks⟩
        exact ⟨fun other member => present other (by simp [member]),
          unblocks.next proposing takes.waits⟩
      rcases inductionHypothesis busyOn (by rwa [state]) queueOn cleanOn (takes.waits.few few)
        (distinct.erase msg) later (by omega) with ⟨after, ends⟩
      exact ⟨after, ends.after takes.goes takes.acceptors state takes.waits.number.ge⟩

/-- Replies in flight arrive on the queue. -/
theorem Busy.arrive {replies : List Message} (busy : Busy cfg server group)
    (distinct : replies.Nodup)
    (inFlight : ∀ reply ∈ replies,
      (server, reply) ∈ group.flight ∧ reply.msgType ∈ proposerMsgTypes) :
    ∃ after, Goes cfg group after ∧ after.proposers = group.proposers ∧
      after.acceptors = group.acceptors ∧
      after.proposerQueue server = group.proposerQueue server ++ replies := by
  induction replies generalizing group with
  | nil => exact ⟨group, .refl _ _, rfl, rfl, (List.append_nil _).symm⟩
  | cons reply replies inductionHypothesis =>
      rcases List.nodup_cons.mp distinct with ⟨fresh, distinctRest⟩
      rcases inFlight reply (by simp) with ⟨flying, kind⟩
      have arrives := Group.step_deliver_reply flying busy.runs.1 busy.runs.2.1 kind
      have goes : Goes cfg group _ :=
        ⟨.step arrives rfl,
          ⟨fun _ => .refl _, fun _ _ => rfl, rfl, rfl, fun _ => rfl, fun _ => rfl, rfl⟩⟩
      have later : ∀ other ∈ replies, (server, other) ∈ group.flight.erase (server, reply) ∧
          other.msgType ∈ proposerMsgTypes := by
        intro other member
        rcases inFlight other (by simp [member]) with ⟨otherFlying, otherKind⟩
        have different : (server, other) ≠ (server, reply) := by
          intro same
          rw [(Prod.mk.inj same).2] at member
          exact fresh member
        exact ⟨(List.mem_erase_of_ne different).mpr otherFlying, otherKind⟩
      rcases inductionHypothesis (busy.go goes) distinctRest later with
        ⟨after, goesOn, proposers, acceptors, queue⟩
      refine ⟨after, goes.trans goesOn, proposers, acceptors, ?_⟩
      rw [queue]
      simp [Group.receive]

/-- Messages the server can take off its queue in a row: the first ones of the
queue, or all of it and then replies that are in flight. -/
inductive InRow (group : Group) (server : ℕ) (queue : List Message) : List Message → Prop
  | onQueue (messages : List Message) (first : messages <+: queue) :
      InRow group server queue messages
  | behind (arriving : List Message) (distinct : arriving.Nodup)
      (inFlight : ∀ reply ∈ arriving,
        (server, reply) ∈ group.flight ∧ reply.msgType ∈ proposerMsgTypes) :
      InRow group server queue (queue ++ arriving)

/-- Replies under way that count end the wait when they are enough. -/
theorem Busy.gather {messages replies : List Message} (busy : Busy cfg server group)
    (waits : (group.proposers server).state = .PROPOSING ∨
      (group.proposers server).state = .ACCEPTING)
    (inRow : InRow group server (group.proposerQueue server) messages)
    (clean : (group.proposers server).state = .PROPOSING →
      (∀ msg ∈ messages, msg.clientId ≠ none) ∧
        Unblocks cfg.groupSize (group.proposers server) messages)
    (few : (group.proposers server).responseCnt ≤ cfg.groupSize / 2) (distinct : replies.Nodup)
    (counted : ∀ reply ∈ replies, reply ∈ messages ∧ (group.proposers server).Counts reply)
    (enough : cfg.groupSize / 2 < (group.proposers server).responseCnt + replies.length) :
    ∃ after, Ends cfg server group after := by
  cases inRow with
  | onQueue _ first =>
      rcases first with ⟨rest, split⟩
      exact busy.collect waits split.symm clean few distinct counted enough
  | behind arriving different inFlight =>
      rcases busy.arrive different inFlight with ⟨middle, goes, proposers, acceptors, queue⟩
      have busyOn := busy.go goes
      rcases busyOn.collect (by rwa [proposers]) (queue.trans (List.append_nil _).symm)
        (by rwa [proposers]) (by rwa [proposers]) distinct (by rwa [proposers])
        (by rwa [proposers]) with ⟨after, ends⟩
      exact ⟨after, ends.after goes acceptors (by rw [proposers]) (by rw [proposers])⟩

end Queue

end CSE550.Paxos
