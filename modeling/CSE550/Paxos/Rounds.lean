import CSE550.Paxos.Clients
import CSE550.Paxos.Resolution

/-!
Owns one undisturbed round of a proposer: it asks a quorum of idle acceptors one
after the other, learns what they have accepted, has it accepted by all of them
and resolves its instance.

Nothing is assumed of the client's command: a LOCK of a resource that is held in
the state of the proposer does not keep it from resolving the instances that
others have decided.
-/

namespace CSE550.Paxos

open CSE550.Lib

/-! ### What a round leaves alone -/

/-- The parts of a proposer that no round changes before it ends. -/
structure Steady (before after : Proposer) : Prop where
  status : after.status = before.status
  done : after.done = before.done
  client : after.client = before.client
  inst : after.inst = before.inst
  clientCommand : after.clientCommand = before.clientCommand
  origClientId : after.origClientId = before.origClientId
  connections : after.serverConnections = before.serverConnections
  resolutions : after.instanceResolutions = before.instanceResolutions
  logfile : after.logfile = before.logfile
  lockSet : after.lockSet = before.lockSet

theorem Steady.refl (proposer : Proposer) : Steady proposer proposer :=
  ⟨rfl, rfl, rfl, rfl, rfl, rfl, rfl, rfl, rfl, rfl⟩

theorem Steady.trans {first second third : Proposer} (left : Steady first second)
    (right : Steady second third) : Steady first third where
  status := right.status.trans left.status
  done := right.done.trans left.done
  client := right.client.trans left.client
  inst := right.inst.trans left.inst
  clientCommand := right.clientCommand.trans left.clientCommand
  origClientId := right.origClientId.trans left.origClientId
  connections := right.connections.trans left.connections
  resolutions := right.resolutions.trans left.resolutions
  logfile := right.logfile.trans left.logfile
  lockSet := right.lockSet.trans left.lockSet

/-- A stretch in which only the server's proposer and these acceptors work, on one
instance, and leave nothing on a queue. -/
structure Works (cfg : Config) (server inst : ℕ) (quorum : List ℕ) (before after : Group) :
    Prop where
  continues : cfg.Continues before after
  others : ∀ other ≠ server, after.proposers other = before.proposers other
  stopped : after.stopped = before.stopped
  proposerQueue : after.proposerQueue = before.proposerQueue
  acceptorQueue : after.acceptorQueue = before.acceptorQueue
  untouched : ∀ other ∉ quorum, after.acceptors other = before.acceptors other
  status : ∀ acceptor, (after.acceptors acceptor).status = (before.acceptors acceptor).status
  connections : ∀ acceptor, (after.acceptors acceptor).serverConnections =
    (before.acceptors acceptor).serverConnections
  records : ∀ acceptor (index : WithBot ℕ), index ≠ inst →
    (after.acceptors acceptor).acceptHistory.lookup index =
      (before.acceptors acceptor).acceptHistory.lookup index

section Works

variable {cfg : Config} {server inst : ℕ} {quorum : List ℕ} {first second third : Group}

theorem Works.refl (cfg : Config) (server inst : ℕ) (quorum : List ℕ) (group : Group) :
    Works cfg server inst quorum group group :=
  ⟨.refl _, fun _ _ => rfl, rfl, rfl, rfl, fun _ _ => rfl, fun _ => rfl, fun _ => rfl,
    fun _ _ _ => rfl⟩

theorem Works.trans (left : Works cfg server inst quorum first second)
    (right : Works cfg server inst quorum second third) :
    Works cfg server inst quorum first third where
  continues := left.continues.trans right.continues
  others := fun other away => (right.others other away).trans (left.others other away)
  stopped := right.stopped.trans left.stopped
  proposerQueue := right.proposerQueue.trans left.proposerQueue
  acceptorQueue := right.acceptorQueue.trans left.acceptorQueue
  untouched := fun other outside =>
    (right.untouched other outside).trans (left.untouched other outside)
  status := fun acceptor => (right.status acceptor).trans (left.status acceptor)
  connections := fun acceptor => (right.connections acceptor).trans (left.connections acceptor)
  records := fun acceptor index away =>
    (right.records acceptor index away).trans (left.records acceptor index away)

/-- A larger quorum may work. -/
theorem Works.widen {wider : List ℕ} (works : Works cfg server inst quorum first second)
    (inside : quorum ⊆ wider) : Works cfg server inst wider first second :=
  { works with untouched := fun other outside =>
      works.untouched other fun member => outside (inside member) }

theorem Works.acceptorRuns (works : Works cfg server inst quorum first second) {acceptor : ℕ}
    (runs : first.acceptorRuns cfg acceptor) : second.acceptorRuns cfg acceptor :=
  ⟨runs.1, by rw [works.stopped, runs.2.1], by rw [works.status, runs.2.2]⟩

/-- An acceptor outside the quorum is as it was. -/
theorem Works.openTo (works : Works cfg server inst quorum first second) {acceptor : ℕ}
    {index : WithBot ℕ} {number : WithBot ℤ} (outside : acceptor ∉ quorum)
    (isOpen : OpenTo first acceptor index number) : OpenTo second acceptor index number :=
  isOpen.of_same (works.untouched acceptor outside)

/-- A move of the proposer that sends to its own connections only. -/
theorem Works.commit {group : Group} {label : Label} {result : Proposer × Output}
    (taken : cfg.machine.step group label = some (group.commit server result))
    (allowed : label.isProgress = true) :
    Works cfg server inst quorum group (group.commit server result) where
  continues := .step taken allowed
  others := fun other away => by simp [away]
  stopped := by simp
  proposerQueue := by simp
  acceptorQueue := by simp
  untouched := fun other _ => by simp
  status := fun acceptor => by simp
  connections := fun acceptor => by simp
  records := fun acceptor index _ => by simp

end Works

/-! ### A request and its answer -/

/-- The group once an acceptor has answered a request and the proposer has taken
the answer. -/
def Group.exchanged (group : Group) (server acceptor : ℕ) (request reply : Message)
    (acceptHistory : AcceptHistory) (result : Proposer × Output) : Group :=
  ((group.answered acceptor server request reply acceptHistory).receive (server, reply)).commit
    server result

section Exchange

variable {cfg : Config} {server acceptor inst : ℕ} {group : Group} {request reply : Message}
  {acceptHistory : AcceptHistory} {result : Proposer × Output}

@[simp] theorem Group.exchanged_proposers :
    (group.exchanged server acceptor request reply acceptHistory result).proposers =
      Function.update group.proposers server result.1 := by
  simp [exchanged, answered, receive]

@[simp] theorem Group.exchanged_acceptors :
    (group.exchanged server acceptor request reply acceptHistory result).acceptors =
      Function.update group.acceptors acceptor
        { (group.acceptors acceptor).remember request with acceptHistory } := by
  simp [exchanged, answered, receive]

theorem Group.exchanged_clients (index : ℕ) :
    (group.exchanged server acceptor request reply acceptHistory result).clients index =
      if (group.proposers server).client = some index then
        { group.clients index with acks := (group.clients index).acks ++ result.2.acks }
      else group.clients index := by
  rw [exchanged, commit_clients]
  rfl

theorem Requested.exchange (requested : Requested cfg group acceptor server request)
    (handled : handleRequest acceptor (group.acceptors acceptor).acceptHistory request =
      (some reply, acceptHistory)) (runs : group.proposerRuns cfg server)
    (empty : group.proposerQueue server = [])
    (takes : Takes cfg.groupSize server 0 false (group.proposers server) reply result)
    (here : request.inst = (inst : ℕ)) :
    Works cfg server inst [acceptor] group
      (group.exchanged server acceptor request reply acceptHistory result) where
  continues := by
    have kind := (handleRequest_outcome handled).reply_fields.1
    refine (requested.answer handled).trans ?_
    exact Group.leads_reply (fun _ => rfl) rfl (List.mem_append_right _ (List.mem_singleton_self _))
      kind empty runs takes
  others := fun other away => by simp [away]
  stopped := by simp [Group.exchanged, Group.answered, Group.receive]
  proposerQueue := by simp [Group.exchanged, Group.answered, Group.receive]; rfl
  acceptorQueue := by simp [Group.exchanged, Group.answered, Group.receive]
  untouched := fun other outside => by simp at outside; simp [outside]
  status := by
    intro other
    by_cases same : other = acceptor
    · subst same
      simp [Acceptor.remember]
    · simp [same]
  connections := by
    intro other
    by_cases same : other = acceptor
    · subst same
      simp [Acceptor.remember]
    · simp [same]
  records := by
    intro other index away
    by_cases same : other = acceptor
    · subst same
      rw [Group.exchanged_acceptors, Function.update_self]
      rcases (handleRequest_outcome handled).lookup_cases index with
        ⟨_, unchanged⟩ | ⟨same, _⟩
      · exact unchanged
      · exact absurd (same.trans here) away
    · simp [same]

/-- A request of another acceptor still waits. -/
theorem Requested.exchanged {other : ℕ} {later : Message}
    (requested : Requested cfg group other server later) (different : other ≠ acceptor)
    (kind : reply.msgType ∈ proposerMsgTypes) :
    Requested cfg (group.exchanged server acceptor request reply acceptHistory result) other server
      later := by
  have waits : Requested cfg (group.answered acceptor server request reply acceptHistory) other
      server later := requested.later different
  have same : (group.exchanged server acceptor request reply acceptHistory result).acceptors other =
      (group.answered acceptor server request reply acceptHistory).acceptors other := by
    simp [Group.exchanged, Group.receive]
  have apart : (other, later) ≠ (server, reply) := by
    intro equal
    exact acceptorMsgTypes_not_proposer requested.kind ((Prod.mk.inj equal).2 ▸ kind)
  refine ⟨⟨waits.runs.1, ?_, ?_⟩, ?_, ?_, ?_, ?_, requested.kind, requested.origin⟩
  · simpa [Group.exchanged, Group.receive] using waits.runs.2.1
  · rw [same]
    exact waits.runs.2.2
  · simpa [Group.exchanged, Group.receive] using waits.idle
  · rw [same]
    exact waits.connected
  · rw [Group.exchanged, Group.commit_flight]
    exact List.mem_append_left _ ((List.mem_erase_of_ne apart).mpr waits.inFlight)
  · rw [same]
    exact waits.unread

end Exchange

/-! ### Promises -/

/-- An idle acceptor that has promised less than the number for the instance, and
has accepted a value where it has promised anything. -/
structure Voter (cfg : Config) (server inst : ℕ) (number : ℤ) (group : Group) (acceptor : ℕ) :
    Prop where
  available : Available cfg server group acceptor
  settled : ∀ record, (group.acceptors acceptor).acceptHistory.lookup (inst : WithBot ℕ) =
    some record → record.prep < number ∧ record.accp ≠ noNumber

/-- The entry of the instance is known to another server, unless none of the
acceptors has seen the instance. -/
def Known (group : Group) (server inst : ℕ) (quorum : List ℕ) (entry : Entry) : Prop :=
  (∀ acceptor ∈ quorum, Unseen group acceptor inst) ∨ ∃ other ≠ server,
    (group.proposers other).instanceResolutions.lookup inst = some (Entry.resolution entry)

/-- The group waits for the promises of the acceptors in the list, whose PREPAREs
are in flight. -/
structure Asking (cfg : Config) (server inst : ℕ) (number : ℤ) (request : Message) (entry : Entry)
    (quorum : List ℕ) (group : Group) : Prop where
  reached : cfg.Reachable group
  runs : group.proposerRuns cfg server
  empty : group.proposerQueue server = []
  state : (group.proposers server).state = .PROPOSING
  atInst : (group.proposers server).inst = inst
  voters : ∀ acceptor ∈ quorum, Voter cfg server inst number group acceptor
  requested : ∀ acceptor ∈ quorum, Requested cfg group acceptor server request
  distinct : quorum.Nodup
  count : (group.proposers server).responseCnt + quorum.length = cfg.groupSize / 2 + 1
  carries : ∀ nack ∈ (group.proposers server).preNacks, nack.msg.Carries entry
  learns : (∃ acceptor ∈ quorum, HasAccepted group acceptor inst) ∨
    (group.proposers server).preNacks ≠ [] ∨ (group.proposers server).Learnt entry
  known : Known group server inst quorum entry

section Promise

variable {cfg : Config} {server inst acceptor : ℕ} {number : ℤ} {group : Group}
  {request : Message} {entry : Entry}

/-- A voter grants an instance it has not seen, and refuses one it has accepted. -/
theorem Voter.answers (voter : Voter cfg server inst number group acceptor)
    (isPrepare : request.msgType = .PREPARE) (here : request.inst = inst)
    (proposal : request.proposal = number) :
    ∃ reply acceptHistory,
      handleRequest acceptor (group.acceptors acceptor).acceptHistory request =
        (some reply, acceptHistory) ∧ reply.inst = inst ∧
      ((reply.msgType = .PREPARE_ACK ∧ reply.clientId ≠ none ∧ Unseen group acceptor inst) ∨
        (reply.msgType = .PREPARE_NACK ∧ HasAccepted group acceptor inst)) := by
  cases found : (group.acceptors acceptor).acceptHistory.lookup (inst : WithBot ℕ) with
  | none =>
      have unseen := found
      rw [← here] at unseen
      obtain ⟨reply, after, handled, kind, client, same⟩ :=
        @handleRequest_grant acceptor _ _ isPrepare unseen
      exact ⟨reply, after, handled, same.trans here, .inl ⟨kind, client, found⟩⟩
  | some record =>
      obtain ⟨below, accepted⟩ := voter.settled record found
      have known := found
      rw [← here] at known
      obtain ⟨reply, handled, kind, same⟩ :=
        @handleRequest_refuse acceptor _ _ isPrepare record known (proposal ▸ below) accepted
      exact ⟨reply, _, handled, same.trans here, .inr ⟨kind, record, found, accepted⟩⟩

theorem Voter.isOpen (voter : Voter cfg server inst number group acceptor) :
    OpenTo group acceptor inst number :=
  fun record found => (voter.settled record found).1.le

/-- Another acceptor is as it was after an exchange. -/
theorem Voter.exchanged {other : ℕ} {reply : Message} {acceptHistory : AcceptHistory}
    {result : Proposer × Output} (voter : Voter cfg server inst number group other)
    (different : other ≠ acceptor)
    (works : Works cfg server inst [acceptor] group
      (group.exchanged server acceptor request reply acceptHistory result))
    (steady : Steady (group.proposers server) result.1) :
    Voter cfg server inst number
      (group.exchanged server acceptor request reply acceptHistory result) other where
  available :=
    { runs := works.acceptorRuns voter.available.runs
      reaches := by
        rw [Group.exchanged_proposers, Function.update_self, steady.connections]
        exact voter.available.reaches
      answers := by
        rw [works.connections]
        exact voter.available.answers
      idle := by
        rw [works.acceptorQueue]
        exact voter.available.idle }
  settled := by
    rw [works.untouched other (by simpa using different)]
    exact voter.settled

/-- What is known of an answer to the PREPARE. -/
structure Promises (group : Group) (server inst acceptor : ℕ) (entry : Entry) (reply : Message) :
    Prop where
  counted : CountedReply (group.proposers server) reply
  carries : reply.msgType = .PREPARE_NACK → reply.Carries entry
  kind : Unseen group acceptor inst ∨ reply.msgType = .PREPARE_NACK

/-- The proposer once it has counted the reply. -/
abbrev Proposer.hear (proposer : Proposer) (reply : Message) : Proposer :=
  (proposer.remember reply).countReply 0 reply

theorem Proposer.steady_hear (proposer : Proposer) (reply : Message) :
    Steady proposer (proposer.hear reply) :=
  ⟨rfl, rfl, rfl, rfl, rfl, rfl, rfl, rfl, rfl, rfl⟩

theorem Asking.promises {quorum : List ℕ} {reply : Message} {acceptHistory : AcceptHistory}
    (asking : Asking cfg server inst number request entry (acceptor :: quorum) group)
    (handled : handleRequest acceptor (group.acceptors acceptor).acceptHistory request =
      (some reply, acceptHistory)) (here : reply.inst = inst)
    (kind : (reply.msgType = .PREPARE_ACK ∧ reply.clientId ≠ none ∧ Unseen group acceptor inst) ∨
        (reply.msgType = .PREPARE_NACK ∧ HasAccepted group acceptor inst)) :
    Promises group server inst acceptor entry reply := by
  have requested := asking.requested acceptor (by simp)
  have reachedOn := (requested.answer handled).reachable asking.reached
  have sent : (server, reply) ∈ (group.answered acceptor server request reply acceptHistory).sent :=
    List.mem_append_right _ (List.mem_singleton_self _)
  have fresh := (wire_reachable asking.reached).fresh_of_new (requested.new asking.reached handled)
  have atInst := here.trans (congrArg _ asking.atInst.symm)
  rcases kind with ⟨isAck, client, unseen⟩ | ⟨isNack, record, found, accepted⟩
  · refine ⟨⟨.inl isAck, client, atInst, fresh⟩, fun isNack => ?_, .inl unseen⟩
    exact absurd (isAck.symm.trans isNack) (by simp)
  · refine ⟨⟨.inr isNack, nack_client reachedOn sent isNack, atInst, fresh⟩, fun _ => ?_,
      .inr isNack⟩
    obtain ⟨ledger, _, refines⟩ := refines_reachable reachedOn
    obtain ⟨index, decided, atIndex, there, contents⟩ := refines.nack_carries
      (wire_reachable reachedOn) (replies_reachable reachedOn) sent isNack
    obtain rfl : index = inst := WithBot.coe_injective (atIndex.symm.trans here)
    rcases asking.known with unseen | ⟨other, _, recorded⟩
    · have missing := unseen acceptor (by simp)
      unfold Unseen at missing
      rw [missing] at found
      cases found
    · obtain ⟨same, inLog, equal⟩ := refines.resolution recorded
      obtain rfl := Entry.resolution_injective equal
      obtain rfl := Option.some.inj (there.symm.trans inLog)
      exact contents

/-- The stored PREPARE_NACKs carry the entry after the answer too. -/
theorem Asking.carries_hear {quorum : List ℕ} {reply : Message}
    (asking : Asking cfg server inst number request entry quorum group)
    (promises : Promises group server inst acceptor entry reply) :
    ∀ nack ∈ ((group.proposers server).hear reply).preNacks, nack.msg.Carries entry := by
  intro nack member
  simp only [Proposer.countReply, Proposer.remember] at member
  split at member
  · rcases List.mem_append.mp member with old | new
    · exact asking.carries nack old
    · obtain rfl := List.mem_singleton.mp new
      exact promises.carries ‹_›
  · exact asking.carries nack member

/-- The answer brings the entry, or it is still to be learnt as before. -/
theorem Asking.learns_hear {quorum : List ℕ} {reply : Message}
    (asking : Asking cfg server inst number request entry (acceptor :: quorum) group)
    (promises : Promises group server inst acceptor entry reply) :
    (∃ other ∈ quorum, HasAccepted group other inst) ∨
      ((group.proposers server).hear reply).preNacks ≠ [] ∨
      ((group.proposers server).hear reply).Learnt entry := by
  by_cases isNack : reply.msgType = .PREPARE_NACK
  · exact .inr (.inl (by simp [Proposer.countReply, Proposer.remember, isNack]))
  rcases asking.learns with ⟨other, member, accepted⟩ | some | learnt
  · rcases List.mem_cons.mp member with rfl | later
    · obtain ⟨record, found, _⟩ := accepted
      have unseen := promises.kind.resolve_right isNack
      unfold Unseen at unseen
      rw [unseen] at found
      cases found
    · exact .inl ⟨other, later, accepted⟩
  · exact .inr (.inl (by simpa [Proposer.countReply, Proposer.remember, isNack] using some))
  · exact .inr (.inr learnt)

/-- The group after a promise that does not complete the majority. -/
theorem Asking.next {quorum : List ℕ} {reply : Message} {acceptHistory : AcceptHistory}
    (asking : Asking cfg server inst number request entry (acceptor :: quorum) group)
    (more : quorum ≠ []) (here : request.inst = inst)
    (handled : handleRequest acceptor (group.acceptors acceptor).acceptHistory request =
      (some reply, acceptHistory)) (promises : Promises group server inst acceptor entry reply) :
    Works cfg server inst [acceptor] group (group.exchanged server acceptor request reply
        acceptHistory ((group.proposers server).hear reply, .silent)) ∧
      Asking cfg server inst number request entry quorum (group.exchanged server acceptor request
        reply acceptHistory ((group.proposers server).hear reply, .silent)) := by
  have few : (group.proposers server).responseCnt + 1 ≤ cfg.groupSize / 2 := by
    have count := asking.count
    have positive := List.length_pos_of_ne_nil more
    rw [List.length_cons] at count
    omega
  have takes : Takes cfg.groupSize server 0 false (group.proposers server) reply
      ((group.proposers server).hear reply, .silent) := by
    have isCounted := proposing_counted cfg.groupSize 0 promises.counted
    unfold Proposer.closeProposing at isCounted
    rw [if_pos (by exact few)] at isCounted
    rw [Proposer.hear, ← isCounted]
    exact .proposing asking.state
  have works := (asking.requested acceptor (by simp)).exchange handled asking.runs asking.empty
    takes here
  obtain ⟨fresh, distinct⟩ := List.nodup_cons.mp asking.distinct
  have different : ∀ other ∈ quorum, other ≠ acceptor := by
    rintro other member rfl
    exact fresh member
  have same : ∀ other ∈ quorum, (group.exchanged server acceptor request reply acceptHistory
      ((group.proposers server).hear reply, .silent)).acceptors other = group.acceptors other :=
    fun other member => works.untouched other (by simpa using different other member)
  have proposer : (group.exchanged server acceptor request reply acceptHistory
      ((group.proposers server).hear reply, .silent)).proposers server =
        (group.proposers server).hear reply := by
    rw [Group.exchanged_proposers, Function.update_self]
  refine ⟨works, works.continues.reachable asking.reached, ?_, ?_, ?_, ?_, ?_, ?_, distinct, ?_,
    ?_, ?_, ?_⟩
  · refine ⟨asking.runs.1, by rw [works.stopped]; exact asking.runs.2.1, ?_⟩
    rw [proposer]
    exact asking.runs.2.2
  · rw [works.proposerQueue, asking.empty]
  · rw [proposer]
    exact asking.state
  · rw [proposer]
    exact asking.atInst
  · exact fun other member => (asking.voters other (by simp [member])).exchanged
      (different other member) works ((group.proposers server).steady_hear reply)
  · exact fun other member => (asking.requested other (by simp [member])).exchanged
      (different other member) promises.counted.kind
  · have count := asking.count
    rw [proposer]
    simp only [Proposer.countReply, Proposer.remember, List.length_cons] at count ⊢
    omega
  · rw [proposer]
    exact asking.carries_hear promises
  · rw [proposer]
    rcases asking.learns_hear promises with ⟨other, member, accepted⟩ | learns
    · refine .inl ⟨other, member, ?_⟩
      unfold HasAccepted
      rw [same other member]
      exact accepted
    · exact .inr learns
  · rcases asking.known with unseen | ⟨other, away, recorded⟩
    · refine .inl fun other member => ?_
      unfold Unseen
      rw [same other member]
      exact unseen other (by simp [member])
    · refine .inr ⟨other, away, ?_⟩
      rw [works.others other away]
      exact recorded

/-- What a proposer learns from replies that carry the entry is the entry. -/
theorem learn_entry {proposer : Proposer}
    (carries : ∀ nack ∈ proposer.preNacks, nack.msg.Carries entry)
    (learns : proposer.preNacks ≠ [] ∨ proposer.Learnt entry) : proposer.learn.Learnt entry := by
  rcases learn_cases proposer with ⟨none, same⟩ | ⟨nack, member, _, same⟩
  · rw [same]
    exact learns.resolve_left fun some => some none
  · rw [same]
    exact carries nack member

/-- The proposer may propose the entry: it is not a LOCK of its own that it must hold back. -/
def Proposer.Free (proposer : Proposer) (entry : Entry) : Prop :=
  entry = proposer.ownEntry → ¬ (proposer.clientCommand.commandType = .LOCK ∧
    proposer.clientCommand.resourceId ∈ proposer.lockSet)

theorem Proposer.Free.steady {before after : Proposer} (free : before.Free entry)
    (steady : Steady before after) : after.Free entry := by
  unfold Proposer.Free Proposer.ownEntry
  rw [steady.clientCommand, steady.origClientId, steady.lockSet]
  exact free

/-- The proposer has the promises of a majority and goes on with the entry. -/
structure GoesOn (server : ℕ) (entry : Entry) (before after : Group) : Prop where
  steady : Steady (before.proposers server) (after.proposers server)
  clients : after.clients = before.clients
  state : (after.proposers server).state = .ACCEPT
  learnt : (after.proposers server).Learnt entry

/-- The promise that completes the majority. -/
theorem Asking.last {reply : Message} {acceptHistory : AcceptHistory}
    (asking : Asking cfg server inst number request entry [acceptor] group)
    (free : (group.proposers server).Free entry) (here : request.inst = inst)
    (handled : handleRequest acceptor (group.acceptors acceptor).acceptHistory request =
      (some reply, acceptHistory)) (promises : Promises group server inst acceptor entry reply) :
    ∃ result, Works cfg server inst [acceptor] group
        (group.exchanged server acceptor request reply acceptHistory result) ∧
      GoesOn server entry group
        (group.exchanged server acceptor request reply acceptHistory result) ∧
      result.1.proposerNum = (group.proposers server).proposerNum := by
  have many : ¬ (group.proposers server).responseCnt + 1 ≤ cfg.groupSize / 2 := by
    have count := asking.count
    rw [List.length_singleton] at count
    omega
  have learns : ((group.proposers server).hear reply).preNacks ≠ [] ∨
      ((group.proposers server).hear reply).Learnt entry := by
    rcases asking.learns_hear promises with ⟨_, impossible, _⟩ | rest
    · cases impossible
    · exact rest
  have learnt := learn_entry (asking.carries_hear promises) learns
  obtain ⟨value, clientId, same⟩ := learn_eq ((group.proposers server).hear reply)
  have open' : ¬ ((group.proposers server).hear reply).learn.blocked := by
    rintro ⟨own, lock, held⟩
    have isOwn := learnt.unique ((Proposer.ownLearnt_iff _).mp own)
    rw [same] at isOwn lock held
    exact free isOwn ⟨lock, held⟩
  have takes : Takes cfg.groupSize server 0 false (group.proposers server) reply
      ({ ((group.proposers server).hear reply).learn with state := .ACCEPT }, .silent) := by
    have isCounted := proposing_counted cfg.groupSize 0 promises.counted
    unfold Proposer.closeProposing Proposer.leaveProposing at isCounted
    rw [if_neg (by exact many), if_neg open'] at isCounted
    rw [← isCounted]
    exact .proposing asking.state
  have works := (asking.requested acceptor (by simp)).exchange handled asking.runs asking.empty
    takes here
  refine ⟨_, works, ?_⟩
  have proposer : (group.exchanged server acceptor request reply acceptHistory
      ({ ((group.proposers server).hear reply).learn with state := .ACCEPT },
        .silent)).proposers server =
          { ((group.proposers server).hear reply).learn with state := .ACCEPT } := by
    rw [Group.exchanged_proposers, Function.update_self]
  refine ⟨⟨?_, ?_, ?_, ?_⟩, ?_⟩
  · rw [proposer, same]
    exact ⟨rfl, rfl, rfl, rfl, rfl, rfl, rfl, rfl, rfl, rfl⟩
  · funext index
    rw [Group.exchanged_clients]
    split <;> simp [Output.acks]
  · rw [proposer]
  · rw [proposer]
    exact learnt
  · rw [same]
    rfl

/-- An acceptor that has answered a PREPARE is open to its number. -/
theorem Voter.isOpen_exchanged {reply : Message} {acceptHistory : AcceptHistory}
    {result : Proposer × Output} (voter : Voter cfg server inst number group acceptor)
    (proposal : request.proposal = number)
    (handled : handleRequest acceptor (group.acceptors acceptor).acceptHistory request =
      (some reply, acceptHistory)) :
    OpenTo (group.exchanged server acceptor request reply acceptHistory result) acceptor inst
      number := by
  intro record found
  rw [Group.exchanged_acceptors, Function.update_self] at found
  exact (handleRequest_outcome handled).openTo proposal.le voter.isOpen found

/-- The acceptors answer one after the other, and the proposer goes on with the entry. -/
theorem Asking.all {quorum : List ℕ}
    (asking : Asking cfg server inst number request entry quorum group) (some : quorum ≠ [])
    (free : (group.proposers server).Free entry) (isPrepare : request.msgType = .PREPARE)
    (here : request.inst = inst) (proposal : request.proposal = number) :
    ∃ after, Works cfg server inst quorum group after ∧ GoesOn server entry group after ∧
      (after.proposers server).proposerNum = (group.proposers server).proposerNum ∧
      ∀ acceptor ∈ quorum, OpenTo after acceptor inst number := by
  induction quorum generalizing group with
  | nil => exact absurd rfl some
  | cons acceptor quorum inductionHypothesis =>
      have voter := asking.voters acceptor (by simp)
      obtain ⟨reply, acceptHistory, handled, atInst, kind⟩ :=
        voter.answers isPrepare here proposal
      have promises := asking.promises handled atInst kind
      by_cases more : quorum = []
      · subst more
        obtain ⟨result, works, goesOn, sameNumber⟩ := asking.last free here handled promises
        refine ⟨_, works, goesOn, ?_, fun other member => ?_⟩
        · rw [Group.exchanged_proposers, Function.update_self, sameNumber]
        obtain rfl := List.mem_singleton.mp member
        exact voter.isOpen_exchanged proposal handled
      · obtain ⟨works, asks⟩ := asking.next more here handled promises
        set middle := group.exchanged server acceptor request reply acceptHistory
          ((group.proposers server).hear reply, .silent) with isMiddle
        have proposer : middle.proposers server = (group.proposers server).hear reply := by
          rw [isMiddle, Group.exchanged_proposers, Function.update_self]
        have steady : Steady (group.proposers server) (middle.proposers server) := by
          rw [proposer]
          exact (group.proposers server).steady_hear reply
        obtain ⟨after, worksOn, goesOn, sameNumber, opens⟩ :=
          inductionHypothesis asks more (free.steady steady)
        have fresh := (List.nodup_cons.mp asking.distinct).1
        refine ⟨after, (works.widen (by simp)).trans (worksOn.widen (by simp)), ?_,
          sameNumber.trans (by rw [proposer]; rfl), ?_⟩
        · refine ⟨steady.trans goesOn.steady, goesOn.clients.trans ?_, goesOn.state,
            goesOn.learnt⟩
          funext index
          rw [isMiddle, Group.exchanged_clients]
          split <;> simp [Output.acks]
        · intro other member
          rcases List.mem_cons.mp member with rfl | later
          · exact worksOn.openTo fresh (voter.isOpen_exchanged proposal handled)
          · exact opens other later

end Promise

/-! ### Acceptances -/

/-- The group waits for the acknowledgements of the acceptors in the list, whose
ACCEPTs are in flight. -/
structure Placing (cfg : Config) (server inst : ℕ) (number : ℤ) (request : Message) (entry : Entry)
    (quorum : List ℕ) (group : Group) : Prop where
  reached : cfg.Reachable group
  runs : group.proposerRuns cfg server
  empty : group.proposerQueue server = []
  state : (group.proposers server).state = .ACCEPTING
  atInst : (group.proposers server).inst = inst
  isNumber : (group.proposers server).proposerNum = number
  isOpen : ∀ acceptor ∈ quorum, OpenTo group acceptor inst number
  requested : ∀ acceptor ∈ quorum, Requested cfg group acceptor server request
  distinct : quorum.Nodup
  count : (group.proposers server).responseCnt + quorum.length = cfg.groupSize / 2 + 1
  learnt : (group.proposers server).Learnt entry

/-- The ACCEPT of the entry. -/
structure IsAccept (inst : ℕ) (number : ℤ) (entry : Entry) (request : Message) : Prop where
  kind : request.msgType = .ACCEPT
  here : request.inst = inst
  proposal : request.proposal = number
  client : request.clientId = some entry.2

/-- The proposer has resolved the instance with the entry and executed it. It is
done when the entry is its own, and then acknowledges it to its client. -/
structure Concluded (server inst : ℕ) (entry : Entry) (lockSet : List ℤ) (before after : Group) :
    Prop where
  resolutions : (after.proposers server).instanceResolutions =
    (before.proposers server).instanceResolutions.insert inst (Entry.resolution entry)
  lockSet : (after.proposers server).lockSet = lockSet
  inst : (after.proposers server).inst = inst + 1
  status : (after.proposers server).status = .running
  done : (after.proposers server).done = false
  client : (after.proposers server).client = (before.proposers server).client
  ownEntry : (after.proposers server).ownEntry = (before.proposers server).ownEntry
  connections : (after.proposers server).serverConnections =
    (before.proposers server).serverConnections
  learnt : (after.proposers server).Learnt (after.proposers server).ownEntry
  goesOn : (entry ≠ (before.proposers server).ownEntry ∧ (after.proposers server).state = .READY ∧
      after.clients = before.clients) ∨
    (entry = (before.proposers server).ownEntry ∧ (after.proposers server).state = .IDLE ∧
      ∃ ack, ∀ index, after.clients index =
        if (before.proposers server).client = some index then
          { before.clients index with acks := (before.clients index).acks ++ [ack] }
        else before.clients index)

section Accept

variable {cfg : Config} {server inst acceptor : ℕ} {number : ℤ} {group : Group}
  {request : Message} {entry : Entry}

/-- The proposer once it has counted the acknowledgement. -/
def Proposer.hearAck (proposer : Proposer) (ack : Message) : Proposer :=
  { proposer.remember ack with responseCnt := proposer.responseCnt + 1 }

theorem Proposer.steady_hearAck (proposer : Proposer) (ack : Message) :
    Steady proposer (proposer.hearAck ack) :=
  ⟨rfl, rfl, rfl, rfl, rfl, rfl, rfl, rfl, rfl, rfl⟩

/-- An open acceptor executes the ACCEPT. -/
theorem IsAccept.handled (isAccept : IsAccept inst number entry request)
    (isOpen : OpenTo group acceptor inst number) :
    handleRequest acceptor (group.acceptors acceptor).acceptHistory request =
      (some (acceptAck acceptor request),
        (group.acceptors acceptor).acceptHistory.insert request.inst (acceptedRecord request)) := by
  refine handleRequest_accept isAccept.kind fun record found => ?_
  rw [isAccept.here] at found
  rw [isAccept.proposal]
  exact isOpen record found

/-- The acknowledgement counts. -/
theorem Placing.counted {quorum : List ℕ}
    (placing : Placing cfg server inst number request entry (acceptor :: quorum) group)
    (isAccept : IsAccept inst number entry request) :
    CountedAck (group.proposers server) (acceptAck acceptor request) where
  msgType := rfl
  proposal := isAccept.proposal.trans (congrArg _ placing.isNumber.symm)
  inst := isAccept.here.trans (congrArg _ placing.atInst.symm)
  fresh := (wire_reachable placing.reached).fresh_of_new
    ((placing.requested acceptor (by simp)).new placing.reached
      (isAccept.handled (placing.isOpen acceptor (by simp))))

/-- An acceptor that has executed the ACCEPT has accepted. -/
theorem IsAccept.accepted {ack : Message} {result : Proposer × Output}
    (isAccept : IsAccept inst number entry request) (natural : number ≠ -1) :
    HasAccepted (group.exchanged server acceptor request ack
      ((group.acceptors acceptor).acceptHistory.insert request.inst (acceptedRecord request))
      result) acceptor inst := by
  refine ⟨acceptedRecord request, ?_, ?_⟩
  · rw [Group.exchanged_acceptors, Function.update_self, isAccept.here]
    exact AList.lookup_insert _
  · show request.proposal ≠ noNumber
    rw [isAccept.proposal]
    exact fun same => natural (WithBot.coe_injective same)

/-- The group after an acknowledgement that does not complete the majority. -/
theorem Placing.next {quorum : List ℕ}
    (placing : Placing cfg server inst number request entry (acceptor :: quorum) group)
    (isAccept : IsAccept inst number entry request) (more : quorum ≠ []) :
    Works cfg server inst [acceptor] group (group.exchanged server acceptor request
        (acceptAck acceptor request)
        ((group.acceptors acceptor).acceptHistory.insert request.inst (acceptedRecord request))
        ((group.proposers server).hearAck (acceptAck acceptor request), .silent)) ∧
      Placing cfg server inst number request entry quorum (group.exchanged server acceptor request
        (acceptAck acceptor request)
        ((group.acceptors acceptor).acceptHistory.insert request.inst (acceptedRecord request))
        ((group.proposers server).hearAck (acceptAck acceptor request), .silent)) := by
  have few : (group.proposers server).responseCnt + 1 ≤ cfg.groupSize / 2 := by
    have count := placing.count
    have positive := List.length_pos_of_ne_nil more
    rw [List.length_cons] at count
    omega
  have counted := placing.counted isAccept
  have takes : Takes cfg.groupSize server 0 false (group.proposers server)
      (acceptAck acceptor request)
      ((group.proposers server).hearAck (acceptAck acceptor request), .silent) := by
    have isCounted := accepting_counted cfg.groupSize server counted
    rw [if_pos few] at isCounted
    rw [Proposer.hearAck, ← isCounted]
    exact .accepting placing.state
  have works := (placing.requested acceptor (by simp)).exchange
    (isAccept.handled (placing.isOpen acceptor (by simp))) placing.runs placing.empty takes
    isAccept.here
  set middle := group.exchanged server acceptor request (acceptAck acceptor request)
    ((group.acceptors acceptor).acceptHistory.insert request.inst (acceptedRecord request))
    ((group.proposers server).hearAck (acceptAck acceptor request), .silent) with isMiddle
  have proposer : middle.proposers server =
      (group.proposers server).hearAck (acceptAck acceptor request) := by
    rw [isMiddle, Group.exchanged_proposers, Function.update_self]
  obtain ⟨fresh, distinct⟩ := List.nodup_cons.mp placing.distinct
  have different : ∀ other ∈ quorum, other ≠ acceptor := by
    rintro other member rfl
    exact fresh member
  refine ⟨works, works.continues.reachable placing.reached, ?_, ?_, ?_, ?_, ?_, ?_, ?_, distinct,
    ?_, ?_⟩
  · refine ⟨placing.runs.1, by rw [works.stopped]; exact placing.runs.2.1, ?_⟩
    rw [proposer]
    exact placing.runs.2.2
  · rw [works.proposerQueue, placing.empty]
  · rw [proposer]
    exact placing.state
  · rw [proposer]
    exact placing.atInst
  · rw [proposer]
    exact placing.isNumber
  · exact fun other member => works.openTo (by simpa using different other member)
      (placing.isOpen other (by simp [member]))
  · exact fun other member => (placing.requested other (by simp [member])).exchanged
      (different other member) counted.kind
  · have count := placing.count
    rw [proposer]
    simp only [Proposer.hearAck, List.length_cons] at count ⊢
    omega
  · rw [proposer]
    exact placing.learnt

/-- A proposer that has executed its learnt entry. -/
theorem Proposer.executed_concludes {before proposer : Proposer} {msg : Message}
    {lockSet : List ℤ} (same : Steady before proposer) (running : before.status = .running)
    (alive : before.done = false) (atInst : before.inst = inst) (learnt : proposer.Learnt entry)
    (client : msg.clientId = some entry.2) :
    (proposer.executed msg lockSet).instanceResolutions =
        before.instanceResolutions.insert inst (Entry.resolution entry) ∧
      (proposer.executed msg lockSet).status = .running ∧
      (proposer.executed msg lockSet).inst = inst + 1 := by
  have value : proposer.learntCommand = .command entry.1 := (Prod.mk.inj learnt).1
  refine ⟨?_, ?_, ?_⟩
  · simp only [Proposer.executed, Proposer.recorded, same.resolutions, same.inst, atInst, value,
      client]
    rfl
  · simp [Proposer.executed, same.done, alive, same.status, running]
  · simp [Proposer.executed, same.inst, atInst]

theorem leaveAccepting_hearAck (groupSize serverId : ℕ) (proposer : Proposer) {ack : Message}
    (present : ack.clientId ≠ none) :
    (proposer.hearAck ack).leaveAccepting groupSize serverId ack false =
      if proposer.ownLearnt then ((proposer.won groupSize ack .IDLE).resolve ack,
        .clientAck (proposer.clientAckMsg serverId ack))
      else ((proposer.won groupSize ack .READY).resolve ack, .silent) := by
  unfold Proposer.leaveAccepting
  by_cases own : proposer.ownLearnt
  · rw [if_pos (by exact own), if_neg present, if_pos own]
    rfl
  · rw [if_neg (by exact own), if_neg own]
    rfl

/-- The acknowledgement that completes the majority. -/
theorem Placing.last {lockSet : List ℤ}
    (placing : Placing cfg server inst number request entry [acceptor] group)
    (isAccept : IsAccept inst number entry request)
    (alive : (group.proposers server).done = false)
    (executes : executeCommand (group.proposers server).lockSet (.command entry.1) = .ok lockSet) :
    ∃ result, Works cfg server inst [acceptor] group (group.exchanged server acceptor request
        (acceptAck acceptor request)
        ((group.acceptors acceptor).acceptHistory.insert request.inst (acceptedRecord request))
        result) ∧
      Concluded server inst entry lockSet group (group.exchanged server acceptor request
        (acceptAck acceptor request)
        ((group.acceptors acceptor).acceptHistory.insert request.inst (acceptedRecord request))
        result) := by
  have many : ¬ (group.proposers server).responseCnt + 1 ≤ cfg.groupSize / 2 := by
    have count := placing.count
    rw [List.length_singleton] at count
    omega
  have isCounted := accepting_counted cfg.groupSize server (placing.counted isAccept)
  rw [if_neg many] at isCounted
  have takes : Takes cfg.groupSize server 0 false (group.proposers server)
      (acceptAck acceptor request) (((group.proposers server).hearAck
        (acceptAck acceptor request)).leaveAccepting cfg.groupSize server
          (acceptAck acceptor request) false) := by
    rw [Proposer.hearAck, ← isCounted]
    exact .accepting placing.state
  have works := (placing.requested acceptor (by simp)).exchange
    (isAccept.handled (placing.isOpen acceptor (by simp))) placing.runs placing.empty takes
    isAccept.here
  refine ⟨_, works, ?_⟩
  have present : (acceptAck acceptor request).clientId ≠ none := by
    show request.clientId ≠ none
    rw [isAccept.client]
    simp
  rw [leaveAccepting_hearAck _ _ _ present] at takes ⊢
  set proposer := group.proposers server with isProposer
  set ack := acceptAck acceptor request with isAck
  have finishes (state : ProposerState) : (proposer.won cfg.groupSize ack state).resolve ack =
      (proposer.won cfg.groupSize ack state).executed ack lockSet :=
    resolve_ok (by exact placing.learnt) (by exact executes) _
  have concludes (state : ProposerState) := @Proposer.executed_concludes inst entry
    proposer (proposer.won cfg.groupSize ack state) ack lockSet
    ⟨rfl, rfl, rfl, rfl, rfl, rfl, rfl, rfl, rfl, rfl⟩ placing.runs.2.2 alive placing.atInst
    placing.learnt isAccept.client
  have own : proposer.ownLearnt ↔ entry = proposer.ownEntry := by
    rw [Proposer.ownLearnt_iff]
    exact ⟨placing.learnt.unique, fun same => same ▸ placing.learnt⟩
  have concluded (state : ProposerState) (result : Proposer × Output)
      (isResult : result.1 = (proposer.won cfg.groupSize ack state).resolve ack)
      (goesOn : (entry ≠ proposer.ownEntry ∧ state = .READY ∧ result.2.acks = []) ∨
        (entry = proposer.ownEntry ∧ state = .IDLE ∧ ∃ msg, result.2.acks = [msg])) :
      Concluded server inst entry lockSet group (group.exchanged server acceptor request ack
        ((group.acceptors acceptor).acceptHistory.insert request.inst (acceptedRecord request))
        result) := by
    have after : (group.exchanged server acceptor request ack
        ((group.acceptors acceptor).acceptHistory.insert request.inst (acceptedRecord request))
        result).proposers server = (proposer.won cfg.groupSize ack state).executed ack lockSet := by
      rw [Group.exchanged_proposers, Function.update_self, isResult, finishes]
    obtain ⟨resolutions, status, atInst⟩ := concludes state
    refine ⟨by rw [after, resolutions], by rw [after]; rfl, by rw [after, atInst],
      by rw [after, status], by rw [after]; exact alive, by rw [after]; rfl, by rw [after]; rfl,
      by rw [after]; rfl, by rw [after]; rfl, ?_⟩
    rcases goesOn with ⟨other, isState, none⟩ | ⟨same, isState, msg, one⟩
    · refine .inl ⟨other, by rw [after, ← isState]; rfl, ?_⟩
      funext index
      rw [Group.exchanged_clients, none]
      split <;> simp
    · refine .inr ⟨same, by rw [after, ← isState]; rfl, msg, fun index => ?_⟩
      rw [Group.exchanged_clients, one]
  by_cases isOwn : proposer.ownLearnt
  · rw [if_pos isOwn]
    exact concluded .IDLE _ rfl (.inr ⟨own.mp isOwn, rfl, _, rfl⟩)
  · rw [if_neg isOwn]
    exact concluded .READY _ rfl (.inl ⟨fun same => isOwn (own.mpr same), rfl, rfl⟩)

theorem Concluded.before {lockSet : List ℤ} {first second third : Group}
    (concluded : Concluded server inst entry lockSet second third)
    (steady : Steady (first.proposers server) (second.proposers server))
    (clients : second.clients = first.clients) :
    Concluded server inst entry lockSet first third := by
  have own : (second.proposers server).ownEntry = (first.proposers server).ownEntry := by
    rw [Proposer.ownEntry, Proposer.ownEntry, steady.clientCommand, steady.origClientId]
  have goesOn := concluded.goesOn
  rw [own, steady.client, clients] at goesOn
  refine ⟨?_, concluded.lockSet, concluded.inst, concluded.status, concluded.done,
    concluded.client.trans steady.client, concluded.ownEntry.trans own,
    concluded.connections.trans steady.connections, concluded.learnt, goesOn⟩
  rw [concluded.resolutions, steady.resolutions]

/-- The acceptors acknowledge one after the other, and the proposer resolves. -/
theorem Placing.all {quorum : List ℕ} {lockSet : List ℤ}
    (placing : Placing cfg server inst number request entry quorum group) (some : quorum ≠ [])
    (isAccept : IsAccept inst number entry request) (natural : number ≠ -1)
    (alive : (group.proposers server).done = false)
    (executes : executeCommand (group.proposers server).lockSet (.command entry.1) = .ok lockSet) :
    ∃ after, Works cfg server inst quorum group after ∧
      Concluded server inst entry lockSet group after ∧
      ∀ acceptor ∈ quorum, HasAccepted after acceptor inst := by
  induction quorum generalizing group with
  | nil => exact absurd rfl some
  | cons acceptor quorum inductionHypothesis =>
      by_cases more : quorum = []
      · subst more
        obtain ⟨result, works, concluded⟩ := placing.last isAccept alive executes
        refine ⟨_, works, concluded, fun other member => ?_⟩
        obtain rfl := List.mem_singleton.mp member
        exact isAccept.accepted natural
      · obtain ⟨works, places⟩ := placing.next isAccept more
        set middle := group.exchanged server acceptor request (acceptAck acceptor request)
          ((group.acceptors acceptor).acceptHistory.insert request.inst (acceptedRecord request))
          ((group.proposers server).hearAck (acceptAck acceptor request), .silent) with isMiddle
        have steady : Steady (group.proposers server) (middle.proposers server) := by
          rw [isMiddle, Group.exchanged_proposers, Function.update_self]
          exact (group.proposers server).steady_hearAck _
        have clients : middle.clients = group.clients := by
          funext index
          rw [isMiddle, Group.exchanged_clients]
          split <;> simp [Output.acks]
        obtain ⟨after, worksOn, concluded, accepted⟩ := inductionHypothesis places more
          (steady.done.trans alive) (by rw [steady.lockSet]; exact executes)
        have fresh := (List.nodup_cons.mp placing.distinct).1
        refine ⟨after, (works.widen (by simp)).trans (worksOn.widen (by simp)),
          concluded.before steady clients, fun other member => ?_⟩
        rcases List.mem_cons.mp member with rfl | later
        · unfold HasAccepted
          rw [worksOn.untouched other fresh]
          exact isAccept.accepted natural
        · exact accepted other later

end Accept

/-! ### A round -/

/-- All processes of the group run, all connections are up, and nothing waits on a
queue. -/
structure Quiet (cfg : Config) (group : Group) : Prop where
  reached : cfg.Reachable group
  up : ∀ server < cfg.groupSize, group.stopped server = false
  running : ∀ server < cfg.groupSize, (group.proposers server).status = .running
  alive : ∀ server < cfg.groupSize, (group.proposers server).done = false
  reaches : ∀ server < cfg.groupSize, ∀ other < cfg.groupSize, other ≠ server →
    other ∈ (group.proposers server).serverConnections
  acceptors : ∀ acceptor < cfg.groupSize, (group.acceptors acceptor).status = .running
  answers : ∀ acceptor < cfg.groupSize, ∀ server < cfg.groupSize,
    server ∈ (group.acceptors acceptor).serverConnections
  proposerQueue : ∀ server, group.proposerQueue server = []
  acceptorQueue : ∀ server, group.acceptorQueue server = []

section Round

variable {cfg : Config} {server inst : ℕ} {group next : Group} {quorum : List ℕ} {entry : Entry}

theorem Quiet.proposerRuns (quiet : Quiet cfg group) (known : server < cfg.groupSize) :
    group.proposerRuns cfg server :=
  ⟨known, quiet.up server known, quiet.running server known⟩

theorem Quiet.available (quiet : Quiet cfg group) (known : server < cfg.groupSize) {acceptor : ℕ}
    (inside : acceptor < cfg.groupSize) (different : acceptor ≠ server) :
    Available cfg server group acceptor where
  runs := ⟨inside, quiet.up acceptor inside, quiet.acceptors acceptor inside⟩
  reaches := quiet.reaches server known acceptor inside different
  answers := quiet.answers acceptor inside server known
  idle := quiet.acceptorQueue acceptor

/-- A stretch of a round leaves the group quiet when its proposer stays well. -/
theorem Quiet.works (quiet : Quiet cfg group) (works : Works cfg server inst quorum group next)
    (running : (next.proposers server).status = .running)
    (alive : (next.proposers server).done = false)
    (connections : (next.proposers server).serverConnections =
      (group.proposers server).serverConnections) : Quiet cfg next where
  reached := works.continues.reachable quiet.reached
  up := by
    rw [works.stopped]
    exact quiet.up
  running := by
    intro other known
    by_cases same : other = server
    · exact same ▸ running
    · rw [works.others other same]
      exact quiet.running other known
  alive := by
    intro other known
    by_cases same : other = server
    · exact same ▸ alive
    · rw [works.others other same]
      exact quiet.alive other known
  reaches := by
    intro other known
    by_cases same : other = server
    · rw [same, connections, ← same]
      exact quiet.reaches other known
    · rw [works.others other same]
      exact quiet.reaches other known
  acceptors := by
    intro acceptor inside
    rw [works.status]
    exact quiet.acceptors acceptor inside
  answers := by
    intro acceptor inside
    rw [works.connections]
    exact quiet.answers acceptor inside
  proposerQueue := by
    rw [works.proposerQueue]
    exact quiet.proposerQueue
  acceptorQueue := by
    rw [works.acceptorQueue]
    exact quiet.acceptorQueue

theorem Quiet.steady (quiet : Quiet cfg group) (known : server < cfg.groupSize)
    (works : Works cfg server inst quorum group next)
    (steady : Steady (group.proposers server) (next.proposers server)) : Quiet cfg next :=
  quiet.works works (steady.status.trans (quiet.running server known))
    (steady.done.trans (quiet.alive server known)) steady.connections

/-- A stretch without a reply, after which the proposer still wants the same. -/
structure Insists (cfg : Config) (server inst : ℕ) (before after : Group) : Prop where
  works : Works cfg server inst [] before after
  steady : Steady (before.proposers server) (after.proposers server)
  clients : after.clients = before.clients
  learntCommand : (after.proposers server).learntCommand = (before.proposers server).learntCommand
  learntClient : (after.proposers server).learntClient = (before.proposers server).learntClient

theorem Insists.trans {last : Group} (left : Insists cfg server inst group next)
    (right : Insists cfg server inst next last) : Insists cfg server inst group last :=
  ⟨left.works.trans right.works, left.steady.trans right.steady, right.clients.trans left.clients,
    right.learntCommand.trans left.learntCommand, right.learntClient.trans left.learntClient⟩

theorem Insists.learnt (insists : Insists cfg server inst group next)
    (learnt : (group.proposers server).Learnt entry) : (next.proposers server).Learnt entry := by
  unfold Proposer.Learnt
  rw [insists.learntCommand, insists.learntClient]
  exact learnt

/-- READY: the PREPARE goes out to all connections. -/
theorem Quiet.ask (quiet : Quiet cfg group) (known : server < cfg.groupSize) (inst : ℕ)
    (ready : (group.proposers server).state = .READY) :
    ∃ after, Insists cfg server inst group after ∧ (after.proposers server).state = .PROPOSING ∧
      (after.proposers server).responseCnt = 0 ∧ (after.proposers server).preNacks = [] ∧
      (after.proposers server).proposerNum = (group.proposers server).proposerNum ∧
      ∀ acceptor ∈ (group.proposers server).serverConnections,
        (acceptor, (group.proposers server).prepareMsg server) ∈ after.flight ∧
          ((group.proposers server).prepareMsg server).signature ∉
            (group.acceptors acceptor).msgHistory := by
  have step : cfg.machine.step group (.send server []) =
      some (group.commit server ((group.proposers server).ready server [])) := by
    simp only [Config.machine, Group.step, ready]
    exact if_pos (quiet.proposerRuns known)
  have all := sendToAcceptors_nil (group.proposers server).serverConnections
  have packets : ∀ acceptor ∈ (group.proposers server).serverConnections,
      (acceptor, (group.proposers server).prepareMsg server) ∈
        ((group.proposers server).ready server []).2.packets := by
    simp [Proposer.ready, Output.packets, all]
  have clients : (group.commit server ((group.proposers server).ready server [])).clients =
      group.clients := by
    funext index
    rw [Group.commit_clients]
    split <;> simp [Proposer.ready, Output.acks]
  refine ⟨_, ⟨.commit step rfl, ?_, clients, ?_, ?_⟩, ?_, ?_, ?_, ?_, fun acceptor inside =>
    ⟨?_, ?_⟩⟩
  · rw [Group.commit_proposers, Function.update_self]
    exact ⟨rfl, rfl, rfl, rfl, rfl, rfl, congrArg Prod.snd all, rfl, rfl, rfl⟩
  · simp [Proposer.ready]
  · simp [Proposer.ready]
  · simp [Proposer.ready]
  · simp [Proposer.ready]
  · simp [Proposer.ready]
  · simp [Proposer.ready]
  · rw [Group.commit_flight]
    exact List.mem_append_right _ (packets acceptor inside)
  · exact unread_of_new (wire_reachable quiet.reached) (not_sent_before
      (quiet.reached.step step) (Group.commit_sent ..) (packets acceptor inside))

/-- ACCEPT: the ACCEPT goes out to all connections. -/
theorem Quiet.propose (quiet : Quiet cfg group) (known : server < cfg.groupSize) (inst : ℕ)
    (accept : (group.proposers server).state = .ACCEPT)
    (learnt : (group.proposers server).Learnt entry) :
    ∃ after, Insists cfg server inst group after ∧ (after.proposers server).state = .ACCEPTING ∧
      (after.proposers server).responseCnt = 0 ∧
      (after.proposers server).proposerNum = (group.proposers server).proposerNum ∧
      ∀ acceptor ∈ (group.proposers server).serverConnections,
        (acceptor, (group.proposers server).acceptMsg server) ∈ after.flight ∧
          ((group.proposers server).acceptMsg server).signature ∉
            (group.acceptors acceptor).msgHistory := by
  have step : cfg.machine.step group (.send server []) =
      some (group.commit server ((group.proposers server).accept server [])) := by
    simp only [Config.machine, Group.step, accept]
    exact if_pos (quiet.proposerRuns known)
  have all := sendToAcceptors_nil (group.proposers server).serverConnections
  have present : (group.proposers server).learntClient ≠ none := by
    rw [(Prod.mk.inj learnt).2]
    simp
  have result : (group.proposers server).accept server [] =
      ({ group.proposers server with state := .ACCEPTING, responseCnt := 0 },
        .broadcast ((group.proposers server).acceptMsg server)
          (group.proposers server).serverConnections) := by
    simp [Proposer.accept, present, all]
  rw [result] at step
  have packets : ∀ acceptor ∈ (group.proposers server).serverConnections,
      (acceptor, (group.proposers server).acceptMsg server) ∈
        (Output.broadcast ((group.proposers server).acceptMsg server)
          (group.proposers server).serverConnections).packets := by
    simp [Output.packets]
  refine ⟨_, ⟨.commit step rfl, ?_, ?_, ?_, ?_⟩, ?_, ?_, ?_, fun acceptor inside => ⟨?_, ?_⟩⟩
  · rw [Group.commit_proposers, Function.update_self]
    exact ⟨rfl, rfl, rfl, rfl, rfl, rfl, rfl, rfl, rfl, rfl⟩
  · funext index
    rw [Group.commit_clients]
    split <;> simp [Output.acks]
  · simp
  · simp
  · simp
  · simp
  · simp
  · rw [Group.commit_flight]
    exact List.mem_append_right _ (packets acceptor inside)
  · exact unread_of_new (wire_reachable quiet.reached) (not_sent_before
      (quiet.reached.step step) (Group.commit_sent ..) (packets acceptor inside))

/-- PROPOSING: the wait times out. -/
theorem Quiet.giveUp (quiet : Quiet cfg group) (known : server < cfg.groupSize) (inst : ℕ)
    (proposing : (group.proposers server).state = .PROPOSING) :
    ∃ after, Insists cfg server inst group after ∧ (after.proposers server).state = .READY ∧
      (group.proposers server).proposerNum + 1 ≤ (after.proposers server).proposerNum := by
  have step : cfg.machine.step group (.timeout server) =
      some (group.commit server ((group.proposers server).abandon cfg.groupSize, .silent)) := by
    simp only [Config.machine, Group.step, proposing]
    exact if_pos (quiet.proposerRuns known)
  refine ⟨_, ⟨.commit step rfl, ?_, ?_, ?_, ?_⟩, ?_, ?_⟩
  · rw [Group.commit_proposers, Function.update_self]
    exact ⟨rfl, rfl, rfl, rfl, rfl, rfl, rfl, rfl, rfl, rfl⟩
  · funext index
    rw [Group.commit_clients]
    split <;> simp [Output.acks]
  · simp [Proposer.abandon]
  · simp [Proposer.abandon]
  · simp [Proposer.abandon]
  · simp only [Group.commit_proposers, Function.update_self, Proposer.abandon]
    omega

/-- Rounds without a reply raise the number above any bound. -/
theorem Quiet.raise (quiet : Quiet cfg group) (known : server < cfg.groupSize) (inst : ℕ)
    (ready : (group.proposers server).state = .READY) (bound : ℤ) :
    ∃ after, Insists cfg server inst group after ∧ (after.proposers server).state = .READY ∧
      bound < (after.proposers server).proposerNum := by
  have rounds : ∀ (count : ℕ) (group : Group), Quiet cfg group →
      (group.proposers server).state = .READY →
      bound < (group.proposers server).proposerNum + count →
      ∃ after, Insists cfg server inst group after ∧ (after.proposers server).state = .READY ∧
        bound < (after.proposers server).proposerNum := by
    intro count
    induction count with
    | zero =>
        intro group _ ready above
        exact ⟨group, ⟨.refl .., .refl _, rfl, rfl, rfl⟩, ready, by simpa using above⟩
    | succ count inductionHypothesis =>
        intro group quiet ready above
        obtain ⟨asked, asks, proposing, _, _, number, _⟩ := quiet.ask known inst ready
        have quietOn := quiet.steady known asks.works asks.steady
        obtain ⟨again, givesUp, readyOn, raised⟩ := quietOn.giveUp known inst proposing
        have quietAgain := quietOn.steady known givesUp.works givesUp.steady
        obtain ⟨after, insists, readyAgain, final⟩ :=
          inductionHypothesis again quietAgain readyOn (by push_cast at above; omega)
        exact ⟨after, (asks.trans givesUp).trans insists, readyAgain, final⟩
  refine rounds (bound - (group.proposers server).proposerNum + 1).toNat group quiet ready ?_
  omega

theorem Insists.acceptor (insists : Insists cfg server inst group next) (acceptor : ℕ) :
    next.acceptors acceptor = group.acceptors acceptor :=
  insists.works.untouched acceptor List.not_mem_nil

theorem GoesOn.after {last : Group} (goesOn : GoesOn server entry next last)
    (insists : Insists cfg server inst group next) : GoesOn server entry group last :=
  ⟨insists.steady.trans goesOn.steady, goesOn.clients.trans insists.clients, goesOn.state,
    goesOn.learnt⟩

/-- What a round asks of its acceptors: they are a majority without the server, and
each has accepted a value for the instance where it has a record of it. -/
structure Electorate (cfg : Config) (server inst : ℕ) (quorum : List ℕ) (group : Group) : Prop where
  distinct : quorum.Nodup
  inside : ∀ acceptor ∈ quorum, acceptor < cfg.groupSize ∧ acceptor ≠ server
  enough : quorum.length = cfg.groupSize / 2 + 1
  settled : ∀ acceptor ∈ quorum, ∀ record,
    (group.acceptors acceptor).acceptHistory.lookup (inst : WithBot ℕ) = some record →
      record.accp ≠ noNumber

theorem Electorate.some (electorate : Electorate cfg server inst quorum group) : quorum ≠ [] := by
  intro none
  have enough := electorate.enough
  rw [none, List.length_nil] at enough
  omega

/-- The promises of the electorate: the proposer goes on with the entry. -/
theorem Quiet.win (quiet : Quiet cfg group) (known : server < cfg.groupSize)
    (ready : (group.proposers server).state = .READY)
    (atInst : (group.proposers server).inst = inst)
    (electorate : Electorate cfg server inst quorum group)
    (learns : (∃ acceptor ∈ quorum, HasAccepted group acceptor inst) ∨
      (group.proposers server).Learnt entry)
    (isKnown : Known group server inst quorum entry) (free : (group.proposers server).Free entry) :
    ∃ after, Works cfg server inst quorum group after ∧ GoesOn server entry group after ∧
      0 ≤ (after.proposers server).proposerNum ∧
      ∀ acceptor ∈ quorum, OpenTo after acceptor inst (after.proposers server).proposerNum := by
  obtain ⟨bound, isOpen⟩ := exists_open group inst quorum
  obtain ⟨higher, raises, readyOn, above⟩ := quiet.raise known inst ready (max bound 0)
  have quietOn := quiet.steady known raises.works raises.steady
  obtain ⟨asked, asks, proposing, none, noNacks, number, requests⟩ := quietOn.ask known inst readyOn
  have quietAsked := quietOn.steady known asks.works asks.steady
  have insists := raises.trans asks
  have asking : Asking cfg server inst (higher.proposers server).proposerNum
      ((higher.proposers server).prepareMsg server) entry quorum asked := by
    have available : ∀ acceptor ∈ quorum, Available cfg server asked acceptor := by
      intro acceptor member
      rcases electorate.inside acceptor member with ⟨inside, different⟩
      exact quietAsked.available known inside different
    refine ⟨quietAsked.reached, quietAsked.proposerRuns known, quietAsked.proposerQueue server,
      proposing, insists.steady.inst.trans atInst, fun acceptor member =>
      ⟨available acceptor member, ?_⟩, fun acceptor member => ?_, electorate.distinct,
      ?_, ?_, ?_, ?_⟩
    · rw [insists.acceptor]
      intro record found
      refine ⟨lt_of_le_of_lt (isOpen acceptor member record found) ?_,
        electorate.settled acceptor member record found⟩
      exact WithBot.coe_lt_coe.mpr (lt_of_le_of_lt (le_max_left bound 0) above)
    · have reaches := (available acceptor member).reaches
      rw [asks.steady.connections] at reaches
      obtain ⟨inFlight, unread⟩ := requests acceptor reaches
      exact (available acceptor member).requested inFlight (by rwa [asks.acceptor])
        (prepareMsg_request _ _) rfl
    · rw [none, electorate.enough]
      omega
    · simp [noNacks]
    · refine learns.imp (fun ⟨acceptor, member, accepted⟩ => ⟨acceptor, member, ?_⟩) fun learnt =>
        .inr (insists.learnt learnt)
      unfold HasAccepted
      rw [insists.acceptor]
      exact accepted
    · refine isKnown.imp (fun unseen acceptor member => ?_) fun ⟨other, away, recorded⟩ =>
        ⟨other, away, ?_⟩
      · unfold Unseen
        rw [insists.acceptor]
        exact unseen acceptor member
      · rw [insists.works.others other away]
        exact recorded
  obtain ⟨after, works, goesOn, same, opens⟩ := asking.all electorate.some
    (free.steady insists.steady) rfl
    (congrArg _ (raises.steady.inst.trans atInst)) rfl
  refine ⟨after, (insists.works.widen (by simp)).trans works, goesOn.after insists, ?_, ?_⟩
  · rw [same, number]
    exact (lt_of_le_of_lt (le_max_right bound 0) above).le
  · rw [same, number]
    exact opens

/-- A round of a quiet group: the instance is resolved with the entry. -/
theorem Quiet.round {lockSet : List ℤ} (quiet : Quiet cfg group) (known : server < cfg.groupSize)
    (ready : (group.proposers server).state = .READY)
    (atInst : (group.proposers server).inst = inst)
    (electorate : Electorate cfg server inst quorum group)
    (learns : (∃ acceptor ∈ quorum, HasAccepted group acceptor inst) ∨
      (group.proposers server).Learnt entry)
    (isKnown : Known group server inst quorum entry) (free : (group.proposers server).Free entry)
    (executes : executeCommand (group.proposers server).lockSet (.command entry.1) = .ok lockSet) :
    ∃ after, Works cfg server inst quorum group after ∧ Quiet cfg after ∧
      Concluded server inst entry lockSet group after ∧
      ∀ acceptor ∈ quorum, HasAccepted after acceptor inst := by
  obtain ⟨won, wins, goesOn, natural, opens⟩ :=
    quiet.win known ready atInst electorate learns isKnown free
  have quietWon := quiet.steady known wins goesOn.steady
  obtain ⟨proposed, proposes, accepting, none, number, requests⟩ :=
    quietWon.propose known inst goesOn.state goesOn.learnt
  have quietProposed := quietWon.steady known proposes.works proposes.steady
  have placing : Placing cfg server inst (won.proposers server).proposerNum
      ((won.proposers server).acceptMsg server) entry quorum proposed := by
    refine ⟨quietProposed.reached, quietProposed.proposerRuns known,
      quietProposed.proposerQueue server, accepting,
      (proposes.steady.inst.trans goesOn.steady.inst).trans atInst, number, ?_, ?_,
      electorate.distinct, ?_, proposes.learnt goesOn.learnt⟩
    · exact fun acceptor member => proposes.works.openTo List.not_mem_nil (opens acceptor member)
    · intro acceptor member
      obtain ⟨inside, different⟩ := electorate.inside acceptor member
      have available := quietProposed.available known inside different
      have reaches := available.reaches
      rw [proposes.steady.connections] at reaches
      obtain ⟨inFlight, unread⟩ := requests acceptor reaches
      exact available.requested inFlight (by rwa [proposes.acceptor]) (acceptMsg_request _ _) rfl
    · rw [none, electorate.enough]
      omega
  have isAccept : IsAccept inst (won.proposers server).proposerNum entry
      ((won.proposers server).acceptMsg server) :=
    ⟨rfl, congrArg _ (goesOn.steady.inst.trans atInst), rfl, (Prod.mk.inj goesOn.learnt).2⟩
  have steady := goesOn.steady.trans proposes.steady
  obtain ⟨after, works, concluded, accepted⟩ := placing.all electorate.some isAccept (by omega)
    (steady.done.trans (quiet.alive server known)) (by rw [steady.lockSet]; exact executes)
  have whole : Works cfg server inst quorum group after :=
    wins.trans ((proposes.works.widen (by simp)).trans works)
  have concludes := concluded.before steady (proposes.clients.trans goesOn.clients)
  exact ⟨after, whole, quiet.works whole concludes.status concludes.done concludes.connections,
    concludes, accepted⟩

end Round

end CSE550.Paxos
