import CSE550.Paxos.Progress

/-!
Owns what acceptors make of requests in flight when nothing more is lost: each
answer reaches the network, is new, and raises no promise above the requests.

Does not own what a proposer makes of the answers.
-/

namespace CSE550.Paxos

open CSE550.Lib

/-- The acceptor has promised nothing above the number for the instance. -/
def OpenTo (group : Group) (acceptor : ℕ) (inst : WithBot ℕ) (number : WithBot ℤ) : Prop :=
  ∀ record, (group.acceptors acceptor).acceptHistory.lookup inst = some record →
    record.prep ≤ number

/-- The acceptor has accepted a value for the instance. -/
def HasAccepted (group : Group) (acceptor : ℕ) (inst : WithBot ℕ) : Prop :=
  ∃ record, (group.acceptors acceptor).acceptHistory.lookup inst = some record ∧
    record.accp ≠ noNumber

/-- The acceptors keep their records of the other instances. -/
def Elsewhere (inst : WithBot ℕ) (before after : Group) : Prop :=
  ∀ acceptor index, index ≠ inst →
    (after.acceptors acceptor).acceptHistory.lookup index =
      (before.acceptors acceptor).acceptHistory.lookup index

theorem Elsewhere.of_same {before after : Group} (inst : WithBot ℕ)
    (acceptors : after.acceptors = before.acceptors) : Elsewhere inst before after :=
  fun _ _ _ => by rw [acceptors]

theorem Elsewhere.trans {inst : WithBot ℕ} {first second third : Group}
    (left : Elsewhere inst first second) (right : Elsewhere inst second third) :
    Elsewhere inst first third :=
  fun acceptor index other => (right acceptor index other).trans (left acceptor index other)

/-- The acceptor has nothing to do but a request in flight that it has not read. -/
structure Requested (cfg : Config) (group : Group) (acceptor origin : ℕ) (request : Message) :
    Prop where
  runs : group.acceptorRuns cfg acceptor
  idle : group.acceptorQueue acceptor = []
  connected : origin ∈ (group.acceptors acceptor).serverConnections
  inFlight : (acceptor, request) ∈ group.flight
  unread : request.signature ∉ (group.acceptors acceptor).msgHistory
  kind : request.msgType ∈ acceptorMsgTypes
  origin : request.originId = some origin

/-- The group once the acceptor has answered the request. -/
def Group.answered (group : Group) (acceptor origin : ℕ) (request reply : Message)
    (acceptHistory : AcceptHistory) : Group :=
  (group.receive (acceptor, request)).commitAcceptor acceptor
    ({ (group.acceptors acceptor).remember request with acceptHistory }, some (origin, reply))

theorem process_replied {serverId origin : ℕ} {acceptor : Acceptor} {request reply : Message}
    {acceptHistory : AcceptHistory} (kind : request.msgType ∈ acceptorMsgTypes)
    (unread : request.signature ∉ acceptor.msgHistory)
    (handled : handleRequest serverId acceptor.acceptHistory request = (some reply, acceptHistory))
    (isOrigin : request.originId = some origin) (connected : origin ∈ acceptor.serverConnections) :
    acceptor.process serverId request true =
      ({ acceptor.remember request with acceptHistory }, some (origin, reply)) := by
  unfold Acceptor.process
  rw [if_pos kind, if_neg unread, handled]
  simp only [Acceptor.respond, isOrigin, connected, if_true]
  rfl

/-- A reply raises no promise above its request. -/
theorem RequestOutcome.openTo {serverId : ℕ} {before after : AcceptHistory}
    {msg reply : Message} (outcome : RequestOutcome serverId before msg reply after)
    {inst : WithBot ℕ} {number : WithBot ℤ} (bound : msg.proposal ≤ number)
    (isOpen : ∀ record, before.lookup inst = some record → record.prep ≤ number)
    {record : AcceptRecord} (found : after.lookup inst = some record) : record.prep ≤ number := by
  rcases outcome.lookup_cases inst with ⟨_, same⟩ | ⟨here, _⟩
  · exact isOpen record (same.symm.trans found)
  · subst here
    cases outcome with
    | granted | promised | refused | accepted =>
        rw [AList.lookup_insert] at found
        rw [← Option.some.inj found]
        exact bound

section Answer

variable {cfg : Config} {server : ℕ} {group : Group} {acceptor origin : ℕ}
  {request reply : Message} {acceptHistory : AcceptHistory}

theorem Requested.answer (requested : Requested cfg group acceptor origin request)
    (handled : handleRequest acceptor (group.acceptors acceptor).acceptHistory request =
      (some reply, acceptHistory)) :
    cfg.Continues group (group.answered acceptor origin request reply acceptHistory) := by
  have leads : cfg.Continues group _ := Group.leads_request true (fun _ => rfl) rfl
    requested.inFlight requested.kind requested.idle requested.runs
  rwa [process_replied requested.kind requested.unread handled requested.origin
    requested.connected] at leads

/-- An answer carries every proposer's task. -/
theorem Requested.goes (requested : Requested cfg group acceptor origin request)
    (handled : handleRequest acceptor (group.acceptors acceptor).acceptHistory request =
      (some reply, acceptHistory)) :
    Goes cfg group (group.answered acceptor origin request reply acceptHistory) where
  continues := requested.answer handled
  carries :=
    { task := fun _ => .refl _
      idle := fun _ _ => rfl
      clients := rfl
      stopped := rfl
      acceptorStatus := by
        intro other
        by_cases same : other = acceptor
        · subst same
          simp [Group.answered, Acceptor.remember]
        · simp [Group.answered, Group.receive, same]
      acceptorConnections := by
        intro other
        by_cases same : other = acceptor
        · subst same
          simp [Group.answered, Acceptor.remember]
        · simp [Group.answered, Group.receive, same]
      acceptorQueue := rfl }

/-- The answer has not been sent before. -/
theorem Requested.new (requested : Requested cfg group acceptor origin request)
    (reached : cfg.Reachable group)
    (handled : handleRequest acceptor (group.acceptors acceptor).acceptHistory request =
      (some reply, acceptHistory)) : (origin, reply) ∉ group.sent :=
  not_sent_before ((requested.answer handled).reachable reached)
    (show (group.answered acceptor origin request reply acceptHistory).sent =
      group.sent ++ [(origin, reply)] from rfl) (List.mem_singleton_self _)

/-- An answer changes the record of its instance only. -/
theorem elsewhere_answered
    (handled : handleRequest acceptor (group.acceptors acceptor).acceptHistory request =
      (some reply, acceptHistory)) :
    Elsewhere request.inst group (group.answered acceptor origin request reply acceptHistory) := by
  intro other index away
  by_cases same : other = acceptor
  · subst same
    rcases (handleRequest_outcome handled).lookup_cases index with ⟨_, unchanged⟩ | ⟨here, _⟩
    · simpa [Group.answered] using unchanged
    · exact absurd here away
  · simp [Group.answered, Group.receive, same]

/-- Other packets stay in flight. -/
theorem mem_answered_flight {packet : ℕ × Message} (flying : packet ∈ group.flight)
    (other : packet ≠ (acceptor, request)) :
    packet ∈ (group.answered acceptor origin request reply acceptHistory).flight :=
  List.mem_append_left _ ((List.mem_erase_of_ne other).mpr flying)

/-- A request of another acceptor waits on. -/
theorem Requested.later {other : ℕ} {later : Message}
    (requested : Requested cfg group other server later) (different : other ≠ acceptor) :
    Requested cfg (group.answered acceptor origin request reply acceptHistory) other server
      later := by
  have same : (group.answered acceptor origin request reply acceptHistory).acceptors other =
      group.acceptors other := by
    simp [Group.answered, Group.receive, different]
  refine ⟨⟨requested.runs.1, requested.runs.2.1, ?_⟩, requested.idle, ?_,
    mem_answered_flight requested.inFlight ?_, ?_, requested.kind, requested.origin⟩
  · rw [same]
    exact requested.runs.2.2
  · rw [same]
    exact requested.connected
  · exact fun equal => different (Prod.mk.inj equal).1
  · rw [same]
    exact requested.unread

end Answer

/-- Each acceptor has answered its request. -/
structure Served (cfg : Config) (server : ℕ) (requests : ℕ → Message) (acceptors : List ℕ)
    (before after : Group) : Prop where
  goes : Goes cfg before after
  proposers : after.proposers = before.proposers
  queues : after.proposerQueue = before.proposerQueue
  untouched : ∀ other ∉ acceptors, after.acceptors other = before.acceptors other
  flight : ∀ packet ∈ before.flight,
    (packet.1 ∈ acceptors → packet.2.msgType ∈ proposerMsgTypes) → packet ∈ after.flight
  sent : ∀ packet ∈ before.sent, packet ∈ after.sent
  elsewhere : ∀ inst, (∀ acceptor ∈ acceptors, (requests acceptor).inst = inst) →
    Elsewhere inst before after
  openTo : ∀ acceptor inst number, OpenTo before acceptor inst number →
    (acceptor ∈ acceptors → (requests acceptor).proposal ≤ number) →
      OpenTo after acceptor inst number

theorem Served.nil (cfg : Config) (server : ℕ) (requests : ℕ → Message) (group : Group) :
    Served cfg server requests [] group group :=
  ⟨.refl _ _, rfl, rfl, fun _ _ => rfl, fun _ member _ => member, fun _ member => member,
    fun _ _ _ _ _ => rfl, fun _ _ _ isOpen _ => isOpen⟩

section Serve

variable {cfg : Config} {server : ℕ} {group : Group} {requests : ℕ → Message}

theorem Served.cons {acceptor : ℕ} {acceptors : List ℕ} {reply : Message}
    {acceptHistory : AcceptHistory} {after : Group}
    (requested : Requested cfg group acceptor server (requests acceptor))
    (handled : handleRequest acceptor (group.acceptors acceptor).acceptHistory
      (requests acceptor) = (some reply, acceptHistory))
    (served : Served cfg server requests acceptors
      (group.answered acceptor server (requests acceptor) reply acceptHistory) after) :
    Served cfg server requests (acceptor :: acceptors) group after where
  goes := (requested.goes handled).trans served.goes
  proposers := served.proposers
  queues := served.queues
  untouched := by
    intro other outside
    have different : other ≠ acceptor := fun same => outside (by simp [same])
    rw [served.untouched other fun later => outside (by simp [later])]
    simp [Group.answered, Group.receive, different]
  flight := by
    rintro ⟨target, msg⟩ flying reply'
    have isRequest := acceptorMsgTypes_not_proposer requested.kind
    refine served.flight _ (mem_answered_flight flying ?_) fun later => reply' (by simp [later])
    rintro ⟨⟩
    exact isRequest (reply' (by simp))
  sent := fun packet old => served.sent packet (List.mem_append_left _ old)
  elsewhere := fun inst here => by
    refine .trans ?_ (served.elsewhere inst fun other later => here other (by simp [later]))
    rw [← here acceptor (by simp)]
    exact elsewhere_answered handled
  openTo := by
    intro other inst number isOpen bound
    refine served.openTo other inst number ?_ fun later => bound (by simp [later])
    intro record found
    by_cases same : other = acceptor
    · subst same
      refine (handleRequest_outcome handled).openTo (bound (by simp)) isOpen ?_
      simpa [Group.answered] using found
    · exact isOpen record (by simpa [Group.answered, Group.receive, same] using found)

/-- Different acceptors answer one after the other; the answers are new. -/
theorem serve {acceptors : List ℕ} {wanted : Message → Prop} (reached : cfg.Reachable group)
    (distinct : acceptors.Nodup)
    (requested : ∀ acceptor ∈ acceptors, Requested cfg group acceptor server (requests acceptor))
    (answers : ∀ acceptor ∈ acceptors, ∃ reply acceptHistory,
      handleRequest acceptor (group.acceptors acceptor).acceptHistory (requests acceptor) =
        (some reply, acceptHistory) ∧ wanted reply) :
    ∃ (after : Group) (replies : List Message),
      Served cfg server requests acceptors group after ∧ replies.Nodup ∧
      replies.length = acceptors.length ∧ ∀ reply ∈ replies, wanted reply ∧
        (server, reply) ∈ after.flight ∧ (server, reply) ∉ group.sent := by
  induction acceptors generalizing group with
  | nil => exact ⟨group, [], .nil cfg server requests group, List.nodup_nil, rfl, by simp⟩
  | cons acceptor acceptors inductionHypothesis =>
      rcases List.nodup_cons.mp distinct with ⟨fresh, distinctRest⟩
      rcases answers acceptor (by simp) with ⟨reply, acceptHistory, handled, isWanted⟩
      have isRequested := requested acceptor (by simp)
      have different : ∀ other ∈ acceptors, other ≠ acceptor := by
        rintro other member rfl
        exact fresh member
      have reachedOn := (isRequested.goes handled).continues.reachable reached
      rcases inductionHypothesis reachedOn distinctRest
        (fun other member => (requested other (by simp [member])).later (different other member))
        (fun other member => by
          simpa [Group.answered, Group.receive, different other member] using
            answers other (by simp [member])) with
        ⟨after, replies, served, distinctReplies, length, all⟩
      have isReply := (handleRequest_outcome handled).reply_fields.1
      refine ⟨after, reply :: replies, served.cons isRequested handled, ?_, by simp [length], ?_⟩
      · refine List.nodup_cons.mpr ⟨fun member => (all reply member).2.2 ?_, distinctReplies⟩
        exact List.mem_append_right _ (List.mem_singleton_self _)
      · intro other member
        rcases List.mem_cons.mp member with rfl | later
        · refine ⟨isWanted, served.flight _ ?_ fun _ => isReply, isRequested.new reached handled⟩
          exact List.mem_append_right _ (List.mem_singleton_self _)
        · rcases all other later with ⟨otherWanted, flying, new⟩
          exact ⟨otherWanted, flying, fun old => new (List.mem_append_left _ old)⟩

end Serve

end CSE550.Paxos
