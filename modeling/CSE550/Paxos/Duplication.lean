import CSE550.Paxos.Delivery
import CSE550.Paxos.Replies

/-!
Owns the effect of duplication: every run is mirrored by a run in which no
message is pushed or delivered twice, and in which the same processes reach the
same states and the same messages are sent.

The mirroring run keeps all queues empty. A message stays in flight until its
receiver takes the first copy off its queue, so a copy that the filter discards
needs no step, and an assertion that fails on the client id of a copy is a wait
that times out.
-/

namespace CSE550.Paxos

open CSE550.Lib

/-! ### Every send is its own message -/

section Moves

variable {groupSize server : ℕ} {proposer : Proposer} {taken : Option Message}
  {result : Proposer × Output}

/-- A proposer only drops connections. -/
theorem ProposerMove.connections_sublist
    (move : ProposerMove groupSize server proposer taken result) :
    result.1.serverConnections.Sublist proposer.serverConnections := by
  cases move with
  | ready fails | accept fails => exact (sendToAcceptors_sublist fails _).2
  | acceptRaised | proposingTimeout | acceptingTimeout => exact .refl _
  | proposing address msg before after outcome =>
      cases outcome with
      | refused | unchanged | passed | exited | raised | counted => exact .refl _
      | blocked | won =>
          rcases learn_eq ((proposer.remember msg).countReply address msg) with ⟨_, _, same⟩
          rw [same]
          exact .refl _
  | accepting msg before result outcome =>
      cases outcome with
      | unchanged | passed | exited | raisedOther | counted | lost => exact .refl _
      | raisedLater later changed same => rcases same with rfl | rfl <;> exact .refl _
      | own | other =>
          rw [resolve_serverConnections]
          exact .refl _

/-- A broadcast writes to each connection once. -/
theorem ProposerMove.packets_nodup
    (move : ProposerMove groupSize server proposer taken result)
    (connections : proposer.serverConnections.Nodup) : result.2.packets.Nodup := by
  have written (fails : List ℕ) (msg : Message) :
      (((sendToAcceptors fails proposer.serverConnections).1).map fun target =>
        (target, msg)).Nodup :=
    ((sendToAcceptors_sublist fails _).1.nodup connections).map
      fun _ _ same => (Prod.mk.inj same).1
  cases move with
  | ready fails | accept fails => exact written fails _
  | acceptRaised | proposingTimeout | acceptingTimeout | proposing => exact List.nodup_nil
  | accepting msg before result outcome => cases outcome <;> exact List.nodup_nil

/-- No move forgets a signature. -/
theorem ProposerMove.history_grows
    (move : ProposerMove groupSize server proposer taken result) :
    ∀ signature ∈ proposer.msgHistory, signature ∈ result.1.msgHistory := by
  intro signature member
  have remembered (msg : Message) : signature ∈ (proposer.remember msg).msgHistory :=
    List.mem_cons_of_mem _ member
  cases move with
  | ready | accept | acceptRaised | proposingTimeout | acceptingTimeout => exact member
  | proposing address msg before after outcome =>
      cases outcome with
      | refused | unchanged | exited | raised => exact member
      | passed | counted => exact remembered msg
      | blocked | won =>
          rcases learn_eq ((proposer.remember msg).countReply address msg) with ⟨_, _, same⟩
          rw [same]
          exact remembered msg
  | accepting msg before result outcome =>
      cases outcome with
      | unchanged | exited | raisedOther => exact member
      | passed | counted | lost => exact remembered msg
      | raisedLater later changed same =>
          rcases same with rfl | rfl
          · exact member
          · exact remembered msg
      | own | other =>
          rw [resolve_msgHistory]
          exact remembered msg

end Moves

/-- No message has been sent twice to one server. -/
structure SentOnce (group : Group) : Prop where
  connections : ∀ server, (group.proposers server).serverConnections.Nodup
  sent : group.sent.Nodup

section SentOnce

variable {cfg : Config} {group next : Group} {label : Label}

theorem SentOnce.initial (cfg : Config) : SentOnce cfg.initial where
  connections := fun _ => List.nodup_range.filter _
  sent := List.nodup_nil

theorem SentOnce.keep (once : SentOnce group) (wire : Wire cfg group) (numbers : Numbers cfg group)
    (replies : Replies cfg group) (numbersNext : Numbers cfg next)
    (transition : Transition cfg group label next) : SentOnce next := by
  have changeOne {server : ℕ} {after : Proposer}
      (sublist : after.serverConnections.Sublist (group.proposers server).serverConnections)
      (other : ℕ) :
      (Function.update group.proposers server after other).serverConnections.Nodup := by
    by_cases same : other = server
    · subst same
      simpa using sublist.nodup (once.connections other)
    · simpa [same] using once.connections other
  cases transition with
  | network _ move => exact ⟨move.proposers ▸ once.connections, move.sent ▸ once.sent⟩
  | clientSend | clientRecv => exact ⟨once.connections, once.sent⟩
  | acceptClient | closeClient | recvClient | idleExit =>
      exact ⟨changeOne (.refl _), once.sent⟩
  | proposer server queue taken result runs fewer queued move =>
      refine ⟨?_, ?_⟩
      · rw [Group.commit_proposers]
        exact changeOne move.connections_sublist
      · rw [Group.commit_sent]
        refine List.nodup_append.mpr
          ⟨once.sent, move.packets_nodup (once.connections server), ?_⟩
        rintro ⟨target, msg⟩ old _ new rfl
        have among := (move.packet_cases new).1
        have request : msg.msgType ∈ acceptorMsgTypes := by
          rcases move.broadcast_cases among with ⟨_, rfl⟩ | ⟨_, rfl⟩
          · exact prepareMsg_request _ _
          · exact acceptMsg_request _ _
        have ordered := numbersNext.ordered
        rw [Group.commit_broadcasts] at ordered
        have before := (List.pairwise_append.mp ordered).2.2 msg (wire.requests _ _ old request)
          msg among rfl rfl
        exact lt_irrefl _ before
  | acceptor server request rest result runs queue turn =>
      refine ⟨once.connections, ?_⟩
      rw [Group.commitAcceptor_sent]
      cases turn with
      | duplicate | silent | ended | failed => simpa using once.sent
      | replied isRequest fresh reply after handled proposer origin connected =>
          refine List.nodup_append.mpr ⟨once.sent, List.nodup_singleton _, ?_⟩
          rintro packet old other new rfl
          have same := List.mem_singleton.mp new
          subst same
          have requestSent : (server, request) ∈ group.sent := by
            rcases wire.acceptorQueue server request (by simp [queue]) with isExit | ⟨sent, _⟩
            · simp [isExit.msgType, acceptorMsgTypes] at isRequest
            · exact sent
          exact replies.no_twin wire numbers requestSent isRequest fresh handled old
            handled.reply_fields.1 rfl rfl Iff.rfl

theorem sentOnce_reachable (reached : cfg.Reachable group) : SentOnce group :=
  reached.invariant (SentOnce.initial cfg) fun _ _ _ earlier once taken =>
    once.keep (wire_reachable earlier) (numbers_reachable earlier) (replies_reachable earlier)
      (numbers_reachable (earlier.step taken)) (transition_of_step taken)

end SentOnce

/-! ### The mirrored group -/

/-- The group with nothing on its queues and other messages in flight. -/
def Group.mirror (group : Group) (flight : List (ℕ × Message)) : Group :=
  { group with proposerQueue := fun _ => [], acceptorQueue := fun _ => [], flight }

/-- Steps that look neither at the queues nor at the messages in flight. -/
def Label.isLocal : Label → Bool
  | .acceptClient _ _ | .closeClient _ | .recvClient _ | .send _ _ | .timeout _ | .stop _
  | .clientSend _ | .clientRecv _ => true
  | _ => false

/-- A step that makes a second copy of a message. -/
def Label.duplicates : Label → Bool
  | .duplicate _ | .connection _ .dup => true
  | _ => false

section Mirror

variable {cfg : Config} {group next : Group}

theorem Group.commit_mirror (group : Group) (flight : List (ℕ × Message)) (server : ℕ)
    (result : Proposer × Output) :
    (group.mirror flight).commit server result =
      (group.commit server result).mirror (flight ++ result.2.packets) := by
  rcases result with ⟨_, output⟩
  cases output with
  | silent => simp [Group.commit, Group.emit, Group.setProposer, Group.mirror, Output.packets]
  | broadcast => rfl
  | clientAck msg =>
      simp only [Group.commit, Group.emit, Group.mirror, Output.packets, List.append_nil]
      split <;> rfl

theorem Group.mirror_receive (group : Group) (flight : List (ℕ × Message))
    (packet : ℕ × Message) :
    (group.mirror flight).receive packet = group.mirror (flight.erase packet) := rfl

/-- Taking the only message off a proposer queue empties it. -/
theorem Group.mirror_takeProposer (group : Group) (flight : List (ℕ × Message)) (server : ℕ)
    (queue : List Message) :
    ((group.mirror flight).setProposerQueue server queue).setProposerQueue server [] =
      group.mirror flight := by
  simp [Group.setProposerQueue, Group.mirror]

/-- Taking the only message off an acceptor queue empties it. -/
theorem Group.mirror_takeAcceptor (group : Group) (flight : List (ℕ × Message)) (server : ℕ)
    (queue : List Message) :
    ((group.mirror flight).setAcceptorQueue server queue).setAcceptorQueue server [] =
      group.mirror flight := by
  simp [Group.setAcceptorQueue, Group.mirror]

/-- A local step is taken by the mirrored group as well. -/
theorem Group.step_mirror {label : Label} (isLocal : label.isLocal = true)
    (taken : group.step cfg label = some next) (flight : List (ℕ × Message)) :
    ∃ packets, next.sent = group.sent ++ packets ∧
      (group.mirror flight).step cfg label = some (next.mirror (flight ++ packets)) := by
  have quiet (same : next.sent = group.sent)
      (step : (group.mirror flight).step cfg label = some (next.mirror flight)) :
      ∃ packets, next.sent = group.sent ++ packets ∧
        (group.mirror flight).step cfg label = some (next.mirror (flight ++ packets)) :=
    ⟨[], by simp [same], by simpa using step⟩
  have committed {server : ℕ} {result : Proposer × Output}
      (isNext : next = group.commit server result)
      (step : (group.mirror flight).step cfg label =
        some ((group.mirror flight).commit server result)) :
      ∃ packets, next.sent = group.sent ++ packets ∧
        (group.mirror flight).step cfg label = some (next.mirror (flight ++ packets)) :=
    ⟨result.2.packets, by simp [isNext], by rw [step, Group.commit_mirror, isNext]⟩
  cases label with
  | acceptClient server index =>
      simp only [Group.step, Option.ite_none_right_eq_some, Option.some.injEq] at taken
      rcases taken with ⟨guard, rfl⟩
      exact quiet rfl (if_pos guard)
  | closeClient server =>
      simp only [Group.step] at taken
      split at taken
      · rename_i serving
        simp only [Option.ite_none_right_eq_some, Option.some.injEq] at taken
        rcases taken with ⟨guard, rfl⟩
        refine quiet rfl ?_
        simp only [Group.step, Group.mirror, serving]
        exact if_pos guard
      · cases taken
  | recvClient server =>
      simp only [Group.step] at taken
      split at taken
      · rename_i serving
        split at taken
        · rename_i command
          simp only [Option.ite_none_right_eq_some, Option.some.injEq] at taken
          rcases taken with ⟨guard, rfl⟩
          refine quiet rfl ?_
          simp only [Group.step, Group.mirror, serving, command]
          exact if_pos guard
        · cases taken
      · cases taken
  | send server fails =>
      simp only [Group.step] at taken
      split at taken
      · rename_i runs
        split at taken
        · rename_i state
          refine committed (Option.some.inj taken).symm ?_
          simp only [Group.step, Group.mirror, state]
          exact if_pos runs
        · rename_i state
          refine committed (Option.some.inj taken).symm ?_
          simp only [Group.step, Group.mirror, state]
          exact if_pos runs
        · cases taken
      · cases taken
  | timeout server =>
      simp only [Group.step] at taken
      split at taken
      · rename_i runs
        split at taken
        · rename_i state
          refine committed (Option.some.inj taken).symm ?_
          simp only [Group.step, Group.mirror, state]
          exact if_pos runs
        · rename_i state
          refine committed (Option.some.inj taken).symm ?_
          simp only [Group.step, Group.mirror, state]
          exact if_pos runs
        · cases taken
      · cases taken
  | stop server =>
      cases taken
      exact quiet rfl rfl
  | clientSend index | clientRecv index =>
      simp only [Group.step, Option.ite_none_right_eq_some, Option.some.injEq] at taken
      rcases taken with ⟨guard, rfl⟩
      exact quiet rfl (if_pos guard)
  | _ => cases isLocal

/-! ### What a taken message changes -/

theorem Proposer.closeProposing_msgHistory (groupSize : ℕ) (proposer : Proposer) :
    (proposer.closeProposing groupSize).msgHistory = proposer.msgHistory := by
  rcases learn_eq proposer with ⟨_, _, same⟩
  unfold Proposer.closeProposing Proposer.leaveProposing
  rw [same]
  split
  · rfl
  · split <;> rfl

theorem Proposer.dispatchProposing_msgHistory (groupSize address : ℕ) (proposer : Proposer)
    (msg : Message) :
    (proposer.dispatchProposing groupSize address msg).msgHistory = proposer.msgHistory := by
  unfold Proposer.dispatchProposing
  split
  · rfl
  · split
    · exact closeProposing_msgHistory groupSize _
    · exact closeProposing_msgHistory groupSize _
    · rfl
    · rfl
    · rfl

theorem Proposer.dispatchAccepting_msgHistory (groupSize server : ℕ) (proposer : Proposer)
    (msg : Message) (clientGone : Bool) :
    (proposer.dispatchAccepting groupSize server msg clientGone).1.msgHistory =
      proposer.msgHistory := by
  unfold Proposer.dispatchAccepting
  split
  · split <;> rfl
  · split
    · split
      · dsimp only
        split
        · rfl
        · unfold Proposer.leaveAccepting
          split
          · split
            · rfl
            · split
              · rfl
              · exact resolve_msgHistory _ msg
          · exact resolve_msgHistory _ msg
      · rfl
    · rfl
    · rfl
    · rfl
    · rfl

/-- A message taken off the queue changes nothing, counts as a timeout, or is a
reply that is now in the history and was not before. -/
theorem Takes.effect {groupSize server address : ℕ} {clientGone : Bool} {proposer : Proposer}
    {msg : Message} {result : Proposer × Output}
    (takes : Takes groupSize server address clientGone proposer msg result)
    (kind : IsExit msg ∨ msg.msgType ∈ proposerMsgTypes) :
    result = (proposer, .silent) ∨
      (proposer.state = .PROPOSING ∧ result = (proposer.abandon groupSize, .silent)) ∨
      (msg.msgType ∈ proposerMsgTypes ∧ msg.signature ∉ proposer.msgHistory ∧
        msg.signature ∈ result.1.msgHistory) := by
  cases takes with
  | proposing state =>
      by_cases missing : msg.clientId = none
      · refine .inr (.inl ⟨state, ?_⟩)
        simp only [Proposer.proposing, missing, if_true]
      · simp only [Proposer.proposing, missing, if_false]
        rcases kind with ⟨clientId, rfl⟩ | reply
        · left
          simp [ifDup, exitMessage, proposerMsgTypes, Proposer.dispatchProposing]
        · by_cases seen : msg.signature ∈ proposer.msgHistory
          · left
            simp [ifDup, reply, seen]
          · refine .inr (.inr ⟨reply, seen, ?_⟩)
            simp [ifDup, reply, seen, Proposer.dispatchProposing_msgHistory]
  | accepting state =>
      unfold Proposer.accepting
      rcases kind with ⟨clientId, rfl⟩ | reply
      · left
        simp [ifDup, exitMessage, proposerMsgTypes, Proposer.dispatchAccepting]
      · by_cases seen : msg.signature ∈ proposer.msgHistory
        · left
          simp [ifDup, reply, seen]
        · refine .inr (.inr ⟨reply, seen, ?_⟩)
          simp [ifDup, reply, seen, Proposer.dispatchAccepting_msgHistory]

theorem Acceptor.process_duplicate {serverId : ℕ} {acceptor : Acceptor} {msg : Message}
    (delivered : Bool) (request : msg.msgType ∈ acceptorMsgTypes)
    (seen : msg.signature ∈ acceptor.msgHistory) :
    acceptor.process serverId msg delivered = (acceptor, none) := by
  simp [Acceptor.process, request, seen]

theorem Acceptor.process_remembers {serverId : ℕ} {acceptor : Acceptor} {msg : Message}
    (delivered : Bool) (request : msg.msgType ∈ acceptorMsgTypes) :
    msg.signature ∈ (acceptor.process serverId msg delivered).1.msgHistory := by
  have outcome := process_outcome serverId acceptor msg delivered
  generalize acceptor.process serverId msg delivered = result at outcome ⊢
  cases outcome with
  | duplicate _ seen => exact seen
  | silent | replied | failed => exact List.mem_cons_self
  | ended _ other => exact absurd request other

/-! ### The simulation -/

/-- A message sent to the server of which no copy has been taken off a queue. -/
def Awaited (group : Group) (server : ℕ) (msg : Message) : Prop :=
  (server, msg) ∈ group.sent ∧
    ((msg.msgType ∈ proposerMsgTypes ∧
        msg.signature ∉ (group.proposers server).msgHistory) ∨
      (msg.msgType ∈ acceptorMsgTypes ∧
        msg.signature ∉ (group.acceptors server).msgHistory))

/-- The image differs in its queues and in its messages in flight only, and
every awaited message is in flight. -/
def Mirrors (group image : Group) : Prop :=
  ∃ flight, image = group.mirror flight ∧
    ∀ server msg, Awaited group server msg → (server, msg) ∈ flight

theorem Transition.histories_grow {label : Label} (transition : Transition cfg group label next)
    (server : ℕ) (signature : Signature) :
    (signature ∈ (group.proposers server).msgHistory →
        signature ∈ (next.proposers server).msgHistory) ∧
      (signature ∈ (group.acceptors server).msgHistory →
        signature ∈ (next.acceptors server).msgHistory) := by
  have proposerOnly {other : ℕ} {after : Proposer}
      (grows : ∀ kept ∈ (group.proposers other).msgHistory, kept ∈ after.msgHistory)
      (old : signature ∈ (group.proposers server).msgHistory) :
      signature ∈ (Function.update group.proposers other after server).msgHistory := by
    by_cases same : server = other
    · subst same
      simpa using grows signature old
    · simpa [same] using old
  cases transition with
  | network _ move => rw [move.proposers, move.acceptors]; exact ⟨id, id⟩
  | clientSend | clientRecv => exact ⟨id, id⟩
  | acceptClient | closeClient | recvClient | idleExit =>
      exact ⟨proposerOnly fun _ member => member, id⟩
  | proposer other queue taken result runs fewer queued move =>
      rw [Group.commit_proposers, Group.commit_acceptors]
      exact ⟨proposerOnly move.history_grows, id⟩
  | acceptor other request rest result runs queue turn =>
      refine ⟨id, fun old => ?_⟩
      rw [Group.commitAcceptor_acceptors]
      by_cases same : server = other
      · subst same
        rw [Function.update_self]
        cases turn with
        | duplicate | ended => exact old
        | silent | replied | failed => exact List.mem_cons_of_mem _ old
      · rwa [Function.update_of_ne same]

/-- A message awaited after a step was awaited before or is sent by the step. -/
theorem Awaited.before {label : Label} {server : ℕ} {msg : Message}
    {packets : List (ℕ × Message)} (awaited : Awaited next server msg)
    (transition : Transition cfg group label next) (sent : next.sent = group.sent ++ packets) :
    Awaited group server msg ∨ (server, msg) ∈ packets := by
  rcases awaited with ⟨member, unseen⟩
  rcases List.mem_append.mp (sent ▸ member) with old | new
  · have grow := transition.histories_grow server msg.signature
    refine .inl ⟨old, unseen.imp ?_ ?_⟩
    · exact fun ⟨kind, fresh⟩ => ⟨kind, fun seen => fresh (grow.1 seen)⟩
    · exact fun ⟨kind, fresh⟩ => ⟨kind, fun seen => fresh (grow.2 seen)⟩
  · exact .inr new

/-- Without a second copy of a message, the image comes to mirror the next group. -/
def Followed (cfg : Config) (image next : Group) : Prop :=
  ∃ final, cfg.machine.Leads (·.duplicates = false) image final ∧ Mirrors next final

/-- The image needs no step where nothing but queues and flight changes. -/
theorem Mirrors.stutter {label : Label} {image : Group} (mirrors : Mirrors group image)
    (transition : Transition cfg group label next) (sent : next.sent = group.sent)
    (same : ∀ flight, next.mirror flight = group.mirror flight) : Followed cfg image next := by
  rcases mirrors with ⟨flight, rfl, covers⟩
  refine ⟨_, .refl _, flight, (same flight).symm, fun server msg awaited => ?_⟩
  rcases awaited.before transition (sent.trans (List.append_nil _).symm) with old | new
  · exact covers server msg old
  · cases new

/-- The image comes to the next group, with other messages in flight. -/
theorem Followed.of_leads {label : Label} {flight kept packets : List (ℕ × Message)}
    (covers : ∀ server msg, Awaited group server msg → (server, msg) ∈ flight)
    (transition : Transition cfg group label next) (sent : next.sent = group.sent ++ packets)
    (leads : cfg.machine.Leads (·.duplicates = false) (group.mirror flight)
      (next.mirror (kept ++ packets)))
    (keeps : ∀ server msg, Awaited next server msg → (server, msg) ∈ flight →
      (server, msg) ∈ kept) : Followed cfg (group.mirror flight) next := by
  refine ⟨_, leads, _, rfl, fun server msg awaited => ?_⟩
  rcases awaited.before transition sent with old | new
  · exact List.mem_append_left _ (keeps server msg awaited (covers server msg old))
  · exact List.mem_append_right _ new

/-- The image comes to the next group without sending anything. -/
theorem Followed.of_quiet {label : Label} {flight : List (ℕ × Message)}
    (covers : ∀ server msg, Awaited group server msg → (server, msg) ∈ flight)
    (transition : Transition cfg group label next) (sent : next.sent = group.sent)
    (leads : cfg.machine.Leads (·.duplicates = false) (group.mirror flight)
      (next.mirror flight)) : Followed cfg (group.mirror flight) next := by
  rw [← List.append_nil group.sent] at sent
  refine .of_leads covers transition sent ?_ fun _ _ _ member => member
  rwa [List.append_nil]

/-- A taken message is not awaited any more, and all others stay in flight. -/
theorem mem_erase_of_awaited {flight : List (ℕ × Message)} {server other : ℕ}
    {msg awaited : Message} (taken : ¬ Awaited next server msg)
    (waits : Awaited next other awaited) (member : (other, awaited) ∈ flight) :
    (other, awaited) ∈ flight.erase (server, msg) := by
  refine (List.mem_erase_of_ne fun same => ?_).mpr member
  rcases Prod.mk.inj same with ⟨rfl, rfl⟩
  exact taken waits

theorem not_awaited_reply {server : ℕ} {msg : Message} (kind : msg.msgType ∈ proposerMsgTypes)
    (seen : msg.signature ∈ (group.proposers server).msgHistory) : ¬ Awaited group server msg := by
  rintro ⟨_, ⟨_, fresh⟩ | ⟨request, _⟩⟩
  · exact fresh seen
  · exact acceptorMsgTypes_not_proposer request kind

theorem not_awaited_request {server : ℕ} {msg : Message} (kind : msg.msgType ∈ acceptorMsgTypes)
    (seen : msg.signature ∈ (group.acceptors server).msgHistory) : ¬ Awaited group server msg := by
  rintro ⟨_, ⟨reply, _⟩ | ⟨_, fresh⟩⟩
  · exact acceptorMsgTypes_not_proposer kind reply
  · exact fresh seen

/-- The image of a proposer taking a message off its queue. -/
theorem Mirrors.get {image : Group} {server address : ℕ} {clientGone : Bool}
    (mirrors : Mirrors group image) (wire : Wire cfg group)
    (taken : group.step cfg (.get server address clientGone) = some next) :
    Followed cfg image next := by
  have transition := transition_of_step taken
  rcases Group.step_get_iff.mp taken with ⟨msg, rest, result, queue, runs, takes, rfl⟩
  have known : IsExit msg ∨ (server, msg) ∈ group.sent ∧ msg.msgType ∈ proposerMsgTypes :=
    wire.proposerQueue server msg (by simp [queue])
  rcases takes.effect (known.imp_right And.right) with rfl | ⟨state, rfl⟩ | ⟨kind, fresh, seen⟩
  · refine mirrors.stutter transition rfl fun flight => ?_
    simp [Group.commit, Group.emit, Group.mirror]
  · rcases mirrors with ⟨flight, rfl, covers⟩
    have step : cfg.machine.step (group.mirror flight) (.timeout server) =
        some ((group.mirror flight).commit server
          ((group.proposers server).abandon cfg.groupSize, .silent)) := by
      simp only [Config.machine, Group.step, Group.mirror, state]
      exact if_pos runs
    rw [Group.commit_mirror, show flight ++ Output.packets _ = flight from List.append_nil _]
      at step
    exact .of_quiet covers transition rfl (.step step rfl)
  · rcases mirrors with ⟨flight, rfl, covers⟩
    have sent := (known.resolve_left fun isExit => by
      simp [isExit.msgType, proposerMsgTypes] at kind).1
    have leads : cfg.machine.Leads (·.duplicates = false) (group.mirror flight)
        ((((group.setProposerQueue server rest).mirror flight).receive (server, msg)).commit server
          result) :=
      Group.leads_reply (fun _ => rfl) rfl (covers server msg ⟨sent, .inl ⟨kind, fresh⟩⟩) kind rfl
        runs takes
    rw [Group.mirror_receive, Group.commit_mirror] at leads
    refine .of_leads covers transition (Group.commit_sent ..) leads ?_
    refine fun other waiting awaited => mem_erase_of_awaited ?_ awaited
    exact not_awaited_reply kind (by simpa using seen)

/-- The image of an acceptor taking a message off its queue. -/
theorem Mirrors.acceptor {image : Group} {server : ℕ} {delivered : Bool}
    (mirrors : Mirrors group image) (wire : Wire cfg group)
    (taken : group.step cfg (.acceptor server delivered) = some next) :
    Followed cfg image next := by
  have transition := transition_of_step taken
  rcases Group.step_acceptor_iff.mp taken with ⟨msg, rest, queue, runs, rfl⟩
  rcases mirrors with ⟨flight, rfl, covers⟩
  rcases wire.acceptorQueue server msg (by simp [queue]) with ⟨clientId, rfl⟩ | ⟨sent, kind⟩
  · have inject : cfg.machine.step (group.mirror flight) (.exitAcceptor server clientId) =
        some ((group.mirror flight).setAcceptorQueue server [exitMessage clientId]) := rfl
    have turn : cfg.machine.step
        ((group.mirror flight).setAcceptorQueue server [exitMessage clientId])
        (.acceptor server delivered) = some _ :=
      Group.step_acceptor_iff.mpr ⟨exitMessage clientId, [], Function.update_self .., runs, rfl⟩
    rw [Group.mirror_takeAcceptor] at turn
    have leads : cfg.machine.Leads (·.duplicates = false) (group.mirror flight) _ :=
      .trans (.step inject rfl) (.step turn rfl)
    exact .of_leads covers transition rfl leads fun _ _ _ member => member
  · by_cases seen : msg.signature ∈ (group.acceptors server).msgHistory
    · rw [Acceptor.process_duplicate delivered kind seen] at transition ⊢
      refine Mirrors.stutter ⟨flight, rfl, covers⟩ transition (List.append_nil _) fun flight => ?_
      simp [Group.mirror]
    · have leads : cfg.machine.Leads (·.duplicates = false) (group.mirror flight) _ :=
        Group.leads_request delivered (fun _ => rfl) rfl
          (covers server msg ⟨sent, .inr ⟨kind, seen⟩⟩) kind rfl runs
      refine .of_leads covers transition rfl leads ?_
      refine fun other waiting awaited => mem_erase_of_awaited ?_ awaited
      exact not_awaited_request kind (by simpa using Acceptor.process_remembers delivered kind)

theorem Group.step_idleExit {server : ℕ} {msg : Message} {rest : List Message}
    (guard : group.proposerRuns cfg server ∧ (group.proposers server).state = .IDLE ∧
      (group.proposers server).client = none)
    (queue : group.proposerQueue server = msg :: rest) (exits : msg.msgType = .EXIT) :
    cfg.machine.step group (.idleGet server) =
      some ((group.setProposerQueue server rest).setProposer server
        { group.proposers server with status := .exited, done := true }) := by
  simp only [Config.machine, Group.step, queue]
  rw [if_pos guard, if_pos exits]

/-- The image of a proposer without a client looking at its queue. -/
theorem Mirrors.idleGet {image : Group} {server : ℕ} (mirrors : Mirrors group image)
    (wire : Wire cfg group) (taken : group.step cfg (.idleGet server) = some next) :
    Followed cfg image next := by
  have transition := transition_of_step taken
  simp only [Group.step] at taken
  split at taken
  · rename_i msg rest queue
    split at taken
    · rename_i guard
      split at taken
      · rename_i exits
        cases taken
        rcases wire.proposerQueue server msg (by simp [queue]) with ⟨clientId, rfl⟩ | ⟨_, kind⟩
        · rcases mirrors with ⟨flight, rfl, covers⟩
          have inject : cfg.machine.step (group.mirror flight) (.exitProposer server clientId) =
              some ((group.mirror flight).setProposerQueue server [exitMessage clientId]) := rfl
          have leave : cfg.machine.step
              ((group.mirror flight).setProposerQueue server [exitMessage clientId])
              (.idleGet server) = some ((((group.mirror flight).setProposerQueue server
                [exitMessage clientId]).setProposerQueue server []).setProposer server
                  { group.proposers server with status := .exited, done := true }) :=
            Group.step_idleExit guard (Function.update_self ..) rfl
          rw [Group.mirror_takeProposer] at leave
          have leads : cfg.machine.Leads (·.duplicates = false) (group.mirror flight) _ :=
            .trans (.step inject rfl) (.step leave rfl)
          exact .of_quiet covers transition rfl leads
        · simp [exits, proposerMsgTypes] at kind
      · cases taken
        exact mirrors.stutter transition rfl fun _ => rfl
    · cases taken
  · cases taken

/-- Every step has its image. -/
theorem Mirrors.matched {label : Label} {image : Group} (mirrors : Mirrors group image)
    (wire : Wire cfg group) (taken : group.step cfg label = some next) :
    Followed cfg image next := by
  have transition := transition_of_step taken
  by_cases isLocal : label.isLocal = true
  · rcases mirrors with ⟨flight, rfl, covers⟩
    rcases Group.step_mirror isLocal taken flight with ⟨packets, sent, step⟩
    have imageStep : cfg.machine.step (group.mirror flight) label = some _ := step
    have single : label.duplicates = false := by
      cases label <;> simp_all [Label.isLocal, Label.duplicates]
    exact .of_leads covers transition sent (.step imageStep single) fun _ _ _ member => member
  · cases label with
    | get server address clientGone => exact mirrors.get wire taken
    | acceptor server delivered => exact mirrors.acceptor wire taken
    | idleGet server => exact mirrors.idleGet wire taken
    | connection index dice =>
        simp only [Group.step] at taken
        split at taken
        · simp only [Option.ite_none_right_eq_some, Option.some.injEq] at taken
          rcases taken with ⟨_, rfl⟩
          exact mirrors.stutter transition rfl fun _ => rfl
        · cases taken
    | lose index =>
        simp only [Group.step, Option.ite_none_right_eq_some, Option.some.injEq] at taken
        rcases taken with ⟨_, rfl⟩
        exact mirrors.stutter transition rfl fun _ => rfl
    | duplicate index =>
        simp only [Group.step] at taken
        split at taken
        · cases taken
          exact mirrors.stutter transition rfl fun _ => rfl
        · cases taken
    | exitProposer server clientId | exitAcceptor server clientId =>
        cases taken
        exact mirrors.stutter transition rfl fun _ => rfl
    | _ => simp [Label.isLocal] at isLocal

/-- What a run leaves behind, apart from queues and messages in flight. -/
structure SameOutcome (group image : Group) : Prop where
  acceptHistory : ∀ server,
    (image.acceptors server).acceptHistory = (group.acceptors server).acceptHistory
  inst : ∀ server, (image.proposers server).inst = (group.proposers server).inst
  proposerNum : ∀ server,
    (image.proposers server).proposerNum = (group.proposers server).proposerNum
  instanceResolutions : ∀ server, (image.proposers server).instanceResolutions =
    (group.proposers server).instanceResolutions
  lockSet : ∀ server, (image.proposers server).lockSet = (group.proposers server).lockSet
  sent : image.sent = group.sent
  clients : image.clients = group.clients

/-- What the filters rely on: all sends to one server differ in their signatures,
so a message that is discarded was sent once and has been taken before. -/
structure FiltersExact (group : Group) : Prop where
  signatures : (group.sent.map fun packet => (packet.1, packet.2.signature)).Nodup
  proposers : ∀ server, ∀ msg ∈ group.proposerQueue server, msg.msgType ∈ proposerMsgTypes →
    msg.signature ∈ (group.proposers server).msgHistory → group.sent.count (server, msg) = 1
  acceptors : ∀ server, ∀ msg ∈ group.acceptorQueue server, msg.msgType ∈ acceptorMsgTypes →
    msg.signature ∈ (group.acceptors server).msgHistory → group.sent.count (server, msg) = 1

theorem filtersExact_reachable (reached : cfg.Reachable group) : FiltersExact group := by
  have once := (sentOnce_reachable reached).sent
  have wire := wire_reachable reached
  refine ⟨once.map fun left right same => ?_, ?_, ?_⟩
  · rcases Prod.mk.inj same with ⟨server, signature⟩
    exact Prod.ext server (Message.signature_injective signature)
  · intro server msg member kind _
    refine List.count_eq_one_of_mem once ?_
    rcases wire.proposerQueue server msg member with isExit | ⟨sent, _⟩
    · simp [isExit.msgType, proposerMsgTypes] at kind
    · exact sent
  · intro server msg member kind _
    refine List.count_eq_one_of_mem once ?_
    rcases wire.acceptorQueue server msg member with isExit | ⟨sent, _⟩
    · simp [isExit.msgType, acceptorMsgTypes] at kind
    · exact sent

/-- For every run there is one without any duplication that has the same
outcome, and the filters discard nothing but duplicates. -/
theorem duplication_harmless {labels : List Label} (run : cfg.machine.Run labels group) :
    (∃ images image, cfg.machine.Run images image ∧
      (∀ used ∈ images, used.duplicates = false) ∧ SameOutcome group image) ∧
      FiltersExact group := by
  refine ⟨?_, filtersExact_reachable ⟨labels, run⟩⟩
  have start : Mirrors cfg.machine.init cfg.machine.init :=
    ⟨[], rfl, fun _ _ awaited => awaited.1⟩
  rcases Machine.Run.simulate start
    (fun _ _ _ _ reached _ mirrors taken => mirrors.matched (wire_reachable reached) taken) run
    with ⟨images, _, imageRun, single, flight, rfl, _⟩
  exact ⟨images, _, imageRun, single, fun _ => rfl, fun _ => rfl, fun _ => rfl, fun _ => rfl,
    fun _ => rfl, rfl, rfl⟩

end Mirror

/-- Server 0 wins a round in which requests and replies are pushed twice. -/
def duplicatedRun : List Label :=
  [.acceptClient 0 0, .clientSend 0, .recvClient 0, .send 0 [], .connection 0 .dup,
    .connection 0 .dup, .acceptor 1 true, .acceptor 1 true, .acceptor 2 true, .connection 0 .dup,
    .connection 0 .keep, .get 0 0 false, .get 0 1 false, .get 0 2 false, .send 0 []]

theorem duplication_harmless_dup :
    ((oneLock.after duplicatedRun).proposers 0).state = .ACCEPTING ∧
      (∃ images image, oneLock.machine.Run images image ∧
        (∀ used ∈ images, used.duplicates = false) ∧
        SameOutcome (oneLock.after duplicatedRun) image) ∧
      FiltersExact (oneLock.after duplicatedRun) :=
  ⟨by decide, duplication_harmless (Config.run_after (by decide))⟩

end CSE550.Paxos
