import CSE550.Paxos.Climbing

/-!
Owns what a crash of some servers leaves possible: the states from which a
proposer with a client command can still resolve its instance, alone or with the
help of others, and a state in which two crashes out of five keep a proposer from
ever resolving it.

A proposer contacts the acceptors of the other servers only and waits for more
than `group_size() / 2` of them; an acceptor that has promised an instance
without accepting a value answers later PREPAREs without a client id, which
ends the round of whoever receives the answer.
-/

namespace CSE550.Paxos

open CSE550.Lib

/-! ### Messages under way -/

/-- Progress in which no proposer sends a request. -/
def Label.isQuiet : Label → Bool
  | .send _ _ => false
  | label => label.isProgress

/-- A continuation in which messages that are under way are handled, and the server
keeps its task. -/
structure Settles (cfg : Config) (server : ℕ) (before after : Group) : Prop where
  leads : cfg.machine.Leads (·.isQuiet = true) before after
  task : SameTask (before.proposers server) (after.proposers server)

theorem Settles.refl (cfg : Config) (server : ℕ) (group : Group) :
    Settles cfg server group group := ⟨.refl _, .refl _⟩

theorem Settles.continues {cfg : Config} {server : ℕ} {before after : Group}
    (settles : Settles cfg server before after) : cfg.Continues before after := by
  rcases settles.leads with ⟨labels, run, quiet⟩
  refine ⟨labels, run, fun label used => ?_⟩
  have isQuiet := quiet label used
  cases label with
  | send => cases isQuiet
  | _ => exact isQuiet

/-- No server stops in a step of progress. -/
theorem Group.step_stopped {cfg : Config} {group next : Group} {label : Label}
    (taken : group.step cfg label = some next) (progress : label.isProgress = true) :
    next.stopped = group.stopped := by
  cases label with
  | closeClient | idleGet | lose | duplicate | stop | exitProposer | exitAcceptor | clientSend
  | clientRecv => cases progress
  | acceptClient | recvClient | send | get | timeout | acceptor | connection =>
      simp only [Group.step] at taken
      repeat' split at taken
      all_goals cases taken
      all_goals
        simp [Group.setProposer, Group.setClient, Group.setProposerQueue, Group.setAcceptorQueue,
          Group.commitAcceptor, Group.transmit]

theorem Busy.settled {cfg : Config} {server : ℕ} {before after : Group}
    (busy : Busy cfg server before) (settles : Settles cfg server before after) :
    Busy cfg server after := by
  have continues := settles.continues
  have stopped : after.stopped = before.stopped :=
    @Machine.Leads.keeps _ _ _ _ _ _ (fun state => state.stopped = before.stopped) continues rfl
      fun _ _ _ progress same taken => (Group.step_stopped taken progress).trans same
  rcases busy.runs with ⟨known, up, running⟩
  refine ⟨continues.reachable busy.reached, ⟨known, ?_, ?_⟩, settles.task.busy busy.busy⟩
  · rw [stopped, up]
  · rw [settles.task.status, running]

/-! ### Where a value can be accepted -/

/-- A proposer at the server's instance that can reach the acceptor. -/
structure Helps (cfg : Config) (group : Group) (server acceptor helper : ℕ) : Prop where
  busy : Busy cfg helper group
  inst : (group.proposers helper).inst = (group.proposers server).inst
  available : Available cfg helper group acceptor

/-- The acceptor has accepted a value for the server's instance, or some proposer that
is there or can come there can bring it to accept one. -/
inductive CanAccept (cfg : Config) (group : Group) (server : ℕ) : ℕ → Prop
  | accepted (acceptor : ℕ) (has : HasAccepted group acceptor (group.proposers server).inst) :
      CanAccept cfg group server acceptor
  | inFlight (acceptor origin : ℕ) (request : Message)
      (requested : Requested cfg group acceptor origin request)
      (isAccept : request.msgType = .ACCEPT) (here : request.inst = (group.proposers server).inst)
      (isOpen : OpenTo group acceptor request.inst request.proposal) :
      CanAccept cfg group server acceptor
  | propose (acceptor helper : ℕ) (helps : Helps cfg group server acceptor helper)
      (accept : (group.proposers helper).state = .ACCEPT)
      (isOpen : OpenTo group acceptor (group.proposers server).inst
        (group.proposers helper).proposerNum) : CanAccept cfg group server acceptor
  | round (acceptor helper : ℕ) (helps : Helps cfg group server acceptor helper)
      (canWin : CanWin cfg group helper)
      (isOpen : OpenTo group acceptor (group.proposers server).inst
        (group.proposers helper).proposerNum) : CanAccept cfg group server acceptor
  | restart (acceptor helper : ℕ) (helps : Helps cfg group server acceptor helper)
      (canStart : CanStart cfg group helper) : CanAccept cfg group server acceptor
  | climb (acceptor helper : ℕ) (entry : Entry) (climbs : Climbs cfg group server helper entry)
      (unblocked : ¬ (entry.1.commandType = .LOCK ∧
        entry.1.resourceId ∈ (group.proposers server).lockSet))
      (grants : Majority cfg.acceptorIds fun other => Available cfg helper group other ∧
        Unseen group other (group.proposers server).inst)
      (available : Available cfg helper group acceptor) : CanAccept cfg group server acceptor
  | learn (acceptor helper source : ℕ) (entry : Entry)
      (climbs : Climbs cfg group server helper entry)
      (available : Available cfg helper group acceptor)
      (reaches : Available cfg helper group source) (known : CanAccept cfg group server source) :
      CanAccept cfg group server acceptor

section Accept

variable {cfg : Config} {group : Group} {server acceptor helper : ℕ}

/-- A round that can be won places a value with an acceptor that is open to it. -/
theorem Busy.placeRound (busy : Busy cfg helper group) (canWin : CanWin cfg group helper)
    (available : Available cfg helper group acceptor)
    (isOpen : OpenTo group acceptor (group.proposers helper).inst
      (group.proposers helper).proposerNum) :
    ∃ after, Goes cfg group after ∧
      HasAccepted after acceptor (group.proposers helper).inst := by
  rcases busy.win canWin with ⟨middle, goes, accept, stays⟩
  rcases (busy.go goes).place accept (available.go goes.carries) (stays acceptor isOpen) with
    ⟨after, goesOn, has⟩
  rw [(goes.carries.task helper).inst] at has
  exact ⟨after, goes.trans goesOn, has⟩

/-- So does a new round, with a number above the acceptor's promises. -/
theorem Busy.placeStart (busy : Busy cfg helper group) (canStart : CanStart cfg group helper)
    (available : Available cfg helper group acceptor) :
    ∃ after, Goes cfg group after ∧
      HasAccepted after acceptor (group.proposers helper).inst := by
  rcases exists_open group (group.proposers helper).inst [acceptor] with ⟨bound, isOpen⟩
  rcases busy.start canStart bound with ⟨first, starts, acceptors, above, canWin⟩
  have inst := (starts.carries.task helper).inst
  have openFirst : OpenTo first acceptor (first.proposers helper).inst
      (first.proposers helper).proposerNum := by
    rw [inst]
    refine ((isOpen acceptor (by simp)).mono ?_).of_same (by rw [acceptors])
    exact WithBot.coe_le_coe.mpr above.le
  rcases (busy.go starts).placeRound canWin (available.go starts.carries) openFirst with
    ⟨after, goesOn, has⟩
  rw [inst] at has
  exact ⟨after, starts.trans goesOn, has⟩

/-- And a value that another acceptor has accepted. -/
theorem Busy.placeLearnt {source : ℕ} (busy : Busy cfg helper group)
    (reaches : Available cfg helper group source)
    (known : HasAccepted group source (group.proposers helper).inst)
    (available : Available cfg helper group acceptor) :
    ∃ after, Goes cfg group after ∧
      HasAccepted after acceptor (group.proposers helper).inst := by
  rcases busy.relearn reaches known [acceptor] with ⟨middle, learns, _, accept, isOpen⟩
  rcases (busy.go learns).place accept (available.go learns.carries) (isOpen acceptor (by simp))
    with ⟨after, goesOn, has⟩
  rw [(learns.carries.task helper).inst] at has
  exact ⟨after, learns.trans goesOn, has⟩

/-- Two servers at one instance hold the same locks. -/
theorem lockSet_eq (reached : cfg.Reachable group)
    (same : (group.proposers helper).inst = (group.proposers server).inst) :
    (group.proposers helper).lockSet = (group.proposers server).lockSet := by
  rcases refines_reachable reached with ⟨ledger, _, refines⟩
  have own := (refines.replicas helper).lockSet
  rw [same] at own
  exact Option.some.inj (own.symm.trans (refines.replicas server).lockSet)

/-- An unblocked proposer can start a round that a majority grants. -/
theorem canStart_of_grants
    (unblocked : ¬ ((group.proposers helper).clientCommand.commandType = .LOCK ∧
      (group.proposers helper).clientCommand.resourceId ∈ (group.proposers helper).lockSet))
    (grants : Majority cfg.acceptorIds fun other => Available cfg helper group other ∧
      Unseen group other (group.proposers helper).inst) : CanStart cfg group helper := by
  rcases grants with ⟨chosen, _, enough, all⟩
  rw [Finset.card_range] at enough
  exact .intro (group.proposerQueue helper) [] (List.append_nil _).symm
    ⟨[], [], chosen.toList, .onQueue [] List.prefix_rfl, by simp,
      .free fun blocked => unblocked blocked.2, List.nodup_nil, by simp,
      chosen.nodup_toList, fun _ => List.prefix_rfl,
      fun other member => .inl (all other (Finset.mem_toList.mp member)),
      by simp [Proposer.afterRounds]; omega⟩

theorem Busy.advance {before after : Group} (busy : Busy cfg server before)
    (advances : Advances cfg server before after) : Busy cfg server after := by
  rcases busy.runs with ⟨known, up, running⟩
  refine ⟨advances.continues.reachable busy.reached, ⟨known, ?_, ?_⟩,
    advances.task.busy busy.busy⟩
  · rw [advances.links.stopped, up]
  · rw [advances.task.status, running]

/-- An acceptor that can accept a value does so in some continuation. -/
theorem CanAccept.accepts (canAccept : CanAccept cfg group server acceptor)
    (busy : Busy cfg server group) :
    ∃ after, Advances cfg server group after ∧
      HasAccepted after acceptor (group.proposers server).inst := by
  induction canAccept with
  | accepted acceptor has => exact ⟨group, .refl _ _ _, has⟩
  | inFlight acceptor origin request requested isAccept here isOpen =>
      rcases requested.accepts busy.reached isAccept isOpen with ⟨after, goes, _, has⟩
      exact ⟨after, goes.advances busy.reached server, here ▸ has⟩
  | propose acceptor helper helps accept isOpen =>
      rw [← helps.inst] at isOpen ⊢
      rcases helps.busy.place accept helps.available isOpen with ⟨after, goes, has⟩
      exact ⟨after, goes.advances busy.reached server, has⟩
  | round acceptor helper helps canWin isOpen =>
      rw [← helps.inst] at isOpen ⊢
      rcases helps.busy.placeRound canWin helps.available isOpen with ⟨after, goes, has⟩
      exact ⟨after, goes.advances busy.reached server, has⟩
  | restart acceptor helper helps canStart =>
      rw [← helps.inst]
      rcases helps.busy.placeStart canStart helps.available with ⟨after, goes, has⟩
      exact ⟨after, goes.advances busy.reached server, has⟩
  | climb acceptor helper entry climbs unblocked grants available =>
      rcases climbs.comes busy with ⟨middle, comes⟩
      have task := comes.advances.task
      have canStart : CanStart cfg middle helper := by
        refine canStart_of_grants ?_ (grants.mono fun other _ granted => ⟨granted.1.stays
          comes.advances.links, ?_⟩)
        · obtain rfl := comes.own
          rw [lockSet_eq comes.busy.reached comes.inst, task.lockSet]
          exact unblocked
        · unfold Unseen
          rw [comes.inst, comes.records, task.inst]
          exact granted.2
      rcases comes.busy.placeStart canStart (available.stays comes.advances.links) with
        ⟨after, goes, has⟩
      rw [comes.inst, task.inst] at has
      exact ⟨after, comes.advances.trans (goes.advances comes.busy.reached server), has⟩
  | learn acceptor helper source entry climbs available reaches known inductionHypothesis =>
      rcases inductionHypothesis with ⟨first, advances, has⟩
      have busyFirst := busy.advance advances
      rcases advances.climbs helper ⟨entry, climbs⟩ with ⟨other, climbsOn⟩
      rcases climbsOn.comes busyFirst with ⟨middle, comes⟩
      have links := advances.links.trans comes.advances.links
      have inst : (middle.proposers helper).inst = (group.proposers server).inst := by
        rw [comes.inst, comes.advances.task.inst, advances.task.inst]
      have hasOn := has.continues busyFirst.reached comes.advances.continues
      rw [← inst] at hasOn
      rcases comes.busy.placeLearnt (reaches.stays links) hasOn (available.stays links) with
        ⟨after, goes, hasLast⟩
      rw [inst] at hasLast
      exact ⟨after, (advances.trans comes.advances).trans
        (goes.advances comes.busy.reached server), hasLast⟩

end Accept

/-- Either the server can still count a majority of acknowledgements, or it has a
majority of available acceptors, one of which can accept a value. -/
inductive CanResolve (cfg : Config) (group : Group) (server : ℕ) : Prop
  | finish (canFinish : CanFinish cfg group server)
  | quorum (majority : Majority cfg.acceptorIds (Available cfg server group)) (acceptor : ℕ)
      (available : Available cfg server group acceptor)
      (canAccept : CanAccept cfg group server acceptor)

/-- Where the condition fails, the available acceptors are no majority, or one of them
has promised the instance without accepting a value. -/
theorem defect_of_not_canResolve {cfg : Config} {group : Group} {server : ℕ}
    (pursues : Pursues cfg server group) (fails : ¬ CanResolve cfg group server) :
    ¬ Majority cfg.acceptorIds (Available cfg server group) ∨
      ∃ acceptor record, Available cfg server group acceptor ∧
        (group.acceptors acceptor).acceptHistory.lookup
          ((group.proposers server).inst : WithBot ℕ) = some record ∧
        record.accp = noNumber := by
  by_contra sound
  rcases not_or.mp sound with ⟨fewer, settled⟩
  have majority := not_not.mp fewer
  have grants : Majority cfg.acceptorIds fun acceptor => Available cfg server group acceptor ∧
      Unseen group acceptor (group.proposers server).inst := by
    refine majority.mono fun acceptor _ available => ⟨available, ?_⟩
    by_contra known
    rcases Option.ne_none_iff_exists'.mp known with ⟨record, found⟩
    by_cases nothing : record.accp = noNumber
    · exact settled ⟨acceptor, record, available, found, nothing⟩
    · exact fails (.quorum majority acceptor available (.accepted acceptor
        ⟨record, found, nothing⟩))
  have canStart := canStart_of_grants pursues.unblocked grants
  rcases majority.intersect majority with ⟨acceptor, _, available, _⟩
  exact fails (.quorum majority acceptor available
    (.restart acceptor server ⟨pursues.toBusy, rfl, available⟩ canStart))

/-- Every running acceptor has taken the messages off its queue. -/
def Drained (cfg : Config) (group : Group) : Prop :=
  ∀ acceptor, group.acceptorRuns cfg acceptor → group.acceptorQueue acceptor = []

/-- A message that waits for a running acceptor can be taken off its queue. -/
theorem exists_turn {cfg : Config} {group : Group} (pending : ¬ Drained cfg group) :
    ∃ label next, (∃ acceptor, label = .acceptor acceptor true) ∧
      cfg.machine.step group label = some next ∧
      ∑ other ∈ cfg.acceptorIds, (next.acceptorQueue other).length <
        ∑ other ∈ cfg.acceptorIds, (group.acceptorQueue other).length := by
  rcases not_forall.mp pending with ⟨acceptor, pending⟩
  rcases Classical.not_imp.mp pending with ⟨runs, waiting⟩
  rcases List.exists_cons_of_ne_nil waiting with ⟨msg, rest, queue⟩
  refine ⟨_, _, ⟨acceptor, rfl⟩, Group.step_acceptor_iff.mpr ⟨msg, rest, queue, runs, rfl⟩,
    Finset.sum_lt_sum (fun other _ => ?_) ⟨acceptor, Finset.mem_range.mpr runs.1, ?_⟩⟩
  · by_cases same : other = acceptor
    · subst same
      simp [queue]
    · simp [same]
  · simp [queue]

/-- The acceptors can take off their queues what is there, while no proposer moves. -/
theorem exists_drained (cfg : Config) (server : ℕ) (group : Group) :
    ∃ settled, Settles cfg server group settled ∧ Drained cfg settled := by
  obtain ⟨settled, leads, drained⟩ :=
    Machine.exists_leads _ (@exists_turn cfg) group
  have proposers : settled.proposers = group.proposers := by
    refine @Machine.Leads.keeps _ _ _ _ _ _ (fun state => state.proposers = group.proposers)
      leads rfl fun state label next isTurn same taken => ?_
    rcases isTurn with ⟨acceptor, rfl⟩
    rcases Group.step_acceptor_iff.mp taken with ⟨msg, rest, _, _, rfl⟩
    simpa using same
  rcases leads with ⟨labels, run, turns⟩
  refine ⟨settled, ⟨⟨labels, run, fun label used => ?_⟩, ?_⟩, drained⟩
  · rcases turns label used with ⟨acceptor, rfl⟩
    rfl
  · rw [proposers]
    exact .refl _

/-- Where no handling of the messages under way comes to the condition, one of the two
shows once the acceptors have emptied their queues. -/
theorem defect_of_stuck {cfg : Config} {group : Group} {server : ℕ}
    (pursues : Pursues cfg server group)
    (stuck : ∀ settled, Settles cfg server group settled → ¬ CanResolve cfg settled server) :
    ∃ settled, Settles cfg server group settled ∧ Drained cfg settled ∧
      (¬ Majority cfg.acceptorIds (Available cfg server settled) ∨
        ∃ acceptor record, Available cfg server settled acceptor ∧
          (settled.acceptors acceptor).acceptHistory.lookup
            ((settled.proposers server).inst : WithBot ℕ) = some record ∧
          record.accp = noNumber) := by
  obtain ⟨settled, settles, drained⟩ := exists_drained cfg server group
  have pursuesOn : Pursues cfg server settled := by
    refine ⟨pursues.toBusy.settled settles, ?_⟩
    have command : (settled.proposers server).clientCommand =
        (group.proposers server).clientCommand := (Prod.ext_iff.mp settles.task.ownEntry).1
    rw [command, settles.task.lockSet]
    exact pursues.unblocked
  exact ⟨settled, settles, drained,
    defect_of_not_canResolve pursuesOn (stuck settled settles)⟩

instance (cfg : Config) (server : ℕ) (group : Group) (acceptor : ℕ) :
    Decidable (Available cfg server group acceptor) :=
  decidable_of_iff (group.acceptorRuns cfg acceptor ∧
      acceptor ∈ (group.proposers server).serverConnections ∧
      server ∈ (group.acceptors acceptor).serverConnections ∧ group.acceptorQueue acceptor = [])
    ⟨fun ⟨runs, reaches, answers, idle⟩ => ⟨runs, reaches, answers, idle⟩,
      fun ⟨runs, reaches, answers, idle⟩ => ⟨runs, reaches, answers, idle⟩⟩

/-- No server writes a request to itself. -/
structure Apart (group : Group) : Prop where
  connections : ∀ server, server ∉ (group.proposers server).serverConnections
  requests : ∀ target msg, (target, msg) ∈ group.sent → msg.msgType ∈ acceptorMsgTypes →
    msg.originId ≠ some target

section Others

variable {cfg : Config} {group next : Group} {label : Label}

theorem Apart.keep (apart : Apart group) (transition : Transition cfg group label next) :
    Apart next := by
  have onlyIn {server : ℕ} {after : Proposer}
      (fewer : after.serverConnections.Sublist (group.proposers server).serverConnections)
      (other : ℕ) :
      other ∉ (Function.update group.proposers server after other).serverConnections := by
    by_cases same : other = server
    · subst same
      rw [Function.update_self]
      exact fun member => apart.connections other (fewer.subset member)
    · rw [Function.update_of_ne same]
      exact apart.connections other
  cases transition with
  | network next move =>
      exact ⟨by rw [move.proposers]; exact apart.connections,
        by rw [move.sent]; exact apart.requests⟩
  | clientSend | clientRecv => exact ⟨apart.connections, apart.requests⟩
  | acceptClient | closeClient | recvClient | idleExit =>
      exact ⟨onlyIn (.refl _), apart.requests⟩
  | proposer server queue taken result runs fewer queued move =>
      refine ⟨?_, fun target msg member kind => ?_⟩
      · rw [Group.commit_proposers]
        exact onlyIn move.connections_sublist
      · rw [Group.commit_sent] at member
        rcases List.mem_append.mp member with old | new
        · exact apart.requests target msg old kind
        · rcases move.packet_cases new with ⟨among, inside⟩
          have origin : msg.originId = some server := by
            rcases move.broadcast_cases among with ⟨_, rfl⟩ | ⟨_, rfl⟩
            · rfl
            · rfl
          rw [origin]
          intro same
          rw [Option.some.inj same] at inside
          exact apart.connections target inside
  | acceptor server msg rest result runs queue turn =>
      refine ⟨apart.connections, fun target sent member kind => ?_⟩
      rw [Group.commitAcceptor_sent] at member
      rcases List.mem_append.mp member with old | new
      · exact apart.requests target sent old kind
      · cases turn with
        | replied request fresh reply after handled =>
            rcases Prod.mk.inj (List.mem_singleton.mp new) with ⟨_, rfl⟩
            exact absurd handled.reply_fields.1 (acceptorMsgTypes_not_proposer kind)
        | duplicate | silent | ended | failed => cases new

end Others

end CSE550.Paxos
