import CSE550.Paxos.Delivery
import CSE550.Paxos.Numbers

/-!
Owns what an EXIT message does to the proposer that takes it off its queue. In the
idle loop it ends the process. In the response loops its instance, None, is not the
current one, so it is passed over like a reply of an old instance and is gone.

Does not own the acceptor, which handles its EXIT before anything else.
-/

namespace CSE550.Paxos

open CSE550.Lib

/-- The PREPAREs and ACCEPTs a server has given to `send_to_acceptors`. -/
def Group.requestsOf (group : Group) (server : ℕ) : List Message :=
  group.broadcasts.filter fun msg => msg.originId = some server

/-- From the state on, the server sends no request and takes no client connection. -/
def Silent (cfg : Config) (server : ℕ) (group : Group) : Prop :=
  ∀ labels final, cfg.machine.runFrom group labels = some final →
    final.requestsOf server = group.requestsOf server ∧
      ∀ index, .acceptClient server index ∉ labels

/-- The label takes an EXIT message off the proposer's queue. -/
def TakesExit (server : ℕ) (group : Group) (label : Label) : Prop :=
  (label = .idleGet server ∨ ∃ address clientGone, label = .get server address clientGone) ∧
    ∃ msg rest, group.proposerQueue server = msg :: rest ∧ msg.msgType = .EXIT

variable {cfg : Config} {group next : Group} {label : Label} {server : ℕ}

/-! ### A process that has ended -/

theorem Group.commit_requestsOf (result : Proposer × Output) :
    (group.commit server result).requestsOf server = group.requestsOf server ++
      result.2.broadcasts.filter fun msg => msg.originId = some server := by
  rw [requestsOf, Group.commit_broadcasts, List.filter_append]
  rfl

/-- What a proposer broadcasts names itself as the origin. -/
theorem ProposerMove.origin {groupSize : ℕ} {proposer : Proposer} {taken : Option Message}
    {result : Proposer × Output} (move : ProposerMove groupSize server proposer taken result)
    {msg : Message} (member : msg ∈ result.2.broadcasts) : msg.originId = some server := by
  rcases move.broadcast_cases member with ⟨_, rfl⟩ | ⟨_, rfl⟩
  · rfl
  · rfl

/-- A step of the group leaves a proposer that has ended as it is. -/
theorem step_ended (ended : (group.proposers server).status ≠ .running)
    (taken : group.step cfg label = some next) :
    (next.proposers server).status ≠ .running ∧
      next.requestsOf server = group.requestsOf server := by
  have others {other : ℕ} (runs : group.proposerRuns cfg other) : server ≠ other := by
    intro same
    exact ended (same ▸ runs.2.2)
  cases transition_of_step taken with
  | network _ move =>
      rw [Group.requestsOf, move.broadcasts, move.proposers]
      exact ⟨ended, rfl⟩
  | clientSend | clientRecv | acceptor => exact ⟨ended, rfl⟩
  | acceptClient other index runs | closeClient other index runs
  | recvClient other index command runs | idleExit other msg rest runs =>
      refine ⟨?_, rfl⟩
      show (Function.update group.proposers other _ server).status ≠ .running
      rwa [Function.update_of_ne (others runs)]
  | proposer other queue found result runs fewer queued move =>
      constructor
      · rw [Group.commit_proposers, Function.update_of_ne (others runs)]
        exact ended
      · rw [Group.requestsOf, Group.commit_broadcasts, List.filter_append]
        have foreign : (result.2.broadcasts.filter fun msg => msg.originId = some server) = [] := by
          rw [List.filter_eq_nil_iff]
          intro msg member isOwn
          have named := move.origin member
          rw [of_decide_eq_true isOwn] at named
          exact others runs (Option.some.inj named)
        rw [foreign, List.append_nil]
        rfl

/-- From the end of its process on, a proposer is silent. -/
theorem silent_of_ended (ended : (group.proposers server).status ≠ .running) :
    Silent cfg server group := by
  intro labels final run
  have kept := @Machine.runFrom_keeps _ _ cfg.machine
    (fun state => (state.proposers server).status ≠ .running ∧
      state.requestsOf server = group.requestsOf server)
    (fun label => ∀ index, label ≠ .acceptClient server index) _ _ _ run ?_ ⟨ended, rfl⟩
  · exact ⟨kept.1.2, fun index member => kept.2 _ member index rfl⟩
  · intro state label next ⟨stopped, same⟩ taken
    have stays := step_ended stopped taken
    refine ⟨⟨stays.1, stays.2.trans same⟩, ?_⟩
    rintro index rfl
    simp only [Config.machine, Group.step, Option.ite_none_right_eq_some] at taken
    exact stopped taken.1.1.2.2

/-! ### A response loop -/

/-- A proposer in READY can send its PREPARE. -/
theorem not_silent_of_ready (runs : group.proposerRuns cfg server)
    (isReady : (group.proposers server).state = .READY) : ¬ Silent cfg server group := by
  intro silent
  have taken : cfg.machine.step group (.send server []) =
      some (group.commit server ((group.proposers server).ready server [])) := by
    simp only [Config.machine, Group.step, isReady]
    exact if_pos runs
  have same := (silent _ _ (Machine.runFrom_cons taken (Machine.runFrom_nil _))).1
  rw [Group.commit_requestsOf] at same
  simp [Proposer.ready, Output.broadcasts, Proposer.prepareMsg] at same

/-- Silence lasts through every step of a proposer that sends nothing. -/
theorem Silent.commit {result : Proposer} (silent : Silent cfg server group)
    (taken : group.step cfg label = some (group.commit server (result, .silent))) :
    Silent cfg server (group.commit server (result, .silent)) := by
  intro labels final run
  rcases silent _ final (Machine.runFrom_cons taken run) with ⟨same, quiet⟩
  refine ⟨?_, fun index member => quiet index (List.mem_cons_of_mem _ member)⟩
  rw [same, Group.commit_requestsOf]
  simp [Output.broadcasts]

/-- A proposer in a round can send another PREPARE, at the latest after a timeout. -/
theorem not_silent_of_round (runs : group.proposerRuns cfg server)
    (round : (group.proposers server).state = .READY ∨
      (group.proposers server).state = .PROPOSING ∨
      (group.proposers server).state = .ACCEPTING) : ¬ Silent cfg server group := by
  have afterTimeout {result : Proposer} (isReady : result.state = .READY)
      (running : result.status = .running)
      (taken : group.step cfg (.timeout server) =
        some (group.commit server (result, .silent))) : ¬ Silent cfg server group := by
    intro silent
    have later := silent.commit taken
    refine absurd later (not_silent_of_ready ⟨runs.1, runs.2.1, ?_⟩ ?_)
    · simpa using running
    · simpa using isReady
  rcases round with isReady | proposing | accepting
  · exact not_silent_of_ready runs isReady
  · apply @afterTimeout ((group.proposers server).abandon cfg.groupSize) rfl runs.2.2
    simp only [Group.step, proposing]
    exact if_pos runs
  · apply @afterTimeout ((group.proposers server).acceptingTimeout cfg.groupSize) rfl runs.2.2
    simp only [Group.step, accepting]
    exact if_pos runs

/-- An EXIT taken in a response loop is passed over, or counts as a timeout when it
names no client. -/
theorem Takes.exit {groupSize address : ℕ} {clientGone : Bool} {proposer : Proposer}
    {msg : Message} {result : Proposer × Output}
    (takes : Takes groupSize server address clientGone proposer msg result)
    (isExit : IsExit msg) : result = (proposer, .silent) ∨
      (proposer.state = .PROPOSING ∧ result = (proposer.abandon groupSize, .silent)) := by
  rcases isExit with ⟨clientId, rfl⟩
  have unfiltered : ifDup (exitMessage clientId) proposer.msgHistory =
      (false, proposer.msgHistory) := by
    simp [ifDup, exitMessage, proposerMsgTypes]
  cases takes with
  | proposing state =>
      by_cases missing : clientId = none
      · refine .inr ⟨state, ?_⟩
        rw [Proposer.proposing, if_pos (show (exitMessage clientId).clientId = none from missing)]
      · refine .inl ?_
        rw [Proposer.proposing,
          if_neg (show (exitMessage clientId).clientId ≠ none from missing), unfiltered]
        simp [Proposer.dispatchProposing, exitMessage]
  | accepting state =>
      refine .inl ?_
      rw [Proposer.accepting, unfiltered]
      simp [Proposer.dispatchAccepting, exitMessage]

/-- Once a proposer has taken an EXIT it sends no request and takes no client
connection, if and only if it took the EXIT in the idle loop. -/
theorem exit_silences_iff (reached : cfg.Reachable group)
    (taken : group.step cfg label = some next) (takes : TakesExit server group label) :
    Silent cfg server next ↔ (group.proposers server).state = .IDLE := by
  rcases takes with ⟨rfl | ⟨address, clientGone, rfl⟩, msg, rest, queue, kind⟩
  · simp only [Group.step, queue, kind, if_true, Option.ite_none_right_eq_some,
      Option.some.injEq] at taken
    rcases taken with ⟨⟨runs, idle, _⟩, rfl⟩
    refine iff_of_true (silent_of_ended ?_) idle
    simp [Group.setProposer]
  · rcases Group.step_get_iff.mp taken with ⟨other, later, result, front, runs, took, rfl⟩
    obtain ⟨rfl, rfl⟩ := List.cons.inj (queue.symm.trans front)
    have isExit : IsExit msg := by
      have waiting : msg ∈ group.proposerQueue server := by simp [queue]
      rcases (wire_reachable reached).proposerQueue server msg waiting with isExit | ⟨_, isReply⟩
      · exact isExit
      · rw [kind] at isReply
        exact absurd isReply (by decide)
    have round : (group.proposers server).state = .PROPOSING ∨
        (group.proposers server).state = .ACCEPTING := by
      cases took with
      | proposing state => exact .inl state
      | accepting state => exact .inr state
    refine iff_of_false ?_ ?_
    · rcases took.exit isExit with rfl | ⟨_, rfl⟩
      · refine not_silent_of_round ⟨runs.1, runs.2.1, ?_⟩ (.inr ?_)
        · simpa using runs.2.2
        · simpa using round
      · refine not_silent_of_round ⟨runs.1, runs.2.1, ?_⟩ (.inl ?_)
        · simpa [Proposer.abandon] using runs.2.2
        · simp [Proposer.abandon]
    · intro idle
      rcases round with state | state
      · cases idle.symm.trans state
      · cases idle.symm.trans state

/-- Server 0 takes an EXIT before its first client comes. -/
theorem exit_silences_iff_first :
    Silent oneLock 0 (oneLock.after ([.exitProposer 0 (some 9000)] ++ [.idleGet 0])) ↔
      ((oneLock.after [.exitProposer 0 (some 9000)]).proposers 0).state = .IDLE := by
  refine exit_silences_iff (Config.reachable_after _ _) (Config.step_after (by decide))
    ⟨.inl rfl, exitMessage (some 9000), [], by decide, rfl⟩

/-- Server 0 waits for the answers to its first PREPARE when an EXIT arrives. -/
def exitInRound : List Label :=
  [.acceptClient 0 0, .clientSend 0, .recvClient 0, .send 0 [], .exitProposer 0 (some 9000)]

/-- It takes the EXIT and, after a timeout, sends its second PREPARE. -/
theorem exit_in_round_lost :
    oneLock.Reachable (oneLock.after exitInRound) ∧
      (oneLock.after exitInRound).step oneLock (.get 0 0 false) =
        some (oneLock.after (exitInRound ++ [.get 0 0 false])) ∧
      TakesExit 0 (oneLock.after exitInRound) (.get 0 0 false) ∧
      ¬ Silent oneLock 0 (oneLock.after (exitInRound ++ [.get 0 0 false])) := by
  refine ⟨Config.reachable_after _ _, Config.step_after (by decide),
    ⟨.inr ⟨0, false, rfl⟩, exitMessage (some 9000), [], by decide, rfl⟩, fun silent => ?_⟩
  have run : (oneLock.machine.runFrom (oneLock.after (exitInRound ++ [.get 0 0 false]))
      [.timeout 0, .send 0 []]).isSome = true := by decide
  rcases Option.isSome_iff_exists.mp run with ⟨final, found⟩
  have same := congrArg List.length (silent _ final found).1
  have more : (oneLock.machine.runFrom (oneLock.after (exitInRound ++ [.get 0 0 false]))
      [.timeout 0, .send 0 []]).map (fun state => (state.requestsOf 0).length) = some 2 := by
    decide
  have once : ((oneLock.after (exitInRound ++ [.get 0 0 false])).requestsOf 0).length = 1 := by
    decide
  rw [found, Option.map_some, Option.some.injEq] at more
  omega

end CSE550.Paxos
