import CSE550.Paxos.Wire
import Mathlib.Data.Int.ModEq
import Mathlib.Tactic.Linarith
import Mathlib.Tactic.Positivity
import Mathlib.Tactic.Ring

/-!
Owns the proposal numbers: a proposer's number stays congruent to its id, a
number is used for at most one PREPARE and one ACCEPT, and an ACCEPT repeats
the number and instance of the PREPARE before it.

The only facts about the state machine used here are in `NumberMove`: a stretch
of the loop without a broadcast keeps the number or raises it by a positive
multiple of the group size and returns to READY or IDLE.
-/

namespace CSE550.Paxos

open CSE550.Lib

/-- What a stretch of the loop without a broadcast does to number and state. -/
inductive NumberMove (groupSize : ℕ) (before after : Proposer) : Prop
  | same (number : after.proposerNum = before.proposerNum) (inst : after.inst = before.inst)
      (state : after.state = before.state ∨
        (before.state = .PROPOSING ∧ after.state = .ACCEPT) ∨
        (before.state = .IDLE ∧ after.state = .READY))
  | raised (steps : ℕ) (number : after.proposerNum = before.proposerNum + (steps + 1) * groupSize)
      (state : after.state = .READY ∨ after.state = .IDLE)

/-- A move without a broadcast is a `NumberMove`. -/
theorem ProposerMove.number {groupSize serverId : ℕ} {proposer : Proposer}
    {taken : Option Message} {result : Proposer × Output}
    (move : ProposerMove groupSize serverId proposer taken result)
    (quiet : result.2.broadcasts = []) : NumberMove groupSize proposer result.1 := by
  have once (state : ProposerState) (changed : Proposer)
      (number : changed.proposerNum = proposer.proposerNum + groupSize)
      (isState : changed.state = state) (back : state = .READY ∨ state = .IDLE) :
      NumberMove groupSize proposer changed :=
    .raised 0 (by simpa using number) (isState ▸ back)
  cases move with
  | ready | accept => cases quiet
  | acceptRaised state missing => exact .same rfl rfl (.inl rfl)
  | proposingTimeout state => exact once .READY _ rfl rfl (.inl rfl)
  | acceptingTimeout state =>
      refine .raised 1 ?_ (.inl rfl)
      simp only [Proposer.acceptingTimeout]
      push_cast
      ring
  | proposing address msg state after outcome =>
      cases outcome with
      | refused | exited => exact once .READY _ rfl rfl (.inl rfl)
      | unchanged | passed | raised | counted => exact .same rfl rfl (.inl rfl)
      | blocked reply many held =>
          obtain ⟨value, clientId, same⟩ :=
            learn_eq ((proposer.remember msg).countReply address msg)
          rw [same]
          exact once .READY _ rfl rfl (.inl rfl)
      | won reply many free =>
          obtain ⟨value, clientId, same⟩ :=
            learn_eq ((proposer.remember msg).countReply address msg)
          rw [same]
          exact .same rfl rfl (.inr (.inl ⟨state, rfl⟩))
  | accepting msg state result outcome =>
      cases outcome with
      | unchanged | passed | exited | raisedOther | counted => exact .same rfl rfl (.inl rfl)
      | raisedLater later changed same remembered =>
          rcases same with rfl | rfl <;> exact .same rfl rfl (.inl rfl)
      | lost => exact once .IDLE _ rfl rfl (.inr rfl)
      | own =>
          exact once .IDLE _ (resolve_proposerNum _ msg) (resolve_state _ msg) (.inr rfl)
      | other =>
          exact once .READY _ (resolve_proposerNum _ msg) (resolve_state _ msg) (.inl rfl)

/-- A move with a broadcast keeps number and instance and enters the loop that
waits for the replies. -/
theorem ProposerMove.number_of_broadcast {groupSize serverId : ℕ} {proposer : Proposer}
    {taken : Option Message} {result : Proposer × Output}
    (move : ProposerMove groupSize serverId proposer taken result)
    (loud : result.2.broadcasts ≠ []) :
    result.1.proposerNum = proposer.proposerNum ∧ result.1.inst = proposer.inst ∧
      ((proposer.state = .READY ∧ result.1.state = .PROPOSING ∧
          result.2.broadcasts = [proposer.prepareMsg serverId]) ∨
        (proposer.state = .ACCEPT ∧ result.1.state = .ACCEPTING ∧
          result.2.broadcasts = [proposer.acceptMsg serverId])) := by
  cases move with
  | ready fails state => exact ⟨rfl, rfl, .inl ⟨state, rfl, rfl⟩⟩
  | accept fails state => exact ⟨rfl, rfl, .inr ⟨state, rfl, rfl⟩⟩
  | acceptRaised | proposingTimeout | acceptingTimeout | proposing => exact absurd rfl loud
  | accepting msg state result outcome => cases outcome <;> exact absurd rfl loud

/-- The message is a PREPARE of the server. -/
def isPrepareOf (server : ℕ) (msg : Message) : Bool :=
  msg.msgType = .PREPARE ∧ msg.originId = some server

/-- The last PREPARE a server has broadcast. -/
def latestPrepare (server : ℕ) (broadcasts : List Message) : Option Message :=
  (broadcasts.filter (isPrepareOf server)).getLast?

theorem latestPrepare_append_other {server : ℕ} {broadcasts : List Message} {msg : Message}
    (other : isPrepareOf server msg = false) :
    latestPrepare server (broadcasts ++ [msg]) = latestPrepare server broadcasts := by
  simp [latestPrepare, List.filter_append, other]

theorem latestPrepare_append_self {server : ℕ} {broadcasts : List Message} {msg : Message}
    (own : isPrepareOf server msg = true) :
    latestPrepare server (broadcasts ++ [msg]) = some msg := by
  simp [latestPrepare, List.filter_append, own]

/-- The numbers of one proposer and of its broadcasts. -/
structure ServerNumbers (groupSize server : ℕ) (proposer : Proposer)
    (broadcasts : List Message) : Prop where
  residue : ∃ steps : ℕ, proposer.proposerNum = server + steps * groupSize
  bound : ∀ msg ∈ broadcasts, msg.originId = some server → msg.proposal ≤ proposer.proposerNum
  prepareBound : ∀ msg ∈ broadcasts, msg.originId = some server → msg.msgType = .PREPARE →
    (proposer.state = .IDLE ∨ proposer.state = .READY) → msg.proposal < proposer.proposerNum
  acceptBound : ∀ msg ∈ broadcasts, msg.originId = some server → msg.msgType = .ACCEPT →
    proposer.state ≠ .ACCEPTING → msg.proposal < proposer.proposerNum
  latest : proposer.state ≠ .IDLE → proposer.state ≠ .READY →
    ∃ msg, latestPrepare server broadcasts = some msg ∧
      msg.proposal = proposer.proposerNum ∧ msg.inst = proposer.inst

/-- The numbers of the whole group. -/
structure Numbers (cfg : Config) (group : Group) : Prop where
  servers : ∀ server,
    ServerNumbers cfg.groupSize server (group.proposers server) group.broadcasts
  ordered : group.broadcasts.Pairwise fun earlier later =>
    earlier.msgType = later.msgType → earlier.originId = later.originId →
      earlier.proposal < later.proposal
  residues : ∀ msg ∈ group.broadcasts, ∃ server < cfg.groupSize, ∃ steps : ℕ,
    msg.originId = some server ∧
      msg.proposal = ((server + steps * cfg.groupSize : ℤ) : WithBot ℤ)
  matched : ∀ earlier msg, earlier ++ [msg] <+: group.broadcasts → msg.msgType = .ACCEPT →
    ∀ server, msg.originId = some server →
      ∃ prepare, latestPrepare server earlier = some prepare ∧
        prepare.proposal = msg.proposal ∧ prepare.inst = msg.inst

theorem Numbers.initial (cfg : Config) : Numbers cfg cfg.initial where
  servers := fun server =>
    { residue := ⟨0, by simp [Config.initial, Config.initialProposer]⟩
      bound := by simp [Config.initial]
      prepareBound := by simp [Config.initial]
      acceptBound := by simp [Config.initial]
      latest := fun busy => absurd rfl busy }
  ordered := List.Pairwise.nil
  residues := by simp [Config.initial]
  matched := by simp [Config.initial]

section Keep

variable {cfg : Config} {group next : Group} {label : Label}

/-- A stretch without a broadcast keeps a server's numbers. -/
theorem ServerNumbers.keep_quiet {groupSize server : ℕ} {before after : Proposer}
    {broadcasts : List Message} (positive : 0 < groupSize)
    (numbers : ServerNumbers groupSize server before broadcasts)
    (move : NumberMove groupSize before after) :
    ServerNumbers groupSize server after broadcasts := by
  obtain ⟨residue, bound, prepareBound, acceptBound, latest⟩ := numbers
  cases move with
  | same number inst state =>
      refine ⟨number ▸ residue, number ▸ bound, ?_, ?_, ?_⟩
      · intro msg member origin kind resting
        rw [number]
        refine prepareBound msg member origin kind ?_
        rcases state with same | ⟨_, isAccept⟩ | ⟨wasIdle, _⟩
        · exact same ▸ resting
        · simp [isAccept] at resting
        · exact .inl wasIdle
      · intro msg member origin kind notAccepting
        rw [number]
        refine acceptBound msg member origin kind ?_
        rcases state with same | ⟨wasProposing, _⟩ | ⟨wasIdle, _⟩
        · exact same ▸ notAccepting
        · simp [wasProposing]
        · simp [wasIdle]
      · intro notIdle notReady
        rw [number, inst]
        rcases state with same | ⟨wasProposing, _⟩ | ⟨_, isReady⟩
        · exact latest (same ▸ notIdle) (same ▸ notReady)
        · exact latest (by simp [wasProposing]) (by simp [wasProposing])
        · exact absurd isReady notReady
  | raised steps number state =>
      have growth : before.proposerNum < after.proposerNum := by
        rw [number]
        have : (0 : ℤ) < (steps + 1) * groupSize := by positivity
        linarith
      have strict : ∀ msg ∈ broadcasts, msg.originId = some server →
          msg.proposal < after.proposerNum := fun msg member origin =>
        (bound msg member origin).trans_lt (WithBot.coe_lt_coe.mpr growth)
      refine ⟨?_, fun msg member origin => (strict msg member origin).le,
        fun msg member origin _ _ => strict msg member origin,
        fun msg member origin _ _ => strict msg member origin, ?_⟩
      · obtain ⟨earlier, same⟩ := residue
        refine ⟨earlier + (steps + 1), ?_⟩
        rw [number, same]
        push_cast
        ring
      · intro notIdle notReady
        rcases state with isReady | isIdle
        · exact absurd isReady notReady
        · exact absurd isIdle notIdle

/-- Another server's broadcast keeps a server's numbers. -/
theorem ServerNumbers.keep_other {groupSize server : ℕ} {proposer : Proposer}
    {broadcasts : List Message} {msg : Message}
    (numbers : ServerNumbers groupSize server proposer broadcasts)
    (foreign : msg.originId ≠ some server) :
    ServerNumbers groupSize server proposer (broadcasts ++ [msg]) := by
  obtain ⟨residue, bound, prepareBound, acceptBound, latest⟩ := numbers
  have old {other : Message} (member : other ∈ broadcasts ++ [msg])
      (origin : other.originId = some server) : other ∈ broadcasts := by
    rcases List.mem_append.mp member with inside | last
    · exact inside
    · obtain rfl := List.mem_singleton.mp last
      exact absurd origin foreign
  refine ⟨residue, fun other member origin => bound other (old member origin) origin,
    fun other member origin => prepareBound other (old member origin) origin,
    fun other member origin => acceptBound other (old member origin) origin, ?_⟩
  rw [latestPrepare_append_other (by simp [isPrepareOf, foreign])]
  exact latest

private theorem Numbers.keep_same (numbers : Numbers cfg group)
    (broadcasts : next.broadcasts = group.broadcasts)
    (servers : ∀ server, NumberMove cfg.groupSize (group.proposers server)
      (next.proposers server) ∨ next.proposers server = group.proposers server)
    (positive : 0 < cfg.groupSize ∨ next.proposers = group.proposers) : Numbers cfg next where
  servers := by
    intro server
    rw [broadcasts]
    rcases servers server with move | same
    · rcases positive with positive | unchanged
      · exact (numbers.servers server).keep_quiet positive move
      · exact unchanged ▸ numbers.servers server
    · exact same ▸ numbers.servers server
  ordered := broadcasts ▸ numbers.ordered
  residues := broadcasts ▸ numbers.residues
  matched := broadcasts ▸ numbers.matched

/-- A broadcast by a running proposer. -/
private theorem Numbers.keep_broadcast (numbers : Numbers cfg group) {server : ℕ}
    {after : Proposer} {msg : Message} (isServer : server < cfg.groupSize)
    (number : after.proposerNum = (group.proposers server).proposerNum)
    (inst : after.inst = (group.proposers server).inst)
    (kind : ((group.proposers server).state = .READY ∧ after.state = .PROPOSING ∧
        msg = (group.proposers server).prepareMsg server) ∨
      ((group.proposers server).state = .ACCEPT ∧ after.state = .ACCEPTING ∧
        msg = (group.proposers server).acceptMsg server))
    (proposers : next.proposers = Function.update group.proposers server after)
    (broadcasts : next.broadcasts = group.broadcasts ++ [msg]) : Numbers cfg next := by
  obtain ⟨residue, bound, prepareBound, acceptBound, latest⟩ := numbers.servers server
  have origin : msg.originId = some server := by
    rcases kind with ⟨_, _, rfl⟩ | ⟨_, _, rfl⟩ <;> rfl
  have proposal : msg.proposal = (group.proposers server).proposerNum := by
    rcases kind with ⟨_, _, rfl⟩ | ⟨_, _, rfl⟩ <;> rfl
  have below : ∀ earlier ∈ group.broadcasts, earlier.msgType = msg.msgType →
      earlier.originId = some server → earlier.proposal < msg.proposal := by
    intro earlier member same earlierOrigin
    rw [proposal]
    rcases kind with ⟨state, _, rfl⟩ | ⟨state, _, rfl⟩
    · exact prepareBound earlier member earlierOrigin same (.inr state)
    · exact acceptBound earlier member earlierOrigin same (by simp [state])
  have appended {motive : Message → Prop} (old : ∀ other ∈ group.broadcasts, motive other)
      (new : motive msg) : ∀ other ∈ group.broadcasts ++ [msg], motive other := by
    intro other member
    rcases List.mem_append.mp member with inside | last
    · exact old other inside
    · exact List.mem_singleton.mp last ▸ new
  refine ⟨?_, ?_, ?_, ?_⟩
  · intro other
    rw [proposers, broadcasts]
    by_cases same : other = server
    · subst same
      rw [Function.update_self]
      refine ⟨number ▸ residue, ?_, ?_, ?_, ?_⟩
      · rw [number]
        exact appended bound fun _ => proposal.le
      · intro earlier member earlierOrigin isPrepare resting
        rcases kind with ⟨_, state, _⟩ | ⟨_, state, _⟩ <;> simp [state] at resting
      · rw [number]
        refine appended (motive := fun other => other.originId = _ → other.msgType = .ACCEPT →
          after.state ≠ .ACCEPTING → other.proposal < _) ?_ ?_
        · intro earlier member earlierOrigin isAccept notAccepting
          refine acceptBound earlier member earlierOrigin isAccept ?_
          rcases kind with ⟨state, _, _⟩ | ⟨state, _, _⟩ <;> simp [state]
        · intro _ isAccept notAccepting
          rcases kind with ⟨_, _, rfl⟩ | ⟨_, state, _⟩
          · simp [Proposer.prepareMsg] at isAccept
          · exact absurd state notAccepting
      · intro notIdle notReady
        rw [number, inst]
        rcases kind with ⟨_, _, rfl⟩ | ⟨state, _, rfl⟩
        · exact ⟨_, latestPrepare_append_self (by simp [isPrepareOf, Proposer.prepareMsg]),
            rfl, rfl⟩
        · rw [latestPrepare_append_other (by simp [isPrepareOf, Proposer.acceptMsg])]
          exact latest (by simp [state]) (by simp [state])
    · rw [Function.update_of_ne same]
      exact (numbers.servers other).keep_other (by simp [origin, Ne.symm same])
  · rw [broadcasts, List.pairwise_append]
    refine ⟨numbers.ordered, List.pairwise_singleton _ _, ?_⟩
    intro earlier member later last sameType sameOrigin
    obtain rfl := List.mem_singleton.mp last
    exact below earlier member sameType (sameOrigin.trans origin)
  · rw [broadcasts]
    refine appended numbers.residues ?_
    obtain ⟨steps, same⟩ := residue
    exact ⟨server, isServer, steps, origin, by rw [proposal, same]⟩
  · rw [broadcasts]
    intro earlier accept among isAccept other acceptOrigin
    rcases List.prefix_concat_iff.mp among with whole | inside
    · obtain ⟨rfl, last⟩ := List.append_inj' whole rfl
      obtain rfl := List.singleton_inj.mp last
      obtain rfl : server = other := Option.some.inj (origin.symm.trans acceptOrigin)
      rcases kind with ⟨_, _, rfl⟩ | ⟨state, _, rfl⟩
      · simp [Proposer.prepareMsg] at isAccept
      · obtain ⟨prepare, found, number, inst⟩ := latest (by simp [state]) (by simp [state])
        exact ⟨prepare, found, number, inst⟩
    · exact numbers.matched earlier accept inside isAccept other acceptOrigin

theorem Numbers.keep (numbers : Numbers cfg group) (transition : Transition cfg group label next) :
    Numbers cfg next := by
  have changeOne {server : ℕ} {after : Proposer}
      (move : NumberMove cfg.groupSize (group.proposers server) after) (other : ℕ) :
      NumberMove cfg.groupSize (group.proposers other)
          (Function.update group.proposers server after other) ∨
        Function.update group.proposers server after other = group.proposers other := by
    by_cases same : other = server
    · subst same
      exact .inl (by simpa using move)
    · exact .inr (by simp [same])
  have unmoved : ∀ server, NumberMove cfg.groupSize (group.proposers server)
      (group.proposers server) ∨ group.proposers server = group.proposers server :=
    fun _ => .inr rfl
  have positive {server : ℕ} (runs : group.proposerRuns cfg server) : 0 < cfg.groupSize :=
    Nat.zero_lt_of_lt runs.1
  cases transition with
  | network next move =>
      exact numbers.keep_same move.broadcasts (fun server => .inr (by rw [move.proposers]))
        (.inr move.proposers)
  | clientSend | clientRecv | acceptor => exact numbers.keep_same rfl unmoved (.inr rfl)
  | acceptClient server index runs | closeClient server index runs
  | idleExit server msg rest runs =>
      exact numbers.keep_same rfl (changeOne (.same rfl rfl (.inl rfl))) (.inl (positive runs))
  | recvClient server index command runs idle =>
      exact numbers.keep_same rfl (changeOne (.same rfl rfl (.inr (.inr ⟨idle, rfl⟩))))
        (.inl (positive runs))
  | proposer server queue taken result runs fewer queued move =>
      by_cases quiet : result.2.broadcasts = []
      · refine numbers.keep_same (by simp [quiet]) ?_
          (.inl (positive runs))
        simpa using changeOne (move.number quiet)
      · obtain ⟨number, inst, ⟨state, after, only⟩ | ⟨state, after, only⟩⟩ :=
          move.number_of_broadcast quiet
        · exact numbers.keep_broadcast runs.1 number inst (.inl ⟨state, after, rfl⟩)
            (by simp) (by simp [only])
        · exact numbers.keep_broadcast runs.1 number inst (.inr ⟨state, after, rfl⟩)
            (by simp) (by simp [only])

end Keep

theorem numbers_reachable {cfg : Config} {group : Group} (reached : cfg.Reachable group) :
    Numbers cfg group :=
  reached.invariant (Numbers.initial cfg) fun _ _ _ _ numbers taken =>
    numbers.keep (transition_of_step taken)

/-! ### Numbers name their broadcasts -/

section Law

variable {cfg : Config} {group : Group}

/-- The number of a broadcast names its server. -/
theorem Numbers.origin_unique (numbers : Numbers cfg group) {left right : Message}
    (leftIn : left ∈ group.broadcasts) (rightIn : right ∈ group.broadcasts)
    (number : left.proposal = right.proposal) : left.originId = right.originId := by
  obtain ⟨first, firstBound, firstSteps, firstOrigin, firstNumber⟩ := numbers.residues left leftIn
  obtain ⟨second, secondBound, secondSteps, secondOrigin, secondNumber⟩ :=
    numbers.residues right rightIn
  have same : (first + firstSteps * cfg.groupSize : ℤ) = second + secondSteps * cfg.groupSize :=
    WithBot.coe_injective (firstNumber.symm.trans (number.trans secondNumber))
  have natural : first + firstSteps * cfg.groupSize = second + secondSteps * cfg.groupSize := by
    exact_mod_cast same
  have residues := congrArg (· % cfg.groupSize) natural
  simp only [Nat.add_mul_mod_self_right, Nat.mod_eq_of_lt firstBound,
    Nat.mod_eq_of_lt secondBound] at residues
  rw [firstOrigin, secondOrigin, residues]

/-- A number is used by at most one broadcast of each type. -/
theorem Numbers.index_unique (numbers : Numbers cfg group) {first second : ℕ}
    {left right : Message} (leftAt : group.broadcasts[first]? = some left)
    (rightAt : group.broadcasts[second]? = some right) (kind : left.msgType = right.msgType)
    (number : left.proposal = right.proposal) : first = second := by
  have origin := numbers.origin_unique (List.mem_of_getElem? leftAt) (List.mem_of_getElem? rightAt)
    number
  obtain ⟨firstBound, rfl⟩ := List.getElem?_eq_some_iff.mp leftAt
  obtain ⟨secondBound, rfl⟩ := List.getElem?_eq_some_iff.mp rightAt
  have ordered := List.pairwise_iff_getElem.mp numbers.ordered
  rcases lt_trichotomy first second with before | same | after
  · exact absurd number (ordered first second firstBound secondBound before kind origin).ne
  · exact same
  · exact absurd number.symm
      (ordered second first secondBound firstBound after kind.symm origin.symm).ne

/-- A server broadcasts one message of each type with a number. -/
theorem Numbers.broadcast_unique (numbers : Numbers cfg group) {left right : Message}
    (leftIn : left ∈ group.broadcasts) (rightIn : right ∈ group.broadcasts)
    (kind : left.msgType = right.msgType) (number : left.proposal = right.proposal) :
    left = right := by
  obtain ⟨first, leftAt⟩ := List.mem_iff_getElem?.mp leftIn
  obtain ⟨second, rightAt⟩ := List.mem_iff_getElem?.mp rightIn
  obtain rfl := numbers.index_unique leftAt rightAt kind number
  exact Option.some.inj (leftAt.symm.trans rightAt)

/-- The law of the proposal numbers. An entry of `broadcasts` is one call of
`send_to_acceptors`, so two messages at one index come from the same send. -/
structure NumberLaw (cfg : Config) (group : Group) : Prop where
  congruent : ∀ server, (group.proposers server).proposerNum ≡ server [ZMOD cfg.groupSize]
  increasing : ∀ server, (group.broadcasts.filter (isPrepareOf server)).Pairwise
    fun earlier later => earlier.proposal < later.proposal
  repeated : ∀ earlier accept later, group.broadcasts = earlier ++ accept :: later →
    accept.msgType = .ACCEPT → ∀ server, accept.originId = some server →
      ∃ prepare, latestPrepare server earlier = some prepare ∧
        accept.proposal = prepare.proposal ∧ accept.inst = prepare.inst
  sameSend : ∀ (first second : ℕ) (left right : Message), group.broadcasts[first]? = some left →
    group.broadcasts[second]? = some right → left.msgType = .ACCEPT → right.msgType = .ACCEPT →
    left.inst = right.inst → left.proposal = right.proposal → first = second
  sameContents : ∀ near far left right, (near, left) ∈ group.sent → (far, right) ∈ group.sent →
    left.msgType = .ACCEPT → right.msgType = .ACCEPT → left.inst = right.inst →
    left.proposal = right.proposal →
      left.value = right.value ∧ left.clientId = right.clientId ∧
        ∃ index : ℕ, group.broadcasts[index]? = some left ∧ group.broadcasts[index]? = some right

/-- Proposal numbers never collide. -/
theorem proposal_numbers_never_collide (reached : cfg.Reachable group) : NumberLaw cfg group := by
  have numbers := numbers_reachable reached
  have wire := wire_reachable reached
  refine ⟨?_, ?_, ?_, ?_, ?_⟩
  · intro server
    obtain ⟨steps, same⟩ := (numbers.servers server).residue
    rw [same]
    exact Int.modEq_iff_dvd.mpr ⟨-steps, by ring⟩
  · intro server
    refine (numbers.ordered.filter _).imp_of_mem fun {earlier later} first second before => ?_
    have firstOwn := (List.mem_filter.mp first).2
    have secondOwn := (List.mem_filter.mp second).2
    simp only [isPrepareOf, decide_eq_true_eq] at firstOwn secondOwn
    exact before (firstOwn.1.trans secondOwn.1.symm) (firstOwn.2.trans secondOwn.2.symm)
  · intro earlier accept later split isAccept server origin
    have inside : earlier ++ [accept] <+: group.broadcasts := ⟨later, by simp [split]⟩
    obtain ⟨prepare, found, number, inst⟩ :=
      numbers.matched earlier accept inside isAccept server origin
    exact ⟨prepare, found, number.symm, inst.symm⟩
  · intro first second left right leftAt rightAt leftAccept rightAccept _ number
    exact numbers.index_unique leftAt rightAt (leftAccept.trans rightAccept.symm) number
  · intro near far left right leftSent rightSent leftAccept rightAccept _ number
    have request {msg : Message} (isAccept : msg.msgType = .ACCEPT) :
        msg.msgType ∈ acceptorMsgTypes := by simp [acceptorMsgTypes, isAccept]
    have leftIn := wire.requests near left leftSent (request leftAccept)
    have rightIn := wire.requests far right rightSent (request rightAccept)
    obtain rfl := numbers.broadcast_unique leftIn rightIn (leftAccept.trans rightAccept.symm) number
    obtain ⟨index, found⟩ := List.mem_iff_getElem?.mp leftIn
    exact ⟨rfl, rfl, index, found, found⟩

/-- The file of a client that locks resource 7. -/
def lockSeven (_ : ℕ) : List Command := [⟨.LOCK, 7⟩]

theorem lockSeven_created :
    ∀ client, ∀ command ∈ lockSeven client, command.commandType ≠ .NONE := by
  simp [lockSeven]

/-- A group of three whose first client locks resource 7. -/
def oneLock : Config := .connected 3 1 lockSeven lockSeven_created

/-- Server 0 loses its first round and wins the second one. -/
def retriedRun : List Label :=
  [.acceptClient 0 0, .clientSend 0, .recvClient 0, .send 0 [], .lose 0, .lose 0, .timeout 0,
    .send 0 [], .connection 0 .keep, .connection 0 .keep, .acceptor 1 true, .acceptor 2 true,
    .connection 0 .keep, .connection 0 .keep, .get 0 0 false, .get 0 1 false, .send 0 []]

/-- Its two PREPAREs carry 0 and 3, its ACCEPT carries 3. -/
theorem proposal_numbers_retried :
    (oneLock.after retriedRun).broadcasts.map (fun msg => (msg.msgType, msg.proposal)) =
        [(.PREPARE, ((0 : ℤ) : WithBot ℤ)), (.PREPARE, ((3 : ℤ) : WithBot ℤ)),
          (.ACCEPT, ((3 : ℤ) : WithBot ℤ))] ∧
      NumberLaw oneLock (oneLock.after retriedRun) :=
  ⟨by decide, proposal_numbers_never_collide (Config.reachable_after _ _)⟩

end Law

end CSE550.Paxos
