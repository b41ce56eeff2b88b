import CSE550.Paxos.Group

/-!
Owns the inversion of one step of the group: what the step of a reachable or
unreachable state can do, said once for every proof about the group. The step
is first split by the process that moves, then the two response loops and the
acceptor's turn are split by outcome.
-/

namespace CSE550.Paxos

open CSE550.Lib

/-! ### What an update leaves -/

/-- What is read of the entries, when the new entry reads like the old one. -/
theorem read_update {Value Reading : Type} (read : Value → Reading) {values : ℕ → Value}
    {other : ℕ} {changed : Value} (same : read changed = read (values other)) (index : ℕ) :
    read (Function.update values other changed index) = read (values index) := by
  by_cases equal : index = other
  · subst equal
    rw [Function.update_self, same]
  · rw [Function.update_of_ne equal]

namespace Group

section Updates

variable (group : Group) (server : ℕ) (proposer : Proposer) (queue : List Message) (index : ℕ)
  (client : Client)

@[simp] theorem setProposer_proposers :
    (group.setProposer server proposer).proposers =
      Function.update group.proposers server proposer := rfl

@[simp] theorem setProposer_acceptors :
    (group.setProposer server proposer).acceptors = group.acceptors := rfl

@[simp] theorem setProposer_proposerQueue :
    (group.setProposer server proposer).proposerQueue = group.proposerQueue := rfl

@[simp] theorem setProposer_clients :
    (group.setProposer server proposer).clients = group.clients := rfl

@[simp] theorem setProposer_stopped :
    (group.setProposer server proposer).stopped = group.stopped := rfl

@[simp] theorem setProposer_sent :
    (group.setProposer server proposer).sent = group.sent := rfl

@[simp] theorem setProposer_broadcasts :
    (group.setProposer server proposer).broadcasts = group.broadcasts := rfl

@[simp] theorem setProposerQueue_proposers :
    (group.setProposerQueue server queue).proposers = group.proposers := rfl

@[simp] theorem setProposerQueue_acceptors :
    (group.setProposerQueue server queue).acceptors = group.acceptors := rfl

@[simp] theorem setProposerQueue_proposerQueue :
    (group.setProposerQueue server queue).proposerQueue =
      Function.update group.proposerQueue server queue := rfl

@[simp] theorem setProposerQueue_acceptorQueue :
    (group.setProposerQueue server queue).acceptorQueue = group.acceptorQueue := rfl

@[simp] theorem setProposerQueue_clients :
    (group.setProposerQueue server queue).clients = group.clients := rfl

@[simp] theorem setProposerQueue_stopped :
    (group.setProposerQueue server queue).stopped = group.stopped := rfl

@[simp] theorem setProposerQueue_flight :
    (group.setProposerQueue server queue).flight = group.flight := rfl

@[simp] theorem setProposerQueue_sent :
    (group.setProposerQueue server queue).sent = group.sent := rfl

@[simp] theorem setProposerQueue_broadcasts :
    (group.setProposerQueue server queue).broadcasts = group.broadcasts := rfl

@[simp] theorem setAcceptorQueue_proposers :
    (group.setAcceptorQueue server queue).proposers = group.proposers := rfl

@[simp] theorem setAcceptorQueue_acceptors :
    (group.setAcceptorQueue server queue).acceptors = group.acceptors := rfl

@[simp] theorem setAcceptorQueue_acceptorQueue :
    (group.setAcceptorQueue server queue).acceptorQueue =
      Function.update group.acceptorQueue server queue := rfl

@[simp] theorem setAcceptorQueue_clients :
    (group.setAcceptorQueue server queue).clients = group.clients := rfl

@[simp] theorem setAcceptorQueue_stopped :
    (group.setAcceptorQueue server queue).stopped = group.stopped := rfl

@[simp] theorem setAcceptorQueue_sent :
    (group.setAcceptorQueue server queue).sent = group.sent := rfl

@[simp] theorem setAcceptorQueue_broadcasts :
    (group.setAcceptorQueue server queue).broadcasts = group.broadcasts := rfl

@[simp] theorem setClient_clients :
    (group.setClient index client).clients = Function.update group.clients index client := rfl

end Updates

end Group

/-! ### What a commit leaves -/

/-- The packets of an output. -/
def Output.packets : Output → List (ℕ × Message)
  | .broadcast msg written => written.map fun target => (target, msg)
  | _ => []

/-- The broadcast message of an output. -/
def Output.broadcasts : Output → List Message
  | .broadcast msg _ => [msg]
  | _ => []

/-- The acknowledgement of an output. -/
def Output.acks : Output → List Message
  | .clientAck msg => [msg]
  | _ => []

namespace Group

variable (group : Group) (server : ℕ)

section Commit

variable (result : Proposer × Output)

/-- Besides the proposer itself, a stretch of its loop changes the clients and the
histories. -/
theorem commit_eq :
    group.commit server result =
      { group with
        proposers := Function.update group.proposers server result.1
        clients := (group.emit server result.2).clients
        flight := group.flight ++ result.2.packets
        sent := group.sent ++ result.2.packets
        broadcasts := group.broadcasts ++ result.2.broadcasts } := by
  rcases result with ⟨_, output⟩
  cases output with
  | silent => simp [commit, setProposer, emit, Output.packets, Output.broadcasts]
  | broadcast => rfl
  | clientAck =>
      simp only [commit, setProposer, emit, Output.packets, Output.broadcasts, List.append_nil]
      split <;> rfl

@[simp] theorem commit_proposers :
    (group.commit server result).proposers = Function.update group.proposers server result.1 := by
  rw [commit_eq]

@[simp] theorem commit_acceptors :
    (group.commit server result).acceptors = group.acceptors := by
  rw [commit_eq]

@[simp] theorem commit_proposerQueue :
    (group.commit server result).proposerQueue = group.proposerQueue := by
  rw [commit_eq]

@[simp] theorem commit_acceptorQueue :
    (group.commit server result).acceptorQueue = group.acceptorQueue := by
  rw [commit_eq]

@[simp] theorem commit_stopped :
    (group.commit server result).stopped = group.stopped := by
  rw [commit_eq]

@[simp] theorem commit_sent :
    (group.commit server result).sent = group.sent ++ result.2.packets := by
  rw [commit_eq]

@[simp] theorem commit_flight :
    (group.commit server result).flight = group.flight ++ result.2.packets := by
  rw [commit_eq]

@[simp] theorem commit_broadcasts :
    (group.commit server result).broadcasts = group.broadcasts ++ result.2.broadcasts := by
  rw [commit_eq]

/-- Only the acknowledgements of the client being served change. -/
theorem commit_clients (index : ℕ) :
    (group.commit server result).clients index =
      if (group.proposers server).client = some index then
        { group.clients index with acks := (group.clients index).acks ++ result.2.acks }
      else group.clients index := by
  rcases result with ⟨_, output⟩
  cases output with
  | silent => simp [commit, setProposer, emit, Output.acks]
  | broadcast => simp [commit, setProposer, emit, transmit, Output.acks]
  | clientAck msg =>
      simp only [commit, setProposer, emit, Output.acks]
      cases serving : (group.proposers server).client with
      | none => simp
      | some served =>
          by_cases same : served = index
          · subst same
            simp [setClient]
          · simp [setClient, same, Ne.symm same]

end Commit

section CommitAcceptor

variable (result : Acceptor × Option (ℕ × Message))

@[simp] theorem commitAcceptor_acceptors :
    (group.commitAcceptor server result).acceptors =
      Function.update group.acceptors server result.1 := rfl

@[simp] theorem commitAcceptor_sent :
    (group.commitAcceptor server result).sent = group.sent ++ result.2.toList := rfl

@[simp] theorem commitAcceptor_proposers :
    (group.commitAcceptor server result).proposers = group.proposers := rfl

@[simp] theorem commitAcceptor_acceptorQueue :
    (group.commitAcceptor server result).acceptorQueue = group.acceptorQueue := rfl

@[simp] theorem commitAcceptor_broadcasts :
    (group.commitAcceptor server result).broadcasts = group.broadcasts := rfl

@[simp] theorem commitAcceptor_stopped :
    (group.commitAcceptor server result).stopped = group.stopped := rfl

@[simp] theorem commitAcceptor_clients :
    (group.commitAcceptor server result).clients = group.clients := rfl

end CommitAcceptor

end Group

/-! ### The environment -/

/-- A step that touches only queues, messages in flight and the list of stopped
servers. -/
structure NetworkMove (group next : Group) : Prop where
  proposers : next.proposers = group.proposers
  acceptors : next.acceptors = group.acceptors
  clients : next.clients = group.clients
  sent : next.sent = group.sent
  broadcasts : next.broadcasts = group.broadcasts
  stopped : ∀ server, group.stopped server = true → next.stopped server = true
  flight : ∀ packet ∈ next.flight, packet ∈ group.flight
  proposerQueue : ∀ server, ∀ msg ∈ next.proposerQueue server,
    msg ∈ group.proposerQueue server ∨
      ((server, msg) ∈ group.flight ∧ msg.msgType ∉ acceptorMsgTypes) ∨ IsExit msg
  acceptorQueue : ∀ server, ∀ msg ∈ next.acceptorQueue server,
    msg ∈ group.acceptorQueue server ∨
      ((server, msg) ∈ group.flight ∧ msg.msgType ∉ proposerMsgTypes) ∨ IsExit msg

theorem mem_connectionProcess_proposer {dice : Dice} {msg pushed : Message}
    (member : pushed ∈ (connectionProcess dice msg).1) :
    pushed = msg ∧ msg.msgType ∉ acceptorMsgTypes := by
  cases msgType : msg.msgType <;> cases dice <;>
    simp_all [connectionProcess, acceptorMsgTypes]

theorem mem_connectionProcess_acceptor {dice : Dice} {msg pushed : Message}
    (member : pushed ∈ (connectionProcess dice msg).2) :
    pushed = msg ∧ msg.msgType ∉ proposerMsgTypes := by
  cases msgType : msg.msgType <;> cases dice <;>
    simp_all [connectionProcess, proposerMsgTypes]

/-! ### The proposer -/

/-- The message is a reply PROPOSING counts. -/
structure CountedReply (proposer : Proposer) (msg : Message) : Prop where
  msgType : msg.msgType = .PREPARE_ACK ∨ msg.msgType = .PREPARE_NACK
  clientId : msg.clientId ≠ none
  inst : msg.inst = proposer.inst
  fresh : msg.signature ∉ proposer.msgHistory

namespace Proposer

/-- The proposer with one more signature in its history. -/
def remember (proposer : Proposer) (msg : Message) : Proposer :=
  { proposer with msgHistory := msg.signature :: proposer.msgHistory }

end Proposer

/-- The outcomes of taking a message off the queue in PROPOSING. -/
inductive ProposingOutcome (groupSize : ℕ) (proposer : Proposer) (address : ℕ) (msg : Message) :
    Proposer → Prop
  | refused (missing : msg.clientId = none) :
      ProposingOutcome groupSize proposer address msg (proposer.abandon groupSize)
  | unchanged : ProposingOutcome groupSize proposer address msg proposer
  | passed (reply : msg.msgType ∈ proposerMsgTypes) :
      ProposingOutcome groupSize proposer address msg (proposer.remember msg)
  | exited (isExit : msg.msgType = .EXIT) (inst : msg.inst = proposer.inst) :
      ProposingOutcome groupSize proposer address msg
        ({ proposer with done := true }.abandon groupSize)
  | raised (other : msg.msgType ∉ proposerMsgTypes) (notExit : msg.msgType ≠ .EXIT)
      (inst : msg.inst = proposer.inst) :
      ProposingOutcome groupSize proposer address msg (proposer.raise .wrongMessage)
  | counted (reply : CountedReply proposer msg) (few : proposer.responseCnt + 1 ≤ groupSize / 2) :
      ProposingOutcome groupSize proposer address msg
        ((proposer.remember msg).countReply address msg)
  | blocked (reply : CountedReply proposer msg) (many : groupSize / 2 < proposer.responseCnt + 1)
      (held : ((proposer.remember msg).countReply address msg).learn.blocked) :
      ProposingOutcome groupSize proposer address msg
        (((proposer.remember msg).countReply address msg).learn.abandon groupSize)
  | won (reply : CountedReply proposer msg) (many : groupSize / 2 < proposer.responseCnt + 1)
      (free : ¬ ((proposer.remember msg).countReply address msg).learn.blocked) :
      ProposingOutcome groupSize proposer address msg
        { ((proposer.remember msg).countReply address msg).learn with state := .ACCEPT }

private theorem closeProposing_countReply {groupSize : ℕ} {proposer : Proposer} {address : ℕ}
    {msg : Message} (reply : CountedReply proposer msg) :
    ProposingOutcome groupSize proposer address msg
      (((proposer.remember msg).countReply address msg).closeProposing groupSize) := by
  unfold Proposer.closeProposing Proposer.leaveProposing
  split
  · exact .counted reply ‹_›
  · have many : groupSize / 2 < proposer.responseCnt + 1 := by
      simp_all [Proposer.countReply, Proposer.remember]
    split
    · exact .blocked reply many ‹_›
    · exact .won reply many ‹_›

theorem proposing_outcome (groupSize : ℕ) (proposer : Proposer) (address : ℕ) (msg : Message) :
    ProposingOutcome groupSize proposer address msg
      (proposer.proposing groupSize address msg) := by
  unfold Proposer.proposing
  by_cases missing : msg.clientId = none
  · rw [if_pos missing]
    exact .refused missing
  rw [if_neg missing]
  by_cases reply : msg.msgType ∈ proposerMsgTypes
  · by_cases seen : msg.signature ∈ proposer.msgHistory
    · simp only [ifDup, reply, seen, if_true]
      exact .unchanged
    · simp only [ifDup, reply, seen, if_true, if_false]
      change ProposingOutcome groupSize proposer address msg
        ((proposer.remember msg).dispatchProposing groupSize address msg)
      unfold Proposer.dispatchProposing
      by_cases elsewhere : msg.inst = proposer.inst
      · rw [if_neg (show ¬ msg.inst ≠ (proposer.remember msg).inst from not_not.mpr elsewhere)]
        cases kind : msg.msgType with
        | PREPARE_ACK => exact closeProposing_countReply ⟨.inl kind, missing, elsewhere, seen⟩
        | PREPARE_NACK => exact closeProposing_countReply ⟨.inr kind, missing, elsewhere, seen⟩
        | ACCEPT_ACK => exact .passed reply
        | PREPARE | ACCEPT | CLIENT | CLIENT_ACK | EXIT =>
            simp [kind, proposerMsgTypes] at reply
      · rw [if_pos (show msg.inst ≠ (proposer.remember msg).inst from elsewhere)]
        exact .passed reply
  · simp only [ifDup, reply, if_false]
    unfold Proposer.dispatchProposing
    by_cases elsewhere : msg.inst = proposer.inst
    · rw [if_neg (not_not.mpr elsewhere)]
      cases kind : msg.msgType with
      | EXIT => exact .exited kind elsewhere
      | PREPARE | ACCEPT | CLIENT | CLIENT_ACK =>
          exact .raised reply (by simp [kind]) elsewhere
      | PREPARE_ACK | PREPARE_NACK | ACCEPT_ACK => simp [kind, proposerMsgTypes] at reply
    · rw [if_pos elsewhere]
      exact .unchanged

/-- The message is an acknowledgement ACCEPTING counts. -/
structure CountedAck (proposer : Proposer) (msg : Message) : Prop where
  msgType : msg.msgType = .ACCEPT_ACK
  proposal : msg.proposal = proposer.proposerNum
  inst : msg.inst = proposer.inst
  fresh : msg.signature ∉ proposer.msgHistory

namespace Proposer

/-- The proposer once the acknowledgement that completes its majority is
counted and its number is raised, in the state it goes on with. -/
def won (proposer : Proposer) (groupSize : ℕ) (msg : Message) (state : ProposerState) :
    Proposer :=
  { proposer.remember msg with
    responseCnt := proposer.responseCnt + 1
    proposerNum := proposer.proposerNum + groupSize
    state := state }

end Proposer

/-- The outcomes of taking a message off the queue in ACCEPTING. -/
inductive AcceptingOutcome (groupSize serverId : ℕ) (proposer : Proposer) (msg : Message) :
    Proposer × Output → Prop
  | unchanged : AcceptingOutcome groupSize serverId proposer msg (proposer, .silent)
  | passed (reply : msg.msgType ∈ proposerMsgTypes) :
      AcceptingOutcome groupSize serverId proposer msg (proposer.remember msg, .silent)
  | exited : AcceptingOutcome groupSize serverId proposer msg
      ({ proposer with done := true }, .silent)
  | raisedLater (later : ¬ msg.inst ≤ proposer.inst) (changed : Proposer)
      (same : changed = proposer ∨ changed = proposer.remember msg)
      (remembered : changed = proposer.remember msg → msg.msgType ∈ proposerMsgTypes) :
      AcceptingOutcome groupSize serverId proposer msg (changed.raise .laterInstance, .silent)
  | raisedOther (other : msg.msgType ∉ proposerMsgTypes) (notExit : msg.msgType ≠ .EXIT)
      (inst : msg.inst = proposer.inst) :
      AcceptingOutcome groupSize serverId proposer msg (proposer.raise .wrongMessage, .silent)
  | counted (ack : CountedAck proposer msg) (few : proposer.responseCnt + 1 ≤ groupSize / 2) :
      AcceptingOutcome groupSize serverId proposer msg
        ({ proposer.remember msg with responseCnt := proposer.responseCnt + 1 }, .silent)
  | lost (error : Raised) (ack : CountedAck proposer msg)
      (many : groupSize / 2 < proposer.responseCnt + 1) (own : proposer.ownLearnt)
      (kind : error = .clientSocket ∨ (error = .clientIdMissing ∧ msg.clientId = none)) :
      AcceptingOutcome groupSize serverId proposer msg
        ((proposer.won groupSize msg .IDLE).raise error, .silent)
  | own (ack : CountedAck proposer msg) (many : groupSize / 2 < proposer.responseCnt + 1)
      (own : proposer.ownLearnt) (present : msg.clientId ≠ none) :
      AcceptingOutcome groupSize serverId proposer msg
        ((proposer.won groupSize msg .IDLE).resolve msg,
          .clientAck (proposer.clientAckMsg serverId msg))
  | other (ack : CountedAck proposer msg) (many : groupSize / 2 < proposer.responseCnt + 1)
      (notOwn : ¬ proposer.ownLearnt) :
      AcceptingOutcome groupSize serverId proposer msg
        ((proposer.won groupSize msg .READY).resolve msg, .silent)

private theorem leaveAccepting_outcome {groupSize serverId : ℕ} {proposer : Proposer}
    {msg : Message} (clientGone : Bool) (ack : CountedAck proposer msg)
    (many : groupSize / 2 < proposer.responseCnt + 1) :
    AcceptingOutcome groupSize serverId proposer msg
      ({ proposer.remember msg with
          responseCnt := proposer.responseCnt + 1 }.leaveAccepting groupSize serverId msg
            clientGone) := by
  unfold Proposer.leaveAccepting
  by_cases own : proposer.ownLearnt
  · rw [if_pos (by exact own)]
    by_cases missing : msg.clientId = none
    · rw [if_pos missing]
      exact .lost .clientIdMissing ack many own (.inr ⟨rfl, missing⟩)
    · rw [if_neg missing]
      cases clientGone with
      | true => exact .lost .clientSocket ack many own (.inl rfl)
      | false => exact .own ack many own missing
  · rw [if_neg (by exact own)]
    exact .other ack many own

theorem accepting_outcome (groupSize serverId : ℕ) (proposer : Proposer) (msg : Message)
    (clientGone : Bool) :
    AcceptingOutcome groupSize serverId proposer msg
      (proposer.accepting groupSize serverId msg clientGone) := by
  unfold Proposer.accepting
  by_cases reply : msg.msgType ∈ proposerMsgTypes
  · by_cases seen : msg.signature ∈ proposer.msgHistory
    · simp only [ifDup, reply, seen, if_true]
      exact .unchanged
    · simp only [ifDup, reply, seen, if_true, if_false]
      change AcceptingOutcome groupSize serverId proposer msg
        ((proposer.remember msg).dispatchAccepting groupSize serverId msg clientGone)
      unfold Proposer.dispatchAccepting
      by_cases elsewhere : msg.inst = proposer.inst
      · rw [if_neg (show ¬ msg.inst ≠ (proposer.remember msg).inst from not_not.mpr elsewhere)]
        cases kind : msg.msgType with
        | ACCEPT_ACK =>
            dsimp only
            split
            · have ack : CountedAck proposer msg := ⟨kind, ‹_›, elsewhere, seen⟩
              split
              · exact .counted ack ‹_›
              · exact leaveAccepting_outcome clientGone ack (Nat.lt_of_not_le ‹_›)
            · exact .passed reply
        | PREPARE_ACK | PREPARE_NACK => exact .passed reply
        | PREPARE | ACCEPT | CLIENT | CLIENT_ACK | EXIT =>
            simp [kind, proposerMsgTypes] at reply
      · rw [if_pos (show msg.inst ≠ (proposer.remember msg).inst from elsewhere)]
        split
        · exact .passed reply
        · rename_i notBelow
          refine .raisedLater (fun le => ?_) _ (.inr rfl) (fun _ => reply)
          exact notBelow (lt_of_le_of_ne le elsewhere)
  · simp only [ifDup, reply, if_false]
    change AcceptingOutcome groupSize serverId proposer msg
      (proposer.dispatchAccepting groupSize serverId msg clientGone)
    unfold Proposer.dispatchAccepting
    by_cases elsewhere : msg.inst = proposer.inst
    · rw [if_neg (not_not.mpr elsewhere)]
      cases kind : msg.msgType with
      | EXIT => exact .exited
      | PREPARE | ACCEPT | CLIENT | CLIENT_ACK =>
          exact .raisedOther reply (by simp [kind]) elsewhere
      | PREPARE_ACK | PREPARE_NACK | ACCEPT_ACK => simp [kind, proposerMsgTypes] at reply
    · rw [if_pos elsewhere]
      split
      · exact .unchanged
      · rename_i notBelow
        refine .raisedLater (fun le => ?_) _ (.inl rfl) (fun same => ?_)
        · exact notBelow (lt_of_le_of_ne le elsewhere)
        · have lengths := congrArg (fun p => p.msgHistory.length) same
          simp [Proposer.remember] at lengths

/-- The moves of a proposer that has a client command: the message it took off
its queue, if any, and the result. -/
inductive ProposerMove (groupSize serverId : ℕ) (proposer : Proposer) :
    Option Message → Proposer × Output → Prop
  | ready (fails : List ℕ) (state : proposer.state = .READY) :
      ProposerMove groupSize serverId proposer none (proposer.ready serverId fails)
  | accept (fails : List ℕ) (state : proposer.state = .ACCEPT)
      (present : proposer.learntClient ≠ none) :
      ProposerMove groupSize serverId proposer none
        ({ proposer with
            state := .ACCEPTING
            responseCnt := 0
            serverConnections := (sendToAcceptors fails proposer.serverConnections).2 },
          .broadcast (proposer.acceptMsg serverId)
            (sendToAcceptors fails proposer.serverConnections).1)
  | acceptRaised (state : proposer.state = .ACCEPT) (missing : proposer.learntClient = none) :
      ProposerMove groupSize serverId proposer none (proposer.raise .clientIdMissing, .silent)
  | proposingTimeout (state : proposer.state = .PROPOSING) :
      ProposerMove groupSize serverId proposer none (proposer.abandon groupSize, .silent)
  | acceptingTimeout (state : proposer.state = .ACCEPTING) :
      ProposerMove groupSize serverId proposer none
        (proposer.acceptingTimeout groupSize, .silent)
  | proposing (address : ℕ) (msg : Message) (state : proposer.state = .PROPOSING)
      (after : Proposer) (outcome : ProposingOutcome groupSize proposer address msg after) :
      ProposerMove groupSize serverId proposer (some msg) (after, .silent)
  | accepting (msg : Message) (state : proposer.state = .ACCEPTING) (result : Proposer × Output)
      (outcome : AcceptingOutcome groupSize serverId proposer msg result) :
      ProposerMove groupSize serverId proposer (some msg) result

theorem ProposerMove.ofAccept (groupSize serverId : ℕ) {proposer : Proposer} (fails : List ℕ)
    (state : proposer.state = .ACCEPT) :
    ProposerMove groupSize serverId proposer none (proposer.accept serverId fails) := by
  unfold Proposer.accept
  split
  · exact .acceptRaised state ‹_›
  · exact .accept fails state ‹_›

/-- What `max(pre_nacks)` returns is an entry that no other entry exceeds. -/
theorem maxNack_spec {nacks : List NackMsg} {best : NackMsg} (found : maxNack nacks = some best) :
    best ∈ nacks ∧ ∀ nack ∈ nacks, nack.proposal ≤ best.proposal := by
  have fold : ∀ (rest : List NackMsg) (first : NackMsg),
      let last := rest.foldl (fun best nack => if best.less nack then nack else best) first
      last ∈ first :: rest ∧ ∀ nack ∈ first :: rest, nack.proposal ≤ last.proposal := by
    intro rest
    induction rest with
    | nil => intro first; simp
    | cons next rest inductionHypothesis =>
        intro first
        simp only [List.foldl_cons]
        by_cases less : first.less next
        · obtain ⟨member, bound⟩ := inductionHypothesis next
          simp only [if_pos less] at *
          refine ⟨List.mem_cons_of_mem _ member, ?_⟩
          have step : first.proposal ≤ next.proposal := by
            rcases less with below | ⟨same, _⟩
            · exact below.le
            · exact same.le
          intro nack nackMember
          rcases List.mem_cons.mp nackMember with rfl | later
          · exact step.trans (bound next (by simp))
          · exact bound nack later
        · obtain ⟨member, bound⟩ := inductionHypothesis first
          simp only [if_neg less] at *
          have step : next.proposal ≤ first.proposal :=
            not_lt.mp fun below => less (.inl below)
          refine ⟨?_, ?_⟩
          · rcases List.mem_cons.mp member with same | later
            · exact List.mem_cons.mpr (.inl same)
            · exact List.mem_cons_of_mem _ (List.mem_cons_of_mem _ later)
          · intro nack nackMember
            rcases List.mem_cons.mp nackMember with rfl | rest'
            · exact bound nack (by simp)
            · rcases List.mem_cons.mp rest' with rfl | later
              · exact step.trans (bound first (by simp))
              · exact bound nack (List.mem_cons_of_mem _ later)
  cases nacks with
  | nil => simp [maxNack] at found
  | cons first rest =>
      obtain rfl := Option.some.inj found
      exact fold rest first

/-- `learn` either finds no PREPARE_NACK or takes the value of a stored one. -/
theorem learn_cases (proposer : Proposer) :
    (proposer.preNacks = [] ∧ proposer.learn = proposer) ∨
      ∃ nack ∈ proposer.preNacks, maxNack proposer.preNacks = some nack ∧ proposer.learn =
        { proposer with learntCommand := nack.msg.value, learntClient := nack.msg.clientId } := by
  unfold Proposer.learn
  cases found : maxNack proposer.preNacks with
  | none =>
      left
      refine ⟨?_, rfl⟩
      cases nacks : proposer.preNacks with
      | nil => rfl
      | cons first rest => simp [nacks, maxNack] at found
  | some nack => exact .inr ⟨nack, (maxNack_spec found).1, rfl, rfl⟩

/-- `learn` sets the learnt command and client and nothing else. -/
theorem learn_eq (proposer : Proposer) : ∃ value clientId, proposer.learn =
    { proposer with learntCommand := value, learntClient := clientId } := by
  rcases learn_cases proposer with ⟨_, same⟩ | ⟨nack, _, _, same⟩
  · exact ⟨proposer.learntCommand, proposer.learntClient, same⟩
  · exact ⟨_, _, same⟩

/-- On a command, `execute_command` fails in an assertion only. -/
theorem executeCommand_error {lockSet : List ℤ} {command : Command} {error : Raised}
    (result : executeCommand lockSet (.command command) = .error error) :
    error = .executeAssertion := by
  simp only [executeCommand] at result
  cases kind : command.commandType with
  | LOCK =>
      simp only [kind] at result
      split at result <;> simp_all
  | UNLOCK =>
      simp only [kind] at result
      split at result
      · split at result <;> simp_all
      · simp_all
  | NONE => simp_all

/-- The proposer after the resolution is recorded and written to the log. -/
def Proposer.recorded (proposer : Proposer) (msg : Message) : Proposer :=
  { proposer with
    instanceResolutions :=
      proposer.instanceResolutions.insert proposer.inst (proposer.learntCommand, msg.clientId)
    logfile :=
      proposer.logfile ++ [⟨proposer.inst, proposer.learntClient, proposer.learntCommand⟩] }

/-- The proposer after the recorded command was executed. -/
def Proposer.executed (proposer : Proposer) (msg : Message) (lockSet : List ℤ) : Proposer :=
  { proposer.recorded msg with
    lockSet := lockSet
    inst := proposer.inst + 1
    learntCommand := .command proposer.clientCommand
    learntClient := some proposer.origClientId
    status := if proposer.done ∧ proposer.state = .IDLE then .exited else proposer.status }

theorem resolve_cases (proposer : Proposer) (msg : Message) :
    (∃ error, executeCommand proposer.lockSet proposer.learntCommand = .error error ∧
      proposer.resolve msg = (proposer.recorded msg).raise error) ∨
    ∃ lockSet, executeCommand proposer.lockSet proposer.learntCommand = .ok lockSet ∧
      proposer.resolve msg = proposer.executed msg lockSet := by
  unfold Proposer.resolve
  cases result : executeCommand proposer.lockSet proposer.learntCommand with
  | error error => exact .inl ⟨error, rfl, rfl⟩
  | ok lockSet => exact .inr ⟨lockSet, rfl, rfl⟩

@[simp] theorem resolve_state (proposer : Proposer) (msg : Message) :
    (proposer.resolve msg).state = proposer.state := by
  rcases resolve_cases proposer msg with ⟨error, _, same⟩ | ⟨lockSet, _, same⟩ <;>
    rw [same] <;> rfl

@[simp] theorem resolve_proposerNum (proposer : Proposer) (msg : Message) :
    (proposer.resolve msg).proposerNum = proposer.proposerNum := by
  rcases resolve_cases proposer msg with ⟨error, _, same⟩ | ⟨lockSet, _, same⟩ <;>
    rw [same] <;> rfl

@[simp] theorem resolve_msgHistory (proposer : Proposer) (msg : Message) :
    (proposer.resolve msg).msgHistory = proposer.msgHistory := by
  rcases resolve_cases proposer msg with ⟨error, _, same⟩ | ⟨lockSet, _, same⟩ <;>
    rw [same] <;> rfl

@[simp] theorem resolve_serverConnections (proposer : Proposer) (msg : Message) :
    (proposer.resolve msg).serverConnections = proposer.serverConnections := by
  rcases resolve_cases proposer msg with ⟨error, _, same⟩ | ⟨lockSet, _, same⟩ <;>
    rw [same] <;> rfl

@[simp] theorem resolve_instanceResolutions (proposer : Proposer) (msg : Message) :
    (proposer.resolve msg).instanceResolutions =
      proposer.instanceResolutions.insert proposer.inst (proposer.learntCommand, msg.clientId) := by
  rcases resolve_cases proposer msg with ⟨error, _, same⟩ | ⟨lockSet, _, same⟩ <;>
    rw [same] <;> rfl

/-- The connections written to and those kept by a broadcast. -/
theorem sendToAcceptors_sublist (fails : List ℕ) : ∀ connections : List ℕ,
    (sendToAcceptors fails connections).1.Sublist connections ∧
      (sendToAcceptors fails connections).2.Sublist connections
  | [] => by simp [sendToAcceptors]
  | [connection] => by
      unfold sendToAcceptors
      split <;> simp
  | connection :: following :: rest => by
      unfold sendToAcceptors
      split
      · obtain ⟨written, kept⟩ := sendToAcceptors_sublist fails rest
        exact ⟨(written.cons _).cons _, (kept.cons_cons _).cons _⟩
      · obtain ⟨written, kept⟩ := sendToAcceptors_sublist fails (following :: rest)
        exact ⟨written.cons_cons _, kept.cons_cons _⟩

/-! ### The acceptor -/

/-- The replies of the two request handlers. -/
inductive RequestOutcome (serverId : ℕ) (acceptHistory : AcceptHistory) (msg : Message) :
    Message → AcceptHistory → Prop
  /-- The first PREPARE for an instance the acceptor has no record of. -/
  | granted (prepare : msg.msgType = .PREPARE) (unseen : acceptHistory.lookup msg.inst = none) :
      RequestOutcome serverId acceptHistory msg
        { msgType := .PREPARE_ACK
          proposal := msg.proposal
          inst := msg.inst
          value := .ofClientId msg.clientId
          originId := some serverId }
        (acceptHistory.insert msg.inst ⟨msg.proposal, noNumber, .none, none⟩)
  | promised (prepare : msg.msgType = .PREPARE) (record : AcceptRecord)
      (known : acceptHistory.lookup msg.inst = some record) (higher : record.prep < msg.proposal)
      (nothing : record.accp = noNumber) :
      RequestOutcome serverId acceptHistory msg
        { msgType := .PREPARE_ACK
          proposal := msg.proposal
          inst := msg.inst
          value := record.accv
          originId := some serverId
          clientId := record.cid
          rProposal := record.accp }
        (acceptHistory.insert msg.inst { record with prep := msg.proposal })
  | refused (prepare : msg.msgType = .PREPARE) (record : AcceptRecord)
      (known : acceptHistory.lookup msg.inst = some record) (higher : record.prep < msg.proposal)
      (something : record.accp ≠ noNumber) :
      RequestOutcome serverId acceptHistory msg
        { msgType := .PREPARE_NACK
          proposal := msg.proposal
          inst := msg.inst
          value := record.accv
          originId := some serverId
          clientId := record.cid
          rProposal := record.accp }
        (acceptHistory.insert msg.inst { record with prep := msg.proposal })
  | accepted (accept : msg.msgType ≠ .PREPARE)
      (open_ : ∀ record, acceptHistory.lookup msg.inst = some record →
        record.prep ≤ msg.proposal) :
      RequestOutcome serverId acceptHistory msg (acceptAck serverId msg)
        (acceptHistory.insert msg.inst (acceptedRecord msg))

theorem handleRequest_outcome {serverId : ℕ} {acceptHistory after : AcceptHistory}
    {msg reply : Message}
    (handled : handleRequest serverId acceptHistory msg = (some reply, after)) :
    RequestOutcome serverId acceptHistory msg reply after := by
  unfold handleRequest at handled
  by_cases prepare : msg.msgType = .PREPARE
  · rw [if_pos prepare] at handled
    unfold handlePrepare at handled
    cases known : acceptHistory.lookup msg.inst with
    | none =>
        simp only [known, Prod.mk.injEq, Option.some.injEq] at handled
        obtain ⟨rfl, rfl⟩ := handled
        exact .granted prepare known
    | some record =>
        simp only [known] at handled
        split at handled
        · simp only [Prod.mk.injEq, Option.some.injEq] at handled
          obtain ⟨rfl, rfl⟩ := handled
          by_cases nothing : record.accp = noNumber
          · have outcome : RequestOutcome serverId acceptHistory msg _ _ :=
              .promised prepare record known ‹_› nothing
            simpa [nothing] using outcome
          · have outcome : RequestOutcome serverId acceptHistory msg _ _ :=
              .refused prepare record known ‹_› nothing
            simpa [nothing] using outcome
        · simp at handled
  · rw [if_neg prepare] at handled
    unfold handleAccept at handled
    cases known : acceptHistory.lookup msg.inst with
    | none =>
        simp only [known, Prod.mk.injEq, Option.some.injEq] at handled
        obtain ⟨rfl, rfl⟩ := handled
        exact .accepted prepare (by simp [known])
    | some record =>
        simp only [known] at handled
        split at handled
        · simp only [Prod.mk.injEq, Option.some.injEq] at handled
          obtain ⟨rfl, rfl⟩ := handled
          refine .accepted prepare fun found same => ?_
          obtain rfl := Option.some.inj (known.symm.trans same)
          assumption
        · simp at handled

/-- The record a reply leaves for its instance; other instances keep theirs. -/
theorem RequestOutcome.lookup_cases {serverId : ℕ} {before after : AcceptHistory}
    {msg reply : Message} (outcome : RequestOutcome serverId before msg reply after)
    (inst : WithBot ℕ) :
    (inst ≠ msg.inst ∧ after.lookup inst = before.lookup inst) ∨
      (inst = msg.inst ∧ ∃ record, after.lookup inst = some record) := by
  by_cases same : inst = msg.inst
  · subst same
    right
    cases outcome <;> exact ⟨rfl, _, AList.lookup_insert _⟩
  · left
    cases outcome <;> exact ⟨same, AList.lookup_insert_ne same⟩

/-- A reply lowers no promise, and no accepted number that its promise bounds. -/
theorem RequestOutcome.raises {serverId : ℕ} {before after : AcceptHistory}
    {msg reply : Message} (outcome : RequestOutcome serverId before msg reply after)
    {inst : WithBot ℕ} {earlier : AcceptRecord} (found : before.lookup inst = some earlier) :
    ∃ later, after.lookup inst = some later ∧ earlier.prep ≤ later.prep ∧
      (earlier.accp ≤ earlier.prep → earlier.accp ≤ later.accp) := by
  rcases outcome.lookup_cases inst with ⟨_, same⟩ | ⟨here, _⟩
  · exact ⟨earlier, same.trans found, le_rfl, fun _ => le_rfl⟩
  · subst here
    cases outcome with
    | granted prepare unseen => exact absurd (unseen.symm.trans found) (by simp)
    | promised prepare old known higher | refused prepare old known higher =>
        have same := Option.some.inj (known.symm.trans found)
        subst same
        exact ⟨_, AList.lookup_insert _, higher.le, fun _ => le_rfl⟩
    | accepted notPrepare notBelow =>
        have bound := notBelow earlier found
        exact ⟨_, AList.lookup_insert _, bound, fun ordered => ordered.trans bound⟩

/-- The acceptor with one more signature in its history. -/
def Acceptor.remember (acceptor : Acceptor) (msg : Message) : Acceptor :=
  { acceptor with msgHistory := msg.signature :: acceptor.msgHistory }

/-- The outcomes of an acceptor's turn. -/
inductive AcceptorOutcome (serverId : ℕ) (acceptor : Acceptor) (msg : Message) :
    Acceptor × Option (ℕ × Message) → Prop
  | duplicate (request : msg.msgType ∈ acceptorMsgTypes)
      (seen : msg.signature ∈ acceptor.msgHistory) :
      AcceptorOutcome serverId acceptor msg (acceptor, none)
  | silent (request : msg.msgType ∈ acceptorMsgTypes)
      (fresh : msg.signature ∉ acceptor.msgHistory) :
      AcceptorOutcome serverId acceptor msg (acceptor.remember msg, none)
  | replied (request : msg.msgType ∈ acceptorMsgTypes)
      (fresh : msg.signature ∉ acceptor.msgHistory) (reply : Message) (after : AcceptHistory)
      (handled : RequestOutcome serverId acceptor.acceptHistory msg reply after)
      (proposer : ℕ) (origin : msg.originId = some proposer)
      (connected : proposer ∈ acceptor.serverConnections) :
      AcceptorOutcome serverId acceptor msg
        ({ acceptor.remember msg with acceptHistory := after }, some (proposer, reply))
  | ended (status : ProcessStatus) (request : msg.msgType ∉ acceptorMsgTypes) :
      AcceptorOutcome serverId acceptor msg ({ acceptor with status }, none)
  | failed (status : ProcessStatus) (request : msg.msgType ∈ acceptorMsgTypes)
      (fresh : msg.signature ∉ acceptor.msgHistory) :
      AcceptorOutcome serverId acceptor msg ({ acceptor.remember msg with status }, none)

theorem process_outcome (serverId : ℕ) (acceptor : Acceptor) (msg : Message) (delivered : Bool) :
    AcceptorOutcome serverId acceptor msg (acceptor.process serverId msg delivered) := by
  unfold Acceptor.process
  by_cases request : msg.msgType ∈ acceptorMsgTypes
  · rw [if_pos request]
    by_cases seen : msg.signature ∈ acceptor.msgHistory
    · rw [if_pos seen]
      exact .duplicate request seen
    · rw [if_neg seen]
      rcases handled : handleRequest serverId acceptor.acceptHistory msg with ⟨_ | reply, after⟩
      · exact .silent request seen
      · simp only [Acceptor.respond]
        cases origin : msg.originId with
        | none => exact .failed _ request seen
        | some proposer =>
            by_cases connected : proposer ∈ acceptor.serverConnections
            · simp only [connected, if_true]
              cases delivered with
              | true =>
                  exact .replied request seen reply after (handleRequest_outcome handled) proposer
                    origin connected
              | false => exact .failed _ request seen
            · simp only [connected, if_false]
              exact .failed _ request seen
  · rw [if_neg request]
    split
    · exact .ended _ request
    · exact .ended _ request

/-! ### One step of the group -/

/-- The steps of the group, by the process that moves. -/
inductive Transition (cfg : Config) (group : Group) (label : Label) : Group → Prop
  | network (next : Group) (move : NetworkMove group next) : Transition cfg group label next
  | clientSend (index : ℕ) (known : index < cfg.clientCount)
      (ready : (group.clients index).got = (group.clients index).sent)
      (more : (group.clients index).sent < (cfg.commands index).length)
      (named : label = .clientSend index) :
      Transition cfg group label (group.setClient index
        { group.clients index with sent := (group.clients index).sent + 1 })
  | clientRecv (index : ℕ) (known : index < cfg.clientCount)
      (more : (group.clients index).got < (group.clients index).acks.length) :
      Transition cfg group label (group.setClient index
        { group.clients index with got := (group.clients index).got + 1 })
  | acceptClient (server index : ℕ) (runs : group.proposerRuns cfg server)
      (idle : (group.proposers server).state = .IDLE)
      (free : (group.proposers server).client = none) (known : index < cfg.clientCount)
      (target : cfg.clientServer index = server)
      (waits : (group.clients index).connection = .waiting) :
      Transition cfg group label
        ((group.setClient index
          { group.clients index with connection := .serving }).setProposer server
            { group.proposers server with client := some index })
  | closeClient (server index : ℕ) (runs : group.proposerRuns cfg server)
      (idle : (group.proposers server).state = .IDLE)
      (serving : (group.proposers server).client = some index) :
      Transition cfg group label
        ((group.setClient index
          { group.clients index with connection := .closed }).setProposer server
            { group.proposers server with client := none })
  | recvClient (server index : ℕ) (command : Command) (runs : group.proposerRuns cfg server)
      (idle : (group.proposers server).state = .IDLE)
      (serving : (group.proposers server).client = some index)
      (unread : (group.clients index).read < (group.clients index).sent)
      (next : (cfg.commands index)[(group.clients index).read]? = some command) :
      Transition cfg group label
        ((group.setClient index
          { group.clients index with read := (group.clients index).read + 1 }).setProposer server
            ((group.proposers server).receiveCommand command (cfg.clientId index)))
  | idleExit (server : ℕ) (msg : Message) (rest : List Message)
      (runs : group.proposerRuns cfg server)
      (idle : (group.proposers server).state = .IDLE)
      (queue : group.proposerQueue server = msg :: rest) :
      Transition cfg group label
        ((group.setProposerQueue server rest).setProposer server
          { group.proposers server with status := .exited, done := true })
  | proposer (server : ℕ) (queue : List Message) (taken : Option Message)
      (result : Proposer × Output) (runs : group.proposerRuns cfg server)
      (fewer : ∀ msg ∈ queue, msg ∈ group.proposerQueue server)
      (queued : ∀ msg ∈ taken, msg ∈ group.proposerQueue server)
      (move : ProposerMove cfg.groupSize server (group.proposers server) taken result)
      (named : ∀ msg ∈ taken, group.proposerQueue server = msg :: queue ∧
        ∃ address clientGone, label = .get server address clientGone) :
      Transition cfg group label ((group.setProposerQueue server queue).commit server result)
  | acceptor (server : ℕ) (msg : Message) (rest : List Message)
      (result : Acceptor × Option (ℕ × Message)) (runs : group.acceptorRuns cfg server)
      (queue : group.acceptorQueue server = msg :: rest)
      (turn : AcceptorOutcome server (group.acceptors server) msg result) (delivered : Bool)
      (named : label = .acceptor server delivered) :
      Transition cfg group label ((group.setAcceptorQueue server rest).commitAcceptor server result)


theorem NetworkMove.setProposerQueue {group : Group} {server : ℕ} {queue : List Message}
    (fewer : ∀ msg ∈ queue, msg ∈ group.proposerQueue server ∨ IsExit msg) :
    NetworkMove group (group.setProposerQueue server queue) where
  proposers := rfl
  acceptors := rfl
  clients := rfl
  sent := rfl
  broadcasts := rfl
  stopped := fun _ was => was
  flight := fun _ member => member
  proposerQueue := by
    intro other msg member
    by_cases same : other = server
    · subst same
      simp only [Group.setProposerQueue, Function.update_self] at member
      rcases fewer msg member with old | isExit
      · exact .inl old
      · exact .inr (.inr isExit)
    · exact .inl (by simpa [Group.setProposerQueue, same] using member)
  acceptorQueue := fun _ _ member => .inl member

theorem NetworkMove.setAcceptorQueue {group : Group} {server : ℕ} {queue : List Message}
    (fewer : ∀ msg ∈ queue, msg ∈ group.acceptorQueue server ∨ IsExit msg) :
    NetworkMove group (group.setAcceptorQueue server queue) where
  proposers := rfl
  acceptors := rfl
  clients := rfl
  sent := rfl
  broadcasts := rfl
  stopped := fun _ was => was
  flight := fun _ member => member
  proposerQueue := fun _ _ member => .inl member
  acceptorQueue := by
    intro other msg member
    by_cases same : other = server
    · subst same
      simp only [Group.setAcceptorQueue, Function.update_self] at member
      rcases fewer msg member with old | isExit
      · exact .inl old
      · exact .inr (.inr isExit)
    · exact .inl (by simpa [Group.setAcceptorQueue, same] using member)

/-- A message in flight reaches its server and is pushed. -/
theorem NetworkMove.connection {group : Group} {index target : ℕ} {msg : Message} (dice : Dice)
    (found : group.flight[index]? = some (target, msg)) :
    NetworkMove group
      { group with
        flight := group.flight.eraseIdx index
        proposerQueue := Function.update group.proposerQueue target
          (group.proposerQueue target ++ (connectionProcess dice msg).1)
        acceptorQueue := Function.update group.acceptorQueue target
          (group.acceptorQueue target ++ (connectionProcess dice msg).2) } where
  proposers := rfl
  acceptors := rfl
  clients := rfl
  sent := rfl
  broadcasts := rfl
  stopped := fun _ was => was
  flight := fun _ member => List.mem_of_mem_eraseIdx member
  proposerQueue := by
    intro server pushed member
    by_cases same : server = target
    · subst same
      simp only [Function.update_self, List.mem_append] at member
      rcases member with old | new
      · exact .inl old
      · obtain ⟨rfl, msgType⟩ := mem_connectionProcess_proposer new
        exact .inr (.inl ⟨List.mem_of_getElem? found, msgType⟩)
    · exact .inl (by simpa [same] using member)
  acceptorQueue := by
    intro server pushed member
    by_cases same : server = target
    · subst same
      simp only [Function.update_self, List.mem_append] at member
      rcases member with old | new
      · exact .inl old
      · obtain ⟨rfl, msgType⟩ := mem_connectionProcess_acceptor new
        exact .inr (.inl ⟨List.mem_of_getElem? found, msgType⟩)
    · exact .inl (by simpa [same] using member)

/-- A step that leaves both queues alone and adds no message in flight. -/
theorem NetworkMove.ofFlight {group : Group} (flight : List (ℕ × Message)) (stopped : ℕ → Bool)
    (fewer : ∀ packet ∈ flight, packet ∈ group.flight)
    (stays : ∀ server, group.stopped server = true → stopped server = true) :
    NetworkMove group { group with flight, stopped } where
  proposers := rfl
  acceptors := rfl
  clients := rfl
  sent := rfl
  broadcasts := rfl
  stopped := stays
  flight := fewer
  proposerQueue := fun _ _ member => .inl member
  acceptorQueue := fun _ _ member => .inl member

/-- A proposer's move that takes nothing off its queue. -/
private theorem Transition.ofMove {cfg : Config} {group : Group} {label : Label} {server : ℕ}
    {result : Proposer × Output} (runs : group.proposerRuns cfg server)
    (move : ProposerMove cfg.groupSize server (group.proposers server) none result) :
    Transition cfg group label (group.commit server result) := by
  have same : group.setProposerQueue server (group.proposerQueue server) = group := by
    simp [Group.setProposerQueue]
  have transition : Transition cfg group label _ :=
    .proposer server (group.proposerQueue server) none result runs (fun _ member => member)
      (by simp) move (by simp)
  rwa [same] at transition

/-- Every step is one of the transitions. -/
theorem transition_of_step {cfg : Config} {group next : Group} {label : Label}
    (taken : group.step cfg label = some next) : Transition cfg group label next := by
  cases label with
  | acceptClient server index =>
      simp only [Group.step, Option.ite_none_right_eq_some, Option.some.injEq] at taken
      obtain ⟨⟨runs, idle, free, known, target, waits⟩, rfl⟩ := taken
      exact .acceptClient server index runs idle free known target waits
  | closeClient server =>
      simp only [Group.step] at taken
      split at taken
      · simp only [Option.ite_none_right_eq_some, Option.some.injEq] at taken
        obtain ⟨⟨runs, idle⟩, rfl⟩ := taken
        exact .closeClient server _ runs idle ‹_›
      · cases taken
  | recvClient server =>
      simp only [Group.step] at taken
      split at taken
      · split at taken
        · simp only [Option.ite_none_right_eq_some, Option.some.injEq] at taken
          obtain ⟨⟨runs, idle, unread⟩, rfl⟩ := taken
          exact .recvClient server _ _ runs idle ‹_› unread ‹_›
        · cases taken
      · cases taken
  | idleGet server =>
      simp only [Group.step] at taken
      split at taken
      · rename_i msg rest queue
        split at taken
        · rename_i guard
          split at taken
          · obtain rfl := Option.some.inj taken
            exact .idleExit server msg rest guard.1 guard.2.1 queue
          · obtain rfl := Option.some.inj taken
            refine .network _ (.setProposerQueue fun other member => .inl ?_)
            simpa [queue, or_comm] using member
        · cases taken
      · cases taken
  | send server fails =>
      simp only [Group.step] at taken
      split at taken
      · rename_i runs
        split at taken
        · obtain rfl := Option.some.inj taken
          exact .ofMove runs (.ready fails ‹_›)
        · obtain rfl := Option.some.inj taken
          exact .ofMove runs (.ofAccept cfg.groupSize server fails ‹_›)
        · cases taken
      · cases taken
  | get server address clientGone =>
      simp only [Group.step] at taken
      split at taken
      · rename_i msg rest queue
        split at taken
        · rename_i runs
          have fewer : ∀ other ∈ rest, other ∈ group.proposerQueue server := by
            intro other member
            simp [queue, member]
          have queued : ∀ other ∈ some msg, other ∈ group.proposerQueue server := by
            intro other member
            obtain rfl := Option.some.inj member
            simp [queue]
          have named : ∀ other ∈ some msg, group.proposerQueue server = other :: rest ∧
              ∃ source gone, Label.get server address clientGone = .get server source gone := by
            intro other member
            obtain rfl := Option.some.inj member
            exact ⟨queue, address, clientGone, rfl⟩
          split at taken
          · obtain rfl := Option.some.inj taken
            exact .proposer server rest (some msg) _ runs fewer queued
              (.proposing address msg ‹_› _ (proposing_outcome cfg.groupSize _ address msg)) named
          · obtain rfl := Option.some.inj taken
            exact .proposer server rest (some msg) _ runs fewer queued
              (.accepting msg ‹_› _ (accepting_outcome cfg.groupSize server _ msg clientGone))
              named
          · cases taken
        · cases taken
      · cases taken
  | timeout server =>
      simp only [Group.step] at taken
      split at taken
      · rename_i runs
        split at taken
        · obtain rfl := Option.some.inj taken
          exact .ofMove runs (.proposingTimeout ‹_›)
        · obtain rfl := Option.some.inj taken
          exact .ofMove runs (.acceptingTimeout ‹_›)
        · cases taken
      · cases taken
  | acceptor server delivered =>
      simp only [Group.step] at taken
      split at taken
      · rename_i msg rest queue
        simp only [Option.ite_none_right_eq_some, Option.some.injEq] at taken
        obtain ⟨runs, rfl⟩ := taken
        exact .acceptor server msg rest _ runs queue (process_outcome server _ msg delivered)
          delivered rfl
      · cases taken
  | connection index dice =>
      simp only [Group.step] at taken
      split at taken
      · simp only [Option.ite_none_right_eq_some, Option.some.injEq] at taken
        obtain ⟨_, rfl⟩ := taken
        exact .network _ (.connection dice ‹_›)
      · cases taken
  | lose index =>
      simp only [Group.step, Option.ite_none_right_eq_some, Option.some.injEq] at taken
      obtain ⟨_, rfl⟩ := taken
      exact .network _ (.ofFlight _ group.stopped
        (fun _ member => List.mem_of_mem_eraseIdx member) fun _ was => was)
  | duplicate index =>
      simp only [Group.step] at taken
      split at taken
      · rename_i packet found
        obtain rfl := Option.some.inj taken
        refine .network _ (.ofFlight _ group.stopped (fun other member => ?_) fun _ was => was)
        rcases List.mem_append.mp member with old | new
        · exact old
        · obtain rfl := List.mem_singleton.mp new
          exact List.mem_of_getElem? found
      · cases taken
  | stop server =>
      obtain rfl := Option.some.inj taken
      refine .network _ (.ofFlight group.flight _ (fun _ member => member) fun other was => ?_)
      by_cases same : other = server
      · simp [same]
      · simp [same, was]
  | exitProposer server clientId =>
      obtain rfl := Option.some.inj taken
      refine .network _ (.setProposerQueue fun other member => ?_)
      rcases List.mem_append.mp member with old | new
      · exact .inl old
      · obtain rfl := List.mem_singleton.mp new
        exact .inr ⟨clientId, rfl⟩
  | exitAcceptor server clientId =>
      obtain rfl := Option.some.inj taken
      refine .network _ (.setAcceptorQueue fun other member => ?_)
      rcases List.mem_append.mp member with old | new
      · exact .inl old
      · obtain rfl := List.mem_singleton.mp new
        exact .inr ⟨clientId, rfl⟩
  | clientSend index =>
      simp only [Group.step, Option.ite_none_right_eq_some, Option.some.injEq] at taken
      obtain ⟨⟨known, ready, more⟩, rfl⟩ := taken
      exact .clientSend index known ready more rfl
  | clientRecv index =>
      simp only [Group.step, Option.ite_none_right_eq_some, Option.some.injEq] at taken
      obtain ⟨⟨known, more⟩, rfl⟩ := taken
      exact .clientRecv index known more

/-! ### Resolutions -/

/-- The proposer resolves its instance on the acknowledgement. -/
structure Resolves (groupSize : ℕ) (before after : Proposer) (msg : Message) : Prop where
  waits : before.state = .ACCEPTING
  ack : CountedAck before msg
  many : groupSize / 2 < before.responseCnt + 1
  after : ∃ state, (state = .IDLE ∨ state = .READY) ∧
    after = (before.won groupSize msg state).resolve msg

/-- Only a resolution changes `instance_resolutions` and the instance. -/
theorem ProposerMove.records {groupSize server : ℕ} {proposer : Proposer}
    {taken : Option Message} {result : Proposer × Output}
    (move : ProposerMove groupSize server proposer taken result) :
    (result.1.instanceResolutions = proposer.instanceResolutions ∧
        result.1.inst = proposer.inst) ∨
      ∃ msg, taken = some msg ∧ Resolves groupSize proposer result.1 msg := by
  cases move with
  | ready | accept | acceptRaised | proposingTimeout | acceptingTimeout =>
      exact .inl ⟨rfl, rfl⟩
  | proposing address msg state after outcome =>
      cases outcome with
      | refused | unchanged | passed | exited | raised | counted => exact .inl ⟨rfl, rfl⟩
      | blocked | won =>
          obtain ⟨value, clientId, same⟩ :=
            learn_eq ((proposer.remember msg).countReply address msg)
          rw [same]
          exact .inl ⟨rfl, rfl⟩
  | accepting msg state result outcome =>
      cases outcome with
      | unchanged | passed | exited | raisedOther | counted | lost => exact .inl ⟨rfl, rfl⟩
      | raisedLater later changed same => rcases same with rfl | rfl <;> exact .inl ⟨rfl, rfl⟩
      | own ack many => exact .inr ⟨msg, rfl, state, ack, many, .IDLE, .inl rfl, rfl⟩
      | other ack many => exact .inr ⟨msg, rfl, state, ack, many, .READY, .inr rfl, rfl⟩

/-- A step changes what a proposer has recorded, and its instance, only where the
proposer resolves its instance on a message of its queue. -/
theorem step_records {cfg : Config} {group next : Group} {label : Label}
    (taken : group.step cfg label = some next) (server : ℕ) :
    ((next.proposers server).instanceResolutions = (group.proposers server).instanceResolutions ∧
        (next.proposers server).inst = (group.proposers server).inst) ∨
      ∃ msg ∈ group.proposerQueue server, group.proposerRuns cfg server ∧
        Resolves cfg.groupSize (group.proposers server) (next.proposers server) msg := by
  cases transition_of_step taken with
  | network next move => exact .inl ⟨by rw [move.proposers], by rw [move.proposers]⟩
  | clientSend | clientRecv | acceptor => exact .inl ⟨rfl, rfl⟩
  | acceptClient | closeClient | recvClient | idleExit =>
      exact .inl ⟨read_update Proposer.instanceResolutions (by rfl) server,
        read_update Proposer.inst (by rfl) server⟩
  | proposer other queue found result runs fewer queued move =>
      by_cases equal : server = other
      · subst equal
        simp only [Group.commit_proposers, Function.update_self]
        exact move.records.imp_right fun ⟨msg, isTaken, resolves⟩ =>
          ⟨msg, queued msg isTaken, runs, resolves⟩
      · exact .inl (by simp [equal])

theorem step_resolutions {cfg : Config} {group next : Group} {label : Label}
    (taken : group.step cfg label = some next) (server : ℕ) :
    (next.proposers server).instanceResolutions = (group.proposers server).instanceResolutions ∨
      ∃ msg ∈ group.proposerQueue server, group.proposerRuns cfg server ∧
        Resolves cfg.groupSize (group.proposers server) (next.proposers server) msg :=
  (step_records taken server).imp_left And.left

end CSE550.Paxos
