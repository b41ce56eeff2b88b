import CSE550.Paxos.Message

/-!
Owns the proposer process of `server.py` (`initialize_proposer`): the state
machine IDLE, READY, PROPOSING, ACCEPT, ACCEPTING with both response loops, the
duplicate filter, the broadcast to the acceptors and the lock set.

Each definition is one stretch of the loop between two points at which the
process can wait. Does not own the queues, the network or the clients.
-/

namespace CSE550.Paxos

/-- The proposer's `state`. -/
inductive ProposerState where
  | IDLE
  | READY
  | PROPOSING
  | ACCEPT
  | ACCEPTING
deriving DecidableEq, Repr

/-- An entry `(msg.proposal, msg)` of `pre_nacks`. In Python 2 two message
objects compare by their addresses, so the entry carries that address. -/
structure NackMsg where
  proposal : WithBot ℤ
  address : ℕ
  msg : Message

/-- The tuple order of two entries. -/
def NackMsg.less (left right : NackMsg) : Prop :=
  left.proposal < right.proposal ∨
    (left.proposal = right.proposal ∧ left.address < right.address)

instance (left right : NackMsg) : Decidable (left.less right) := by
  unfold NackMsg.less
  infer_instance

/-- `max(pre_nacks)`, which keeps the first of several greatest entries. -/
def maxNack : List NackMsg → Option NackMsg
  | [] => none
  | first :: rest =>
      some (rest.foldl (fun best nack => if best.less nack then nack else best) first)

/-- A line of the log file: instance, learnt client and learnt command. -/
structure LogLine where
  inst : ℕ
  clientId : Option ℤ
  command : Value
deriving DecidableEq

/-- The state of the proposer process. -/
structure Proposer where
  status : ProcessStatus
  state : ProposerState
  /-- Set by an `EXIT` message; read when the client loop is left. -/
  done : Bool
  /-- The client whose connection is being served. -/
  client : Option ℕ
  proposerNum : ℤ
  /-- `instance`. -/
  inst : ℕ
  clientCommand : Command
  origClientId : ℤ
  learntCommand : Value
  learntClient : Option ℤ
  responseCnt : ℕ
  preNacks : List NackMsg
  msgHistory : List Signature
  serverConnections : List ℕ
  instanceResolutions : Dict ℕ (Value × Option ℤ)
  lockSet : List ℤ
  logfile : List LogLine

/-- What one stretch of the proposer's loop sends. -/
inductive Output where
  | silent
  /-- `send_to_acceptors`: the message and the servers it was written to. -/
  | broadcast (msg : Message) (written : List ℕ)
  /-- A `CLIENT_ACK` on the client connection. -/
  | clientAck (msg : Message)

/-- `send_to_acceptors`: the connections written to and those that remain.
The loop removes a failing connection from the list it iterates over, so the
connection behind it is passed over: it stays in the list without a write. -/
def sendToAcceptors (fails : List ℕ) : List ℕ → List ℕ × List ℕ
  | [] => ([], [])
  | [connection] => if connection ∈ fails then ([], []) else ([connection], [connection])
  | connection :: following :: rest =>
      if connection ∈ fails then
        let (written, kept) := sendToAcceptors fails rest
        (written, following :: kept)
      else
        let (written, kept) := sendToAcceptors fails (following :: rest)
        (connection :: written, connection :: kept)

/-- `execute_command` on the lock set. -/
def executeCommand (lockSet : List ℤ) : Value → Except Raised (List ℤ)
  | .command command =>
      match command.commandType with
      | .LOCK =>
          if command.resourceId ∈ lockSet then .error .executeAssertion
          else .ok (lockSet ++ [command.resourceId])
      | .UNLOCK =>
          if command.resourceId ∈ lockSet then
            if command.resourceId ∈ lockSet.erase command.resourceId then
              .error .executeAssertion
            else .ok (lockSet.erase command.resourceId)
          else .error .executeAssertion
      | .NONE => .error .executeAssertion
  | _ => .error .notACommand

/-- `proposer_msg_types`. -/
def proposerMsgTypes : List MessageType := [.PREPARE_ACK, .PREPARE_NACK, .ACCEPT_ACK]

/-- `if_dup`: whether the message is a duplicate, and the history it leaves. -/
def ifDup (msg : Message) (msgHistory : List Signature) : Bool × List Signature :=
  if msg.msgType ∈ proposerMsgTypes then
    if msg.signature ∈ msgHistory then (true, msgHistory)
    else (false, msg.signature :: msgHistory)
  else (false, msgHistory)

namespace Proposer

variable (groupSize serverId : ℕ) (proposer : Proposer)

/-- An exception leaves the process function. -/
def raise (error : Raised) : Proposer := { proposer with status := .raised error }

/-- The PREPARE message of the READY state. -/
def prepareMsg : Message where
  msgType := .PREPARE
  proposal := proposer.proposerNum
  inst := proposer.inst
  value := .none
  originId := some serverId
  clientId := some proposer.origClientId

/-- The ACCEPT message of the ACCEPT state. -/
def acceptMsg : Message where
  msgType := .ACCEPT
  proposal := proposer.proposerNum
  inst := proposer.inst
  value := proposer.learntCommand
  originId := some serverId
  clientId := proposer.learntClient

/-- READY: send the PREPARE and enter the response loop of PROPOSING. -/
def ready (fails : List ℕ) : Proposer × Output :=
  let sent := sendToAcceptors fails proposer.serverConnections
  ({ proposer with
      state := .PROPOSING
      responseCnt := 0
      preNacks := []
      serverConnections := sent.2 },
    .broadcast (proposer.prepareMsg serverId) sent.1)

/-- ACCEPT: send the ACCEPT and enter the response loop of ACCEPTING. -/
def accept (fails : List ℕ) : Proposer × Output :=
  if proposer.learntClient = none then (proposer.raise .clientIdMissing, .silent)
  else
    let sent := sendToAcceptors fails proposer.serverConnections
    ({ proposer with
        state := .ACCEPTING
        responseCnt := 0
        serverConnections := sent.2 },
      .broadcast (proposer.acceptMsg serverId) sent.1)

/-- PROPOSING is left without a majority: back to READY with the next number. -/
def abandon : Proposer :=
  { proposer with state := .READY, proposerNum := proposer.proposerNum + groupSize }

/-- ACCEPTING is left without a majority: the number is raised twice. -/
def acceptingTimeout : Proposer :=
  { proposer with
    state := .READY
    proposerNum := proposer.proposerNum + groupSize + groupSize }

/-- Learn the value of the entry `max(pre_nacks)`. -/
def learn : Proposer :=
  match maxNack proposer.preNacks with
  | some nack =>
      { proposer with learntCommand := nack.msg.value, learntClient := nack.msg.clientId }
  | none => proposer

/-- The learnt command is the client's own. -/
def ownLearnt : Prop :=
  proposer.learntCommand = .command proposer.clientCommand ∧
    proposer.learntClient = some proposer.origClientId

instance : Decidable proposer.ownLearnt := by
  unfold ownLearnt
  infer_instance

/-- "if you won but are blocked": the own command is a LOCK of a held resource. -/
def blocked : Prop :=
  proposer.ownLearnt ∧ proposer.clientCommand.commandType = .LOCK ∧
    proposer.clientCommand.resourceId ∈ proposer.lockSet

instance : Decidable proposer.blocked := by
  unfold blocked
  infer_instance

/-- What follows the response loop of PROPOSING once a majority has answered. -/
def leaveProposing : Proposer :=
  if proposer.learn.blocked then proposer.learn.abandon groupSize
  else { proposer.learn with state := .ACCEPT }

/-- The loop test after a reply was counted. -/
def closeProposing : Proposer :=
  if proposer.responseCnt ≤ groupSize / 2 then proposer else proposer.leaveProposing groupSize

/-- Count a reply in PROPOSING; a PREPARE_NACK is also stored. -/
def countReply (address : ℕ) (msg : Message) : Proposer :=
  { proposer with
    responseCnt := proposer.responseCnt + 1
    preNacks :=
      if msg.msgType = .PREPARE_NACK then
        proposer.preNacks ++ [⟨msg.proposal, address, msg⟩]
      else proposer.preNacks }

/-- The dispatch of PROPOSING on a message that is no duplicate. -/
def dispatchProposing (address : ℕ) (msg : Message) : Proposer :=
  if msg.inst ≠ proposer.inst then proposer
  else
    match msg.msgType with
    | .PREPARE_ACK => (proposer.countReply address msg).closeProposing groupSize
    | .PREPARE_NACK => (proposer.countReply address msg).closeProposing groupSize
    | .EXIT => { proposer with done := true }.abandon groupSize
    | .ACCEPT_ACK => proposer
    | _ => proposer.raise .wrongMessage

/-- PROPOSING: one message taken off the queue. The assertion on the client id
stands inside the `try` around `get`, so its failure counts as a timeout. -/
def proposing (address : ℕ) (msg : Message) : Proposer :=
  if msg.clientId = none then proposer.abandon groupSize
  else
    let filtered := ifDup msg proposer.msgHistory
    if filtered.1 then proposer
    else { proposer with msgHistory := filtered.2 }.dispatchProposing groupSize address msg

/-- The CLIENT_ACK message sent when the client's own command is resolved;
`msg` is the last message taken off the queue. -/
def clientAckMsg (msg : Message) : Message where
  msgType := .CLIENT_ACK
  proposal := ⊥
  inst := proposer.inst
  value := .command proposer.clientCommand
  originId := some serverId
  clientId := msg.clientId

/-- Record the resolution, write the log line, execute the command and move to
the next instance. Leaving the client loop after an `EXIT` ends the process. -/
def resolve (msg : Message) : Proposer :=
  let recorded : Proposer :=
    { proposer with
      instanceResolutions :=
        proposer.instanceResolutions.insert proposer.inst (proposer.learntCommand, msg.clientId)
      logfile :=
        proposer.logfile ++ [⟨proposer.inst, proposer.learntClient, proposer.learntCommand⟩] }
  match executeCommand proposer.lockSet proposer.learntCommand with
  | .error error => recorded.raise error
  | .ok lockSet =>
      { recorded with
        lockSet := lockSet
        inst := proposer.inst + 1
        learntCommand := .command proposer.clientCommand
        learntClient := some proposer.origClientId
        status :=
          if proposer.done ∧ proposer.state = .IDLE then .exited else proposer.status }

/-- What follows the response loop of ACCEPTING once a majority has accepted.
`clientGone` says whether `send` on the client connection raises. -/
def leaveAccepting (msg : Message) (clientGone : Bool) : Proposer × Output :=
  let raisedNum := { proposer with proposerNum := proposer.proposerNum + groupSize }
  if proposer.ownLearnt then
    let idle := { raisedNum with state := .IDLE }
    if msg.clientId = none then (idle.raise .clientIdMissing, .silent)
    else if clientGone then (idle.raise .clientSocket, .silent)
    else (idle.resolve msg, .clientAck (proposer.clientAckMsg serverId msg))
  else ({ raisedNum with state := .READY }.resolve msg, .silent)

/-- The dispatch of ACCEPTING on a message that is no duplicate. -/
def dispatchAccepting (msg : Message) (clientGone : Bool) : Proposer × Output :=
  if msg.inst ≠ proposer.inst then
    if msg.inst < proposer.inst then (proposer, .silent)
    else (proposer.raise .laterInstance, .silent)
  else
    match msg.msgType with
    | .ACCEPT_ACK =>
        if msg.proposal = proposer.proposerNum then
          let counted := { proposer with responseCnt := proposer.responseCnt + 1 }
          if counted.responseCnt ≤ groupSize / 2 then (counted, .silent)
          else counted.leaveAccepting groupSize serverId msg clientGone
        else (proposer, .silent)
    | .PREPARE_ACK => (proposer, .silent)
    | .PREPARE_NACK => (proposer, .silent)
    | .EXIT => ({ proposer with done := true }, .silent)
    | _ => (proposer.raise .wrongMessage, .silent)

/-- ACCEPTING: one message taken off the queue. -/
def accepting (msg : Message) (clientGone : Bool) : Proposer × Output :=
  let filtered := ifDup msg proposer.msgHistory
  if filtered.1 then (proposer, .silent)
  else
    { proposer with msgHistory := filtered.2 }.dispatchAccepting groupSize serverId msg clientGone

/-- A command arrives on the client connection. -/
def receiveCommand (command : Command) (clientId : ℤ) : Proposer :=
  { proposer with
    state := .READY
    clientCommand := command
    origClientId := clientId
    learntCommand := .command command
    learntClient := some clientId }

end Proposer

end CSE550.Paxos
