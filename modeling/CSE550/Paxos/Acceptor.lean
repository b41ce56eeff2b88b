import CSE550.Paxos.Message

/-!
Owns the acceptor process of `server.py` (`initialize_acceptor`): the two
request handlers, the duplicate filter in front of them, the reply on the
connection to the origin, and what happens when that reply cannot be sent.

Does not own how requests reach `acceptor_queue`.
-/

namespace CSE550.Paxos

/-- An entry of `accept_history`: prep_p, acc_p, acc_v, cid. -/
structure AcceptRecord where
  prep : WithBot ℤ
  accp : WithBot ℤ
  accv : Value
  cid : Option ℤ
deriving DecidableEq

/-- `accept_history`, by instance. -/
abbrev AcceptHistory := Dict (WithBot ℕ) AcceptRecord

/-- The `-1` of a record in which nothing has been accepted. -/
abbrev noNumber : WithBot ℤ := ((-1 : ℤ) : WithBot ℤ)

/-- The PREPARE branch: the reply, if any, and the history it leaves. -/
def handlePrepare (serverId : ℕ) (acceptHistory : AcceptHistory) (msg : Message) :
    Option Message × AcceptHistory :=
  match acceptHistory.lookup msg.inst with
  | some record =>
      if record.prep < msg.proposal then
        (some
          { msgType := if record.accp ≠ noNumber then .PREPARE_NACK else .PREPARE_ACK
            proposal := msg.proposal
            inst := msg.inst
            value := record.accv
            originId := some serverId
            clientId := record.cid
            rProposal := record.accp },
          acceptHistory.insert msg.inst { record with prep := msg.proposal })
      else (none, acceptHistory)
  | none =>
      -- the fourth argument of this reply is the client id, so it lands in `value`
      (some
        { msgType := .PREPARE_ACK
          proposal := msg.proposal
          inst := msg.inst
          value := .ofClientId msg.clientId
          originId := some serverId },
        acceptHistory.insert msg.inst ⟨msg.proposal, noNumber, .none, none⟩)

/-- The reply of both accepting paths of the ACCEPT branch. -/
def acceptAck (serverId : ℕ) (msg : Message) : Message where
  msgType := .ACCEPT_ACK
  proposal := msg.proposal
  inst := msg.inst
  value := msg.value
  originId := some serverId
  clientId := msg.clientId

/-- The record both accepting paths of the ACCEPT branch write. -/
def acceptedRecord (msg : Message) : AcceptRecord :=
  ⟨msg.proposal, msg.proposal, msg.value, msg.clientId⟩

/-- The ACCEPT branch: the reply, if any, and the history it leaves. -/
def handleAccept (serverId : ℕ) (acceptHistory : AcceptHistory) (msg : Message) :
    Option Message × AcceptHistory :=
  match acceptHistory.lookup msg.inst with
  | some record =>
      if record.prep ≤ msg.proposal then
        (some (acceptAck serverId msg), acceptHistory.insert msg.inst (acceptedRecord msg))
      else (none, acceptHistory)
  | none =>
      (some (acceptAck serverId msg), acceptHistory.insert msg.inst (acceptedRecord msg))

/-- The dispatch on the two request types. -/
def handleRequest (serverId : ℕ) (acceptHistory : AcceptHistory) (msg : Message) :
    Option Message × AcceptHistory :=
  if msg.msgType = .PREPARE then handlePrepare serverId acceptHistory msg
  else handleAccept serverId acceptHistory msg

/-- `acceptor_msg_types`. -/
def acceptorMsgTypes : List MessageType := [.PREPARE, .ACCEPT]

/-- The state of the acceptor process. -/
structure Acceptor where
  status : ProcessStatus
  acceptHistory : AcceptHistory
  msgHistory : List Signature
  /-- The servers a connection was opened to. -/
  serverConnections : List ℕ

/-- `response_proposer` followed by the update of `accept_history`. The update
stands after the reply in every branch, so an exception leaves the history as
it was: a missing connection is a `KeyError`, and when `sendall` raises the
handler calls `remove` on a dictionary. -/
def Acceptor.respond (acceptor : Acceptor) (reply : Message) (acceptHistory : AcceptHistory)
    (propId : Option ℕ) (delivered : Bool) : Acceptor × Option (ℕ × Message) :=
  match propId with
  | some proposer =>
      if proposer ∈ acceptor.serverConnections then
        if delivered then ({ acceptor with acceptHistory }, some (proposer, reply))
        else ({ acceptor with status := .raised .attributeError }, none)
      else ({ acceptor with status := .raised .keyError }, none)
  | none => ({ acceptor with status := .raised .keyError }, none)

/-- One turn of the processing loop on the message taken off the queue.
`delivered` says whether `sendall` on the connection to the origin succeeds. -/
def Acceptor.process (serverId : ℕ) (acceptor : Acceptor) (msg : Message) (delivered : Bool) :
    Acceptor × Option (ℕ × Message) :=
  if msg.msgType ∈ acceptorMsgTypes then
    if msg.signature ∈ acceptor.msgHistory then (acceptor, none)
    else
      let remembered := { acceptor with msgHistory := msg.signature :: acceptor.msgHistory }
      match handleRequest serverId acceptor.acceptHistory msg with
      | (some reply, acceptHistory) =>
          remembered.respond reply acceptHistory msg.originId delivered
      | (none, _) => (remembered, none)
  else if msg.msgType = .EXIT then ({ acceptor with status := .exited }, none)
  else ({ acceptor with status := .raised .wrongMessage }, none)

end CSE550.Paxos
