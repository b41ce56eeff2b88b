import Mathlib.Algebra.Order.Monoid.Unbundled.WithTop
import Mathlib.Data.Int.Order.Basic
import Mathlib.Data.List.AList

/-!
Owns the data that travels in the lock service: commands (`command.py`),
messages (`message.py`) and the signatures the duplicate filters compare.

Python's `None` is `⊥` in the fields that are compared (in Python 2 it is below
every integer) and `none` in the others.
-/

namespace CSE550.Paxos

/-- The order of the proposal numbers, in its computable form. -/
instance proposalOrder : Preorder (WithBot ℤ) :=
  @WithBot.instPreorder ℤ Int.instLinearOrder.toPreorder

/-- A Python dictionary. -/
abbrev Dict (Key Entry : Type) := AList (fun _ : Key => Entry)

/-- `COMMAND_TYPE` of `command.py`. -/
inductive CommandType where
  | LOCK
  | UNLOCK
  | NONE
deriving DecidableEq, Repr

/-- `command.command`; its `__eq__` compares both fields. -/
structure Command where
  commandType : CommandType
  resourceId : ℤ
deriving DecidableEq, Repr

/-- `MESSAGE_TYPE` of `message.py`. -/
inductive MessageType where
  | PREPARE
  | PREPARE_ACK
  | ACCEPT
  | ACCEPT_ACK
  | CLIENT
  | CLIENT_ACK
  | PREPARE_NACK
  | EXIT
deriving DecidableEq, Repr

/-- What the `value` field of a message can hold. -/
inductive Value where
  | none
  | command (command : Command)
  | int (number : ℤ)
deriving DecidableEq, Repr

/-- A client id stored in a `value` field, as the acceptor's first
`PREPARE_ACK` for an instance does. -/
def Value.ofClientId : Option ℤ → Value
  | .none => .none
  | some clientId => .int clientId

/-- `message.message`, with the defaults of its constructor. -/
structure Message where
  msgType : MessageType
  proposal : WithBot ℤ
  inst : WithBot ℕ
  value : Value
  originId : Option ℕ
  clientId : Option ℤ := some (-1)
  rProposal : WithBot ℤ := ((-1 : ℤ) : WithBot ℤ)
deriving DecidableEq

/-- The key the duplicate filters store: all seven fields of the message. -/
abbrev Signature :=
  MessageType × Value × WithBot ℤ × WithBot ℤ × Option ℤ × WithBot ℕ × Option ℕ

instance signatureLawful : LawfulBEq Signature := inferInstance

/-- `msg_signature`. -/
def Message.signature (msg : Message) : Signature :=
  (msg.msgType, msg.value, msg.proposal, msg.rProposal, msg.clientId, msg.inst, msg.originId)

/-- The signature leaves no field out. -/
theorem Message.signature_injective : Function.Injective Message.signature := by
  intro left right same
  cases left
  cases right
  simp only [Message.signature, Prod.mk.injEq] at same
  obtain ⟨rfl, rfl, rfl, rfl, rfl, rfl, rfl⟩ := same
  rfl

@[simp] theorem Message.signature_inj {left right : Message} :
    left.signature = right.signature ↔ left = right :=
  Message.signature_injective.eq_iff

/-- The `EXIT` message of the test harnesses; it carries no number, instance or
value, and its client id differs from harness to harness. -/
def exitMessage (clientId : Option ℤ) : Message where
  msgType := .EXIT
  proposal := ⊥
  inst := ⊥
  value := .none
  originId := none
  clientId := clientId

/-- The message is an `EXIT` of some harness. -/
def IsExit (msg : Message) : Prop := ∃ clientId, msg = exitMessage clientId

theorem IsExit.msgType {msg : Message} (isExit : IsExit msg) : msg.msgType = .EXIT := by
  rcases isExit with ⟨clientId, rfl⟩
  rfl

/-- How a process of a server ended when an exception left its function. -/
inductive Raised where
  /-- An assertion of `execute_command` failed. -/
  | executeAssertion
  /-- `execute_command` was given a value that is no command. -/
  | notACommand
  /-- A client id was `None` where the code asserts it is not. -/
  | clientIdMissing
  /-- A message for a later instance was found in ACCEPTING. -/
  | laterInstance
  /-- A message of a type the dispatch does not expect. -/
  | wrongMessage
  /-- `send` on the client connection raised. -/
  | clientSocket
  /-- No connection was opened to the origin of a request. -/
  | keyError
  /-- `sendall` raised and its handler raised too. -/
  | attributeError
deriving DecidableEq, Repr

/-- Whether a process still runs its loop. -/
inductive ProcessStatus where
  | running
  | exited
  | raised (error : Raised)
deriving DecidableEq, Repr

end CSE550.Paxos
