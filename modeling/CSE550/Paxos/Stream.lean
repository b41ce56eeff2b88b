import CSE550.Lib.Framing
import CSE550.Lib.Text
import CSE550.Paxos.Group
import Mathlib.Algebra.Order.Ring.Rat

/-!
Owns what `connection_process` makes of the bytes of one connection: each
`recv` returns some of them, `pickle.loads` reads one message off their front
and `connection_process` puts it on a queue. The messages of a connection all
arrive exactly when every `recv` returns one of them.

Does not own the dispatch on the message type, which the group's step uses too.
-/

namespace CSE550.Paxos

open CSE550.Lib

/-- What one `recv` of the loop returns, and the `random.random()` drawn for it. -/
structure Receipt (Byte : Type) where
  bytes : List Byte
  dice : ℚ

/-- The draw against `drop_rate` and `dup_rate`. -/
def drawDice (dropRate dupRate dice : ℚ) : Dice :=
  if dice < dropRate then .drop else if dice < dupRate then .dup else .keep

/-- The receive loop of `connection_process`: what it pushes to the proposer queue
and to the acceptor queue. `loads` is `none` where `pickle.loads` raises or
returns no message. -/
def connectionLoop {Byte : Type} (loads : List Byte → Option Message) (dropRate dupRate : ℚ) :
    List (Receipt Byte) → List Message × List Message
  | [] => ([], [])
  | receipt :: rest =>
      match loads receipt.bytes with
      -- the exception ends the loop and the connection is closed
      | none => ([], [])
      | some msg =>
          let pushed := connectionProcess (drawDice dropRate dupRate receipt.dice) msg
          match msg.msgType with
          | .CLIENT_ACK | .EXIT => pushed
          | _ =>
              let later := connectionLoop loads dropRate dupRate rest
              (pushed.1 ++ later.1, pushed.2 ++ later.2)

/-- The same loop on messages that have been read. -/
def serveMessages : List Message → List Message × List Message
  | [] => ([], [])
  | msg :: rest =>
      let pushed := connectionProcess .keep msg
      match msg.msgType with
      | .CLIENT_ACK | .EXIT => pushed
      | _ => (pushed.1 ++ (serveMessages rest).1, pushed.2 ++ (serveMessages rest).2)

/-- The messages a server writes to another server. -/
def serverMsgTypes : List MessageType := proposerMsgTypes ++ acceptorMsgTypes

/-- The bytes of the messages, cut into what the calls of `recv` return. -/
structure Segments {Byte : Type} (dumps : Message → List Byte) (messages : List Message)
    (receipts : List (Receipt Byte)) : Prop where
  whole : (receipts.map Receipt.bytes).flatten = messages.flatMap dumps
  nonempty : ∀ receipt ∈ receipts, receipt.bytes ≠ []
  short : ∀ receipt ∈ receipts, receipt.bytes.length ≤ 1000
  dice : ∀ receipt ∈ receipts, 0 ≤ receipt.dice

/-- Whatever `pickle.loads` makes of other bytes, the messages for the proposer and
those for the acceptor reach their queues, each once and in order. -/
def Survives {Byte : Type} (dumps : Message → List Byte) (messages : List Message)
    (receipts : List (Receipt Byte)) : Prop :=
  ∀ loads, Decodes dumps loads → connectionLoop loads 0 0 receipts =
    (messages.filter (·.msgType ∈ proposerMsgTypes), messages.filter (·.msgType ∈ acceptorMsgTypes))

section Loop

variable {Byte : Type} {loads : List Byte → Option Message}

theorem connectionLoop_eq {receipts : List (Receipt Byte)}
    (dice : ∀ receipt ∈ receipts, 0 ≤ receipt.dice) :
    connectionLoop loads 0 0 receipts =
      serveMessages (firstItems loads (receipts.map Receipt.bytes)) := by
  induction receipts with
  | nil => rfl
  | cons receipt rest inductionHypothesis =>
      have keeps : drawDice 0 0 receipt.dice = .keep := by
        simp [drawDice, not_lt.mpr (dice receipt (by simp))]
      have later := inductionHypothesis fun other member => dice other (by simp [member])
      cases read : loads receipt.bytes with
      | none => simp [connectionLoop, firstItems, serveMessages, read]
      | some msg => simp only [connectionLoop, firstItems, serveMessages, List.map_cons, read,
          keeps, later]

/-- The messages of servers are routed by their type. -/
theorem serveMessages_eq {messages : List Message}
    (types : ∀ msg ∈ messages, msg.msgType ∈ serverMsgTypes) :
    serveMessages messages = (messages.filter (·.msgType ∈ proposerMsgTypes),
      messages.filter (·.msgType ∈ acceptorMsgTypes)) := by
  induction messages with
  | nil => rfl
  | cons msg rest inductionHypothesis =>
      have later := inductionHypothesis fun other member => types other (by simp [member])
      have known := types msg (by simp)
      rw [serveMessages, later]
      cases kind : msg.msgType with
      | PREPARE_ACK | PREPARE_NACK | ACCEPT_ACK | PREPARE | ACCEPT =>
          simp [connectionProcess, kind, proposerMsgTypes, acceptorMsgTypes]
      | CLIENT | CLIENT_ACK | EXIT =>
          simp [kind, serverMsgTypes, proposerMsgTypes, acceptorMsgTypes] at known

/-- A message is pushed at most once, unless it is an EXIT. -/
theorem length_serveMessages_le {Byte : Type} (encode : Message → List Byte)
    {messages : List Message}
    (noExit : ∀ msg ∈ (serveMessages messages).1, msg.msgType ≠ .EXIT) :
    ((serveMessages messages).1.flatMap encode).length +
      ((serveMessages messages).2.flatMap encode).length ≤ (messages.flatMap encode).length := by
  induction messages with
  | nil => exact le_rfl
  | cons msg rest inductionHypothesis =>
      cases kind : msg.msgType with
      | EXIT => exact absurd kind (noExit msg (by simp [serveMessages, connectionProcess, kind]))
      | CLIENT_ACK => simp [serveMessages, connectionProcess, kind]
      | PREPARE_ACK | PREPARE_NACK | ACCEPT_ACK | CLIENT | PREPARE | ACCEPT =>
          have later := inductionHypothesis fun other member =>
            noExit other (by simp [serveMessages, kind, member])
          simp only [serveMessages, connectionProcess, kind, List.flatMap_append, List.flatMap_cons,
            List.flatMap_nil, List.length_append, List.length_nil, List.nil_append]
          omega

/-- Every message of a server goes to exactly one of the two queues. -/
theorem length_filter_add {Byte : Type} (encode : Message → List Byte) {messages : List Message}
    (types : ∀ msg ∈ messages, msg.msgType ∈ serverMsgTypes) :
    ((messages.filter (·.msgType ∈ proposerMsgTypes)).flatMap encode).length +
      ((messages.filter (·.msgType ∈ acceptorMsgTypes)).flatMap encode).length =
        (messages.flatMap encode).length := by
  induction messages with
  | nil => rfl
  | cons msg rest inductionHypothesis =>
      have later := inductionHypothesis fun other member => types other (by simp [member])
      have known := types msg (by simp)
      cases kind : msg.msgType with
      | PREPARE_ACK | PREPARE_NACK | ACCEPT_ACK | PREPARE | ACCEPT =>
          simp only [List.filter_cons, kind, proposerMsgTypes, acceptorMsgTypes, List.mem_cons,
            List.not_mem_nil, reduceCtorEq, or_false, or_true, decide_true, decide_false, if_true,
            Bool.false_eq_true, if_false, List.flatMap_cons, List.length_append] at later ⊢
          omega
      | CLIENT | CLIENT_ACK | EXIT =>
          simp [kind, serverMsgTypes, proposerMsgTypes, acceptorMsgTypes] at known

end Loop

instance messageNontrivial : Nontrivial Message :=
  ⟨exitMessage none, exitMessage (some 0), by decide⟩

/-- The messages of a connection survive its byte stream exactly when every `recv`
returns one pickled message. -/
theorem messages_survive_iff {Byte : Type} {dumps : Message → List Byte}
    (pickle : ∃ loads, Decodes dumps loads) {messages : List Message}
    {receipts : List (Receipt Byte)}
    (types : ∀ msg ∈ messages, msg.msgType ∈ serverMsgTypes)
    (segments : Segments dumps messages receipts) :
    Survives dumps messages receipts ↔ receipts.map Receipt.bytes = messages.map dumps := by
  constructor
  · intro survives
    rcases pickle with ⟨loads, decodes⟩
    have prefixFree := decodes.prefixFree
    -- the decoder that reads complete messages only
    have queues := survives _ prefixFree.decodes
    rw [connectionLoop_eq segments.dice] at queues
    set received := firstItems (decodeFirst dumps) (receipts.map Receipt.bytes) with isReceived
    have noExit : ∀ msg ∈ (serveMessages received).1, msg.msgType ≠ .EXIT := by
      rw [queues]
      intro msg member isExit
      simp [isExit, proposerMsgTypes] at member
    have taken := length_serveMessages_le dumps noExit
    rw [queues, length_filter_add dumps types] at taken
    have within := @length_firstItems_le _ _ dumps (receipts.map Receipt.bytes)
    rw [← isReceived] at within
    have stream := congrArg List.length segments.whole
    have chunks := @chunks_eq_of_length _ _ dumps (receipts.map Receipt.bytes)
      (by simpa using segments.nonempty)
      (by rw [← isReceived]; omega)
    rw [← isReceived] at chunks
    have same : received = messages := by
      apply prefixFree.flatMap_injective
      show received.flatMap dumps = messages.flatMap dumps
      rw [← segments.whole, chunks, List.flatMap_def]
    rw [chunks, same]
  · intro chunks loads decodes
    rw [connectionLoop_eq segments.dice, chunks, decodes.firstItems_map, serveMessages_eq types]

/-! ### The pickles of messages -/

/-- The numbers of `MESSAGE_TYPE`. -/
def MessageType.code : MessageType → ℤ
  | .PREPARE => 0
  | .PREPARE_ACK => 1
  | .ACCEPT => 2
  | .ACCEPT_ACK => 3
  | .CLIENT => 4
  | .CLIENT_ACK => 5
  | .PREPARE_NACK => 7
  | .EXIT => 8

/-- The numbers of `COMMAND_TYPE`. -/
def CommandType.code : CommandType → ℤ
  | .LOCK => 0
  | .UNLOCK => 1
  | .NONE => 2

/-- A pickled integer. -/
def pickleInt (number : ℤ) : Text := 'I' :: (Text.intText number ++ ['\n'])

/-- A pickled integer or `None`. -/
def pickleOption : Option ℤ → Text
  | none => ['N']
  | some number => pickleInt number

/-- A key of an object's dictionary with its place in the memo. -/
def pickleKey (name : String) (memo : ℕ) : Text :=
  "S'".toList ++ name.toList ++ "'\np".toList ++ Text.natText memo ++ ['\n']

/-- The start of a pickled message. -/
def messageHeader : Text :=
  ("ccopy_reg\n_reconstructor\np0\n(cmessage\nmessage\np1\nc__builtin__\nobject\np2\n" ++
    "Ntp3\nRp4\n(dp5\n").toList

/-- The start of a command inside a pickled message. -/
def commandHeader : Text := "g0\n(ccommand\ncommand\np9\ng2\nNtp10\nRp11\n(dp12\n".toList

/-- A pickled `value` field; a command is an object of its own. -/
def pickleValue : Value → Text
  | .none => ['N']
  | .int number => pickleInt number
  | .command command =>
      commandHeader ++ (pickleKey "command_type" 13 ++
        (pickleInt command.commandType.code ++ ('s' ::
          (pickleKey "resource_id" 14 ++ (pickleInt command.resourceId ++ ['s', 'b'])))))

/-- How many places of the memo a value takes. -/
def memoSize : Value → ℕ
  | .command _ => 6
  | _ => 0

/-- `pickle.dumps` of a message, in protocol 0. -/
def pickleDumps (msg : Message) : Text :=
  messageHeader ++
    (pickleKey "msg_type" 6 ++ (pickleInt msg.msgType.code ++ ('s' ::
    (pickleKey "origin_id" 7 ++ (pickleOption (msg.originId.map Int.ofNat) ++ ('s' ::
    (pickleKey "value" 8 ++ (pickleValue msg.value ++ ('s' ::
    (pickleKey "instance" (9 + memoSize msg.value) ++
      (pickleOption ((msg.inst : Option ℕ).map Int.ofNat) ++ ('s' ::
    (pickleKey "client_id" (10 + memoSize msg.value) ++ (pickleOption msg.clientId ++ ('s' ::
    (pickleKey "proposal" (11 + memoSize msg.value) ++ (pickleOption msg.proposal ++ ('s' ::
    (pickleKey "r_proposal" (12 + memoSize msg.value) ++ (pickleOption msg.rProposal ++
      ['s', 'b', '.']))))))))))))))))))))

theorem delimited_pickleInt : Delimited pickleInt := by
  have digits : Delimited fun number => Text.intText number ++ ['\n'] :=
    delimited_of_terminator Text.intText_injective fun number =>
      Text.not_mem_intText (by decide) (by decide)
  intro left right restLeft restRight same
  exact digits left right restLeft restRight (List.cons.inj same).2

theorem delimited_pickleOption : Delimited pickleOption := by
  rintro (_ | left) (_ | right) restLeft restRight same
  · exact ⟨rfl, (List.cons.inj same).2⟩
  · exact absurd (List.cons.inj same).1 (by decide)
  · exact absurd (List.cons.inj same).1 (by decide)
  · rcases delimited_pickleInt left right restLeft restRight same with ⟨rfl, rests⟩
    exact ⟨rfl, rests⟩

theorem CommandType.code_injective : Function.Injective CommandType.code := by
  intro left right same
  cases left <;> cases right <;> first | rfl | exact absurd same (by decide)

theorem MessageType.code_injective : Function.Injective MessageType.code := by
  intro left right same
  cases left <;> cases right <;> first | rfl | exact absurd same (by decide)

theorem delimited_pickleValue : Delimited pickleValue := by
  rintro (_ | left | left) (_ | right | right) restLeft restRight same
  case none.none => exact ⟨rfl, (List.cons.inj same).2⟩
  case int.int =>
    rcases delimited_pickleInt left right restLeft restRight same with ⟨rfl, rests⟩
    exact ⟨rfl, rests⟩
  case command.command =>
    simp only [pickleValue, List.append_assoc, List.cons_append, List.nil_append] at same
    have keys := List.append_cancel_left same
    have fields := List.append_cancel_left keys
    rcases delimited_pickleInt _ _ _ _ fields with ⟨kind, later⟩
    have resources := List.append_cancel_left (List.cons.inj later).2
    rcases delimited_pickleInt _ _ _ _ resources with ⟨resource, ends⟩
    rcases left with ⟨leftKind, leftResource⟩
    rcases right with ⟨rightKind, rightResource⟩
    obtain rfl : leftKind = rightKind := CommandType.code_injective kind
    obtain rfl : leftResource = rightResource := resource
    exact ⟨rfl, (List.cons.inj (List.cons.inj ends).2).2⟩
  all_goals exact absurd (List.cons.inj same).1 (by decide)

/-- Every field can be read back and the pickle ends with its last field. -/
theorem delimited_pickleDumps : Delimited pickleDumps := by
  intro left right restLeft restRight same
  simp only [pickleDumps, List.append_assoc, List.cons_append, List.nil_append] at same
  have keys := List.append_cancel_left same
  rcases delimited_pickleInt _ _ _ _ (List.append_cancel_left keys) with ⟨kind, same⟩
  rcases delimited_pickleOption _ _ _ _ (List.append_cancel_left (List.cons.inj same).2) with
    ⟨origin, same⟩
  rcases delimited_pickleValue _ _ _ _ (List.append_cancel_left (List.cons.inj same).2) with
    ⟨value, same⟩
  rw [value] at same
  rcases delimited_pickleOption _ _ _ _ (List.append_cancel_left (List.cons.inj same).2) with
    ⟨inst, same⟩
  rcases delimited_pickleOption _ _ _ _ (List.append_cancel_left (List.cons.inj same).2) with
    ⟨client, same⟩
  rcases delimited_pickleOption _ _ _ _ (List.append_cancel_left (List.cons.inj same).2) with
    ⟨proposal, same⟩
  rcases delimited_pickleOption _ _ _ _ (List.append_cancel_left (List.cons.inj same).2) with
    ⟨accepted, same⟩
  have ofNat : Function.Injective Int.ofNat := fun _ _ => Int.ofNat.inj
  refine ⟨?_, (List.cons.inj (List.cons.inj (List.cons.inj same).2).2).2⟩
  cases left
  cases right
  rw [Message.mk.injEq]
  exact ⟨MessageType.code_injective kind, proposal, Option.map_injective ofNat inst, value,
    Option.map_injective ofNat origin, client, accepted⟩

/-- A PREPARE and an ACCEPT of server 0. -/
def streamedMessages : List Message :=
  [{ msgType := .PREPARE, proposal := (0 : ℤ), inst := (0 : ℕ), value := .none, originId := some 0,
     clientId := some 0 },
   { msgType := .ACCEPT, proposal := (0 : ℤ), inst := (0 : ℕ), value := .command ⟨.LOCK, 7⟩,
     originId := some 0, clientId := some 0 }]

set_option maxRecDepth 4000 in
/-- One `recv` for each of the two messages. -/
theorem messages_survive_apart : Survives pickleDumps streamedMessages
    (streamedMessages.map fun msg => ⟨pickleDumps msg, 0⟩) := by
  refine (messages_survive_iff ⟨_, delimited_pickleDumps.prefixFree.decodes⟩ (by decide)
    ⟨rfl, by decide, by decide, by decide⟩).mpr rfl

set_option maxRecDepth 8000 in
/-- Both messages returned by one `recv`: the second one is lost. -/
theorem messages_lost_together :
    Segments pickleDumps streamedMessages [⟨streamedMessages.flatMap pickleDumps, 0⟩] ∧
      ¬ Survives pickleDumps streamedMessages [⟨streamedMessages.flatMap pickleDumps, 0⟩] := by
  have segments : Segments pickleDumps streamedMessages
      [⟨streamedMessages.flatMap pickleDumps, 0⟩] := ⟨by simp, by decide, by decide, by decide⟩
  refine ⟨segments, fun survives => ?_⟩
  have decodes := delimited_pickleDumps.prefixFree.decodes
  have queues := survives _ decodes
  rw [connectionLoop_eq segments.dice] at queues
  have first : decodeFirst pickleDumps (streamedMessages.flatMap pickleDumps) =
      some (streamedMessages.head (by decide)) := decodes.complete _ _
  simp only [List.map_cons, List.map_nil, firstItems, first] at queues
  exact absurd queues (by decide)

end CSE550.Paxos
