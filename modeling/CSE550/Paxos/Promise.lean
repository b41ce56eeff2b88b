import CSE550.Lib.Lists
import CSE550.Paxos.Steps

/-!
Owns the promise of one acceptor: what its record for an instance and its
replies say about the whole sequence of messages it has processed, when every
reply can be sent.

Does not own the group: the messages here are arbitrary, in any order, repeated
at will and from any origin the acceptor is connected to.
-/

namespace CSE550.Paxos

open CSE550.Lib

/-! ### Processing a sequence -/

/-- An acceptor before its first message. -/
def Acceptor.fresh (serverConnections : List ℕ) : Acceptor where
  status := .running
  acceptHistory := ∅
  msgHistory := []
  serverConnections := serverConnections

/-- The acceptor after a sequence of messages. -/
def Acceptor.after (serverId : ℕ) (acceptor : Acceptor) : List Message → Acceptor
  | [] => acceptor
  | msg :: rest => Acceptor.after serverId (acceptor.process serverId msg true).1 rest

/-- The messages of a sequence, each with its reply. -/
def Acceptor.trace (serverId : ℕ) (acceptor : Acceptor) :
    List Message → List (Message × Option Message)
  | [] => []
  | msg :: rest =>
      (msg, (acceptor.process serverId msg true).2.map Prod.snd) ::
        Acceptor.trace serverId (acceptor.process serverId msg true).1 rest

/-- A request with a number from 0 on whose reply can be sent. -/
structure Servable (serverConnections : List ℕ) (msg : Message) : Prop where
  request : msg.msgType = .PREPARE ∨ msg.msgType = .ACCEPT
  number : ((0 : ℤ) : WithBot ℤ) ≤ msg.proposal
  origin : ∃ proposer ∈ serverConnections, msg.originId = some proposer

section Sequence

variable {serverId : ℕ}

theorem Acceptor.after_append (acceptor : Acceptor) (messages later : List Message) :
    acceptor.after serverId (messages ++ later) =
      (acceptor.after serverId messages).after serverId later := by
  induction messages generalizing acceptor with
  | nil => rfl
  | cons first rest inductionHypothesis => exact inductionHypothesis _

theorem Acceptor.trace_cons (acceptor : Acceptor) (msg : Message) (rest : List Message) :
    acceptor.trace serverId (msg :: rest) =
      (msg, (acceptor.process serverId msg true).2.map Prod.snd) ::
        (acceptor.process serverId msg true).1.trace serverId rest := rfl

theorem Acceptor.trace_append (acceptor : Acceptor) (messages later : List Message) :
    acceptor.trace serverId (messages ++ later) = acceptor.trace serverId messages ++
      (acceptor.after serverId messages).trace serverId later := by
  induction messages generalizing acceptor with
  | nil => rfl
  | cons first rest inductionHypothesis =>
      rw [List.cons_append, trace_cons, inductionHypothesis]
      rfl

/-- The turns of an acceptor whose replies can all be sent. -/
inductive ServedTurn (serverId : ℕ) (acceptor : Acceptor) (msg : Message) :
    Acceptor → Option Message → Prop
  | duplicate (seen : msg.signature ∈ acceptor.msgHistory) :
      ServedTurn serverId acceptor msg acceptor none
  | silent (fresh : msg.signature ∉ acceptor.msgHistory)
      (unanswered : (handleRequest serverId acceptor.acceptHistory msg).1 = none) :
      ServedTurn serverId acceptor msg (acceptor.remember msg) none
  | replied (fresh : msg.signature ∉ acceptor.msgHistory) (reply : Message)
      (after : AcceptHistory)
      (handled : handleRequest serverId acceptor.acceptHistory msg = (some reply, after)) :
      ServedTurn serverId acceptor msg
        { acceptor.remember msg with acceptHistory := after } (some reply)

theorem servedTurn {acceptor : Acceptor} {msg : Message}
    (servable : Servable acceptor.serverConnections msg) :
    ServedTurn serverId acceptor msg (acceptor.process serverId msg true).1
      ((acceptor.process serverId msg true).2.map Prod.snd) := by
  have request : msg.msgType ∈ acceptorMsgTypes := by
    rcases servable.request with isPrepare | isAccept <;> simp [acceptorMsgTypes, *]
  rcases servable.origin with ⟨proposer, connected, origin⟩
  unfold Acceptor.process
  rw [if_pos request]
  by_cases seen : msg.signature ∈ acceptor.msgHistory
  · rw [if_pos seen]
    exact .duplicate seen
  · rw [if_neg seen]
    rcases handled : handleRequest serverId acceptor.acceptHistory msg with ⟨_ | reply, after⟩
    · exact .silent seen (by rw [handled])
    · simp only [Acceptor.respond, origin, connected, if_true]
      exact .replied seen reply after handled

theorem ServedTurn.serverConnections {acceptor after : Acceptor} {msg : Message}
    {reply : Option Message} (turn : ServedTurn serverId acceptor msg after reply) :
    after.serverConnections = acceptor.serverConnections := by
  cases turn <;> rfl

/-! ### The record against the trace -/

/-- The requests of a trace that were answered, for one instance and type. -/
def answered (kind : MessageType) (inst : WithBot ℕ) (trace : List (Message × Option Message)) :
    List Message :=
  (trace.filter fun entry =>
    entry.1.msgType = kind ∧ entry.1.inst = inst ∧ entry.2.isSome = true).map Prod.fst

theorem answered_concat (kind : MessageType) (inst : WithBot ℕ)
    (trace : List (Message × Option Message)) (msg : Message) (reply : Option Message) :
    answered kind inst (trace ++ [(msg, reply)]) = answered kind inst trace ++
      if msg.msgType = kind ∧ msg.inst = inst ∧ reply.isSome = true then [msg] else [] := by
  unfold answered
  rw [List.filter_append, List.map_append]
  congr 1
  by_cases holds : msg.msgType = kind ∧ msg.inst = inst ∧ reply.isSome = true
  · simp [holds]
  · rw [if_neg holds]
    simp [holds]

/-- What the record of an instance says of the requests answered so far: the
promise bounds every answered PREPARE, and the accepted value is the one of the
last answered ACCEPT, whose number is the greatest. -/
structure RecordFits (prepares accepts : List Message) (record : AcceptRecord) : Prop where
  ordered : record.accp ≤ record.prep
  promised : ∀ prepare ∈ prepares, prepare.proposal ≤ record.prep
  accepted : (accepts = [] ∧ record.accp = noNumber) ∨
    ∃ earlier last, accepts = earlier ++ [last] ∧ record.accp = last.proposal ∧
      record.accv = last.value ∧ record.cid = last.clientId
  greatest : ∀ accept ∈ accepts, accept.proposal ≤ record.accp ∧
    ((0 : ℤ) : WithBot ℤ) ≤ accept.proposal

/-- The acceptor after the trace. -/
structure TraceFits (serverConnections : List ℕ) (trace : List (Message × Option Message))
    (acceptor : Acceptor) : Prop where
  running : acceptor.status = .running
  connections : acceptor.serverConnections = serverConnections
  unrecorded : ∀ inst, acceptor.acceptHistory.lookup inst = none →
    answered .PREPARE inst trace = [] ∧ answered .ACCEPT inst trace = []
  recorded : ∀ inst record, acceptor.acceptHistory.lookup inst = some record →
    RecordFits (answered .PREPARE inst trace) (answered .ACCEPT inst trace) record

theorem TraceFits.fresh (serverConnections : List ℕ) :
    TraceFits serverConnections [] (.fresh serverConnections) where
  running := rfl
  connections := rfl
  unrecorded := fun _ _ => ⟨rfl, rfl⟩
  recorded := by simp [Acceptor.fresh]

theorem noNumber_lt_of_nonneg {number : WithBot ℤ} (nonneg : ((0 : ℤ) : WithBot ℤ) ≤ number) :
    noNumber < number :=
  lt_of_lt_of_le (WithBot.coe_lt_coe.mpr (by decide)) nonneg

/-- A PREPARE that raises the promise of a record. -/
theorem RecordFits.prepare {prepares accepts : List Message} {record : AcceptRecord}
    {msg : Message} (fits : RecordFits prepares accepts record)
    (higher : record.prep < msg.proposal) :
    RecordFits (prepares ++ [msg]) accepts { record with prep := msg.proposal } where
  ordered := fits.ordered.trans higher.le
  promised := by
    intro prepare member
    rcases List.mem_append.mp member with old | new
    · exact (fits.promised prepare old).trans higher.le
    · exact (List.mem_singleton.mp new).symm ▸ le_rfl
  accepted := fits.accepted
  greatest := fits.greatest

/-- An ACCEPT with a number not below the promise of a record. -/
theorem RecordFits.accept {prepares accepts : List Message} {record : AcceptRecord}
    {msg : Message} (fits : RecordFits prepares accepts record)
    (nonneg : ((0 : ℤ) : WithBot ℤ) ≤ msg.proposal) (notBelow : record.prep ≤ msg.proposal) :
    RecordFits prepares (accepts ++ [msg]) (acceptedRecord msg) where
  ordered := le_rfl
  promised := fun prepare member => (fits.promised prepare member).trans notBelow
  accepted := .inr ⟨accepts, msg, rfl, rfl, rfl, rfl⟩
  greatest := by
    intro accept member
    rcases List.mem_append.mp member with old | new
    · rcases fits.greatest accept old with ⟨bound, positive⟩
      exact ⟨bound.trans (fits.ordered.trans notBelow), positive⟩
    · have same := List.mem_singleton.mp new
      subst same
      exact ⟨le_rfl, nonneg⟩

/-- One more message keeps the acceptor and the trace in step. -/
theorem TraceFits.extend {serverConnections : List ℕ} {trace : List (Message × Option Message)}
    {acceptor after : Acceptor} {msg : Message} {reply : Option Message}
    (fits : TraceFits serverConnections trace acceptor)
    (servable : Servable serverConnections msg)
    (turn : ServedTurn serverId acceptor msg after reply) :
    TraceFits serverConnections (trace ++ [(msg, reply)]) after := by
  cases turn with
  | duplicate | silent =>
      refine ⟨fits.running, fits.connections, ?_, ?_⟩
      · intro inst missing
        simpa [answered_concat] using fits.unrecorded inst missing
      · intro inst record found
        simpa [answered_concat] using fits.recorded inst record found
  | replied fresh reply history equation =>
      have handled := handleRequest_outcome equation
      have others {inst : WithBot ℕ} (elsewhere : msg.inst ≠ inst) (kind : MessageType) :
          answered kind inst (trace ++ [(msg, some reply)]) = answered kind inst trace := by
        rw [answered_concat, if_neg (fun all => elsewhere all.2.1), List.append_nil]
      have here (kind : MessageType) : answered kind msg.inst (trace ++ [(msg, some reply)]) =
          answered kind msg.inst trace ++ if msg.msgType = kind then [msg] else [] := by
        rw [answered_concat]
        simp
      have first (missing : acceptor.acceptHistory.lookup msg.inst = none) :
          RecordFits (answered .PREPARE msg.inst trace) (answered .ACCEPT msg.inst trace)
            ⟨noNumber, noNumber, .none, none⟩ := by
        rcases fits.unrecorded msg.inst missing with ⟨noPrepares, noAccepts⟩
        rw [noPrepares, noAccepts]
        exact ⟨le_rfl, by simp, .inl ⟨rfl, rfl⟩, by simp⟩
      refine ⟨fits.running, fits.connections, ?_, ?_⟩
      · intro inst missing
        rcases handled.lookup_cases inst with ⟨elsewhere, same⟩ | ⟨_, record, found⟩
        · rw [others (Ne.symm elsewhere), others (Ne.symm elsewhere)]
          exact fits.unrecorded inst (same ▸ missing)
        · exact absurd (missing.symm.trans found) (by simp)
      · intro inst record found
        rcases handled.lookup_cases inst with ⟨elsewhere, same⟩ | ⟨isHere, _⟩
        · rw [others (Ne.symm elsewhere), others (Ne.symm elsewhere)]
          exact fits.recorded inst record (same ▸ found)
        · subst isHere
          rw [here, here]
          cases handled with
          | granted prepare unseen =>
              have same := Option.some.inj ((AList.lookup_insert _).symm.trans found)
              subst same
              have raised := (first unseen).prepare (noNumber_lt_of_nonneg servable.number)
              simpa [prepare] using raised
          | promised prepare old known higher | refused prepare old known higher =>
              have same := Option.some.inj ((AList.lookup_insert _).symm.trans found)
              subst same
              have raised := (fits.recorded _ old known).prepare higher
              simpa [prepare] using raised
          | accepted notPrepare notBelow =>
              have same := Option.some.inj ((AList.lookup_insert _).symm.trans found)
              subst same
              have isAccept : msg.msgType = .ACCEPT := servable.request.resolve_left notPrepare
              cases known : acceptor.acceptHistory.lookup msg.inst with
              | none =>
                  have accepted := (first known).accept servable.number
                    (noNumber_lt_of_nonneg servable.number).le
                  simpa [isAccept] using accepted
              | some old =>
                  have accepted := (fits.recorded _ old known).accept servable.number
                    (notBelow old known)
                  simpa [isAccept] using accepted

theorem traceFits {serverConnections : List ℕ} {messages : List Message}
    (servable : ∀ msg ∈ messages, Servable serverConnections msg) :
    TraceFits serverConnections
      ((Acceptor.fresh serverConnections).trace serverId messages)
      ((Acceptor.fresh serverConnections).after serverId messages) := by
  induction messages using List.reverseRecOn with
  | nil => exact .fresh serverConnections
  | append_singleton messages msg inductionHypothesis =>
      have fits := inductionHypothesis fun other member =>
        servable other (List.mem_append_left _ member)
      have last := servable msg (by simp)
      rw [Acceptor.trace_append, Acceptor.after_append]
      exact fits.extend last (servedTurn (fits.connections.symm ▸ last))

/-! ### Steps of a trace -/

/-- What one entry of a trace says: the message, the acceptor before and after
it, and its reply. -/
structure TraceStep (serverId : ℕ) (serverConnections : List ℕ) (messages : List Message)
    (index : ℕ) (msg : Message) (reply : Option Message) : Prop where
  servable : Servable serverConnections msg
  fits : TraceFits serverConnections
    (((Acceptor.fresh serverConnections).trace serverId messages).take index)
    ((Acceptor.fresh serverConnections).after serverId (messages.take index))
  turn : ServedTurn serverId ((Acceptor.fresh serverConnections).after serverId
      (messages.take index)) msg
    ((Acceptor.fresh serverConnections).after serverId (messages.take (index + 1))) reply

theorem Acceptor.trace_take (acceptor : Acceptor) (messages : List Message) (index : ℕ) :
    (acceptor.trace serverId messages).take index =
      acceptor.trace serverId (messages.take index) := by
  induction messages generalizing acceptor index with
  | nil => simp [Acceptor.trace]
  | cons first rest inductionHypothesis =>
      cases index with
      | zero => rfl
      | succ earlier => exact congrArg (List.cons _) (inductionHypothesis _ earlier)

theorem Acceptor.trace_getElem? {acceptor : Acceptor} {messages : List Message} {index : ℕ}
    {entry : Message × Option Message}
    (found : (acceptor.trace serverId messages)[index]? = some entry) :
    messages[index]? = some entry.1 ∧
      acceptor.after serverId (messages.take (index + 1)) =
        ((acceptor.after serverId (messages.take index)).process serverId entry.1 true).1 ∧
      entry.2 = ((acceptor.after serverId (messages.take index)).process serverId entry.1
        true).2.map Prod.snd := by
  induction messages generalizing acceptor index with
  | nil => simp [Acceptor.trace] at found
  | cons first rest inductionHypothesis =>
      cases index with
      | zero =>
          have same := Option.some.inj found
          subst same
          exact ⟨rfl, rfl, rfl⟩
      | succ earlier => exact inductionHypothesis found

theorem traceStep {serverConnections : List ℕ} {messages : List Message}
    (servable : ∀ msg ∈ messages, Servable serverConnections msg) {index : ℕ} {msg : Message}
    {reply : Option Message}
    (found : ((Acceptor.fresh serverConnections).trace serverId messages)[index]? =
      some (msg, reply)) :
    TraceStep serverId serverConnections messages index msg reply := by
  rcases Acceptor.trace_getElem? found with ⟨isMessage, after, isReply⟩
  have isServable := servable msg (List.mem_of_getElem? isMessage)
  have fits : TraceFits serverConnections
      ((Acceptor.fresh serverConnections).trace serverId (messages.take index))
      ((Acceptor.fresh serverConnections).after serverId (messages.take index)) :=
    traceFits fun other member => servable other (List.mem_of_mem_take member)
  refine ⟨isServable, ?_, ?_⟩
  · rw [Acceptor.trace_take]
    exact fits
  · rw [after, show reply = _ from isReply]
    exact servedTurn (fits.connections.symm ▸ isServable)

/-- An answered request appears among the answered ones. -/
theorem mem_answered {kind : MessageType} {inst : WithBot ℕ}
    {trace : List (Message × Option Message)} {msg reply : Message}
    (member : (msg, some reply) ∈ trace) (isKind : msg.msgType = kind) (isInst : msg.inst = inst) :
    msg ∈ answered kind inst trace :=
  List.mem_map.mpr ⟨(msg, some reply), List.mem_filter.mpr ⟨member, by simp [isKind, isInst]⟩, rfl⟩

/-! ### Instances are separate -/

/-- Two acceptors that cannot be told apart by messages for the instance. -/
structure Agree (inst : WithBot ℕ) (left right : Acceptor) : Prop where
  record : left.acceptHistory.lookup inst = right.acceptHistory.lookup inst
  seen : ∀ msg : Message, msg.inst = inst →
    (msg.signature ∈ left.msgHistory ↔ msg.signature ∈ right.msgHistory)

/-- The reply to a request and the record it leaves depend on the record of its
instance only. -/
theorem handleRequest_congr (serverId : ℕ) {left right : AcceptHistory} {msg : Message}
    (same : left.lookup msg.inst = right.lookup msg.inst) :
    (handleRequest serverId left msg).1 = (handleRequest serverId right msg).1 ∧
      (handleRequest serverId left msg).2.lookup msg.inst =
        (handleRequest serverId right msg).2.lookup msg.inst := by
  simp only [handleRequest, handlePrepare, handleAccept, ← same]
  cases known : left.lookup msg.inst with
  | none => split <;> simp
  | some record =>
      have knownRight := same.symm.trans known
      split <;> dsimp only <;> split <;> simp [known, knownRight]

theorem Agree.remember {inst : WithBot ℕ} {left right : Acceptor} {msg : Message}
    (agree : Agree inst left right) : Agree inst (left.remember msg) (right.remember msg) where
  record := agree.record
  seen := fun other isInst => by simp [Acceptor.remember, agree.seen other isInst]

/-- A message for another instance is not noticed. -/
theorem Agree.skip {inst : WithBot ℕ} {left right after : Acceptor} {msg : Message}
    {reply : Option Message} (agree : Agree inst left right) (elsewhere : msg.inst ≠ inst)
    (turn : ServedTurn serverId left msg after reply) : Agree inst after right := by
  have unseen (other : Message) (isInst : other.inst = inst) : other ≠ msg := by
    rintro rfl
    exact elsewhere isInst
  cases turn with
  | duplicate => exact agree
  | silent =>
      refine ⟨agree.record, fun other isInst => ?_⟩
      simp [Acceptor.remember, unseen other isInst, agree.seen other isInst]
  | replied fresh reply history equation =>
      refine ⟨?_, fun other isInst => ?_⟩
      · rcases (handleRequest_outcome equation).lookup_cases inst with ⟨_, same⟩ | ⟨isHere, _⟩
        · exact same.trans agree.record
        · exact absurd isHere.symm elsewhere
      · simp [Acceptor.remember, unseen other isInst, agree.seen other isInst]

/-- A message for the instance gets the same reply and keeps the agreement. -/
theorem Agree.both {inst : WithBot ℕ} {left right leftAfter rightAfter : Acceptor}
    {msg : Message} {leftReply rightReply : Option Message} (agree : Agree inst left right)
    (isInst : msg.inst = inst) (leftTurn : ServedTurn serverId left msg leftAfter leftReply)
    (rightTurn : ServedTurn serverId right msg rightAfter rightReply) :
    leftReply = rightReply ∧ Agree inst leftAfter rightAfter := by
  have seen := agree.seen msg isInst
  have same : left.acceptHistory.lookup msg.inst = right.acceptHistory.lookup msg.inst :=
    isInst ▸ agree.record
  rcases handleRequest_congr serverId same with ⟨sameReply, sameRecord⟩
  cases leftTurn with
  | duplicate leftSeen =>
      cases rightTurn with
      | duplicate => exact ⟨rfl, agree⟩
      | silent fresh | replied fresh => exact absurd (seen.mp leftSeen) fresh
  | silent leftFresh leftSilent =>
      cases rightTurn with
      | duplicate rightSeen => exact absurd (seen.mpr rightSeen) leftFresh
      | silent => exact ⟨rfl, agree.remember⟩
      | replied fresh reply history equation => simp [leftSilent, equation] at sameReply
  | replied leftFresh reply history equation =>
      cases rightTurn with
      | duplicate rightSeen => exact absurd (seen.mpr rightSeen) leftFresh
      | silent fresh rightSilent => simp [rightSilent, equation] at sameReply
      | replied fresh other otherHistory otherEquation =>
          rw [equation, otherEquation] at sameReply sameRecord
          refine ⟨sameReply, ?_, agree.remember.seen⟩
          exact isInst ▸ sameRecord

/-- An acceptor that also gets messages for other instances answers those for
the instance as one that gets only these. -/
theorem Agree.trace {inst : WithBot ℕ} {serverConnections : List ℕ} {messages : List Message}
    (servable : ∀ msg ∈ messages, Servable serverConnections msg) {left right : Acceptor}
    (agree : Agree inst left right) (leftConnections : left.serverConnections = serverConnections)
    (rightConnections : right.serverConnections = serverConnections) :
    (left.trace serverId messages).filter (fun entry => entry.1.inst = inst) =
        right.trace serverId (messages.filter fun msg => msg.inst = inst) ∧
      Agree inst (left.after serverId messages)
        (right.after serverId (messages.filter fun msg => msg.inst = inst)) := by
  induction messages generalizing left right with
  | nil => exact ⟨rfl, agree⟩
  | cons msg rest inductionHypothesis =>
      have first := servable msg List.mem_cons_self
      have later : ∀ other ∈ rest, Servable serverConnections other :=
        fun other member => servable other (List.mem_cons_of_mem _ member)
      have leftTurn : ServedTurn serverId left msg _ _ :=
        servedTurn (leftConnections.symm ▸ first)
      by_cases isInst : msg.inst = inst
      · have rightTurn : ServedTurn serverId right msg _ _ :=
          servedTurn (rightConnections.symm ▸ first)
        rcases agree.both isInst leftTurn rightTurn with ⟨sameReply, agreeAfter⟩
        rcases inductionHypothesis later agreeAfter
          (leftTurn.serverConnections.trans leftConnections)
          (rightTurn.serverConnections.trans rightConnections) with ⟨sameTrace, agreeLast⟩
        rw [List.filter_cons_of_pos (by simpa using isInst)]
        refine ⟨?_, agreeLast⟩
        rw [Acceptor.trace_cons, Acceptor.trace_cons,
          List.filter_cons_of_pos (by simpa using isInst), sameTrace, sameReply]
      · rcases inductionHypothesis later (agree.skip isInst leftTurn)
          (leftTurn.serverConnections.trans leftConnections) rightConnections with
          ⟨sameTrace, agreeLast⟩
        rw [List.filter_cons_of_neg (by simpa using isInst)]
        refine ⟨?_, agreeLast⟩
        rw [Acceptor.trace_cons, List.filter_cons_of_neg (by simpa using isInst), sameTrace]

/-! ### The law of the promise -/

/-- Both numbers of every record only grow. -/
def RecordsGrow (before after : AcceptHistory) : Prop :=
  ∀ inst earlier, before.lookup inst = some earlier →
    ∃ later, after.lookup inst = some later ∧ earlier.prep ≤ later.prep ∧
      earlier.accp ≤ later.accp

theorem RecordsGrow.refl (history : AcceptHistory) : RecordsGrow history history :=
  fun _ earlier found => ⟨earlier, found, le_rfl, le_rfl⟩

theorem RecordsGrow.trans {first second third : AcceptHistory}
    (left : RecordsGrow first second) (right : RecordsGrow second third) :
    RecordsGrow first third := by
  intro inst earlier found
  rcases left inst earlier found with ⟨middle, foundMiddle, prep, accp⟩
  rcases right inst middle foundMiddle with ⟨later, foundLater, prepLater, accpLater⟩
  exact ⟨later, foundLater, prep.trans prepLater, accp.trans accpLater⟩

theorem ServedTurn.grows {serverConnections : List ℕ} {trace : List (Message × Option Message)}
    {acceptor after : Acceptor} {msg : Message} {reply : Option Message}
    (fits : TraceFits serverConnections trace acceptor)
    (turn : ServedTurn serverId acceptor msg after reply) :
    RecordsGrow acceptor.acceptHistory after.acceptHistory := by
  cases turn with
  | duplicate | silent => exact .refl _
  | replied fresh reply history equation =>
      intro inst earlier found
      rcases (handleRequest_outcome equation).raises found with ⟨later, foundLater, prep, accp⟩
      exact ⟨later, foundLater, prep, accp (fits.recorded inst earlier found).ordered⟩

theorem recordsGrow {serverConnections : List ℕ} {messages later : List Message}
    (servable : ∀ msg ∈ messages ++ later, Servable serverConnections msg) :
    RecordsGrow ((Acceptor.fresh serverConnections).after serverId messages).acceptHistory
      ((Acceptor.fresh serverConnections).after serverId (messages ++ later)).acceptHistory := by
  induction later using List.reverseRecOn with
  | nil => exact (List.append_nil messages).symm ▸ .refl _
  | append_singleton later msg inductionHypothesis =>
      rw [← List.append_assoc] at servable ⊢
      have before : ∀ other ∈ messages ++ later, Servable serverConnections other :=
        fun other member => servable other (List.mem_append_left _ member)
      have last := servable msg (by simp)
      refine (inductionHypothesis before).trans ?_
      rw [Acceptor.after_append _ (messages ++ later)]
      have fits := @traceFits serverId _ _ before
      exact ServedTurn.grows fits (servedTurn (fits.connections.symm ▸ last))

/-- `accept_history` after a sequence of messages, from an empty one. -/
abbrev historyAfter (serverId : ℕ) (serverConnections : List ℕ) (messages : List Message) :
    AcceptHistory :=
  ((Acceptor.fresh serverConnections).after serverId messages).acceptHistory

/-- The replies to a sequence of messages, from an empty `accept_history`. -/
abbrev repliesTo (serverId : ℕ) (serverConnections : List ℕ) (messages : List Message) :
    List (Message × Option Message) :=
  (Acceptor.fresh serverConnections).trace serverId messages

/-- The law of one acceptor over the messages it processed. -/
structure PromiseKept (serverId : ℕ) (serverConnections : List ℕ) (messages : List Message) :
    Prop where
  ordered : ∀ inst record,
    (historyAfter serverId serverConnections messages).lookup inst = some record →
      record.accp ≤ record.prep
  monotone : ∀ count, RecordsGrow
    (historyAfter serverId serverConnections (messages.take count))
    (historyAfter serverId serverConnections messages)
  /-- What is recorded as accepted is the last answered ACCEPT. -/
  recorded : ∀ inst record,
    (historyAfter serverId serverConnections messages).lookup inst = some record →
      RecordFits (answered .PREPARE inst (repliesTo serverId serverConnections messages))
        (answered .ACCEPT inst (repliesTo serverId serverConnections messages)) record
  promised : ∀ (first second : ℕ) (prepare accept promise ack : Message), first < second →
    (repliesTo serverId serverConnections messages)[first]? = some (prepare, some promise) →
    prepare.msgType = .PREPARE →
    (repliesTo serverId serverConnections messages)[second]? = some (accept, some ack) →
    accept.msgType = .ACCEPT → accept.inst = prepare.inst → prepare.proposal ≤ accept.proposal
  nack : ∀ (index : ℕ) (prepare reply : Message),
    (repliesTo serverId serverConnections messages)[index]? = some (prepare, some reply) →
    reply.msgType = .PREPARE_NACK →
      ∃ earlier last,
        answered .ACCEPT prepare.inst
          (repliesTo serverId serverConnections (messages.take index)) = earlier ++ [last] ∧
        reply.inst = prepare.inst ∧ reply.rProposal = last.proposal ∧ reply.value = last.value ∧
        reply.clientId = last.clientId ∧
        ∀ accept ∈ earlier ++ [last], accept.proposal ≤ last.proposal
  ack : ∀ (index : ℕ) (prepare reply : Message),
    (repliesTo serverId serverConnections messages)[index]? = some (prepare, some reply) →
    reply.msgType = .PREPARE_ACK →
      answered .ACCEPT prepare.inst
        (repliesTo serverId serverConnections (messages.take index)) = []
  separate : ∀ inst,
    (historyAfter serverId serverConnections messages).lookup inst =
        (historyAfter serverId serverConnections
          (messages.filter fun msg => msg.inst = inst)).lookup inst ∧
      (repliesTo serverId serverConnections messages).filter (fun entry => entry.1.inst = inst) =
        repliesTo serverId serverConnections (messages.filter fun msg => msg.inst = inst)

/-- A reply to a PREPARE reports the accepted part of the record. -/
theorem TraceFits.prepare_reply {serverConnections : List ℕ}
    {trace : List (Message × Option Message)} {acceptor after : Acceptor} {msg reply : Message}
    (fits : TraceFits serverConnections trace acceptor)
    (turn : ServedTurn serverId acceptor msg after (some reply)) :
    (reply.msgType = .PREPARE_ACK → answered .ACCEPT msg.inst trace = []) ∧
      (reply.msgType = .PREPARE_NACK → ∃ earlier last,
        answered .ACCEPT msg.inst trace = earlier ++ [last] ∧ reply.inst = msg.inst ∧
        reply.rProposal = last.proposal ∧ reply.value = last.value ∧
        reply.clientId = last.clientId ∧
        ∀ accept ∈ earlier ++ [last], accept.proposal ≤ last.proposal) := by
  cases turn with
  | replied fresh _ history equation =>
      cases handleRequest_outcome equation with
      | granted prepare unseen =>
          exact ⟨fun _ => (fits.unrecorded _ unseen).2, fun isNack => absurd isNack (by simp)⟩
      | promised prepare record known higher nothing =>
          have recorded := fits.recorded _ record known
          refine ⟨fun _ => ?_, fun isNack => absurd isNack (by simp)⟩
          -- an answered ACCEPT would be at most the -1 of the record
          refine List.eq_nil_iff_forall_not_mem.mpr fun accept member => ?_
          rcases recorded.greatest accept member with ⟨bound, nonneg⟩
          rw [nothing] at bound
          exact absurd (noNumber_lt_of_nonneg nonneg) (not_lt.mpr bound)
      | refused prepare record known higher something =>
          have recorded := fits.recorded _ record known
          refine ⟨fun isAck => absurd isAck (by simp), fun _ => ?_⟩
          rcases recorded.accepted with ⟨_, nothing⟩ | ⟨earlier, last, split, number, value, client⟩
          · exact absurd nothing something
          · refine ⟨earlier, last, split, rfl, number, value, client, fun accept member => ?_⟩
            exact number ▸ (recorded.greatest accept (split ▸ member)).1
      | accepted notPrepare =>
          constructor <;> intro kind <;> simp [acceptAck] at kind

/-- An answered ACCEPT is not below a PREPARE answered before it. -/
theorem TraceFits.accept_reply {serverConnections : List ℕ}
    {trace : List (Message × Option Message)} {acceptor after : Acceptor}
    {prepare accept reply : Message} (fits : TraceFits serverConnections trace acceptor)
    (turn : ServedTurn serverId acceptor accept after (some reply))
    (isAccept : accept.msgType = .ACCEPT)
    (earlier : prepare ∈ answered .PREPARE accept.inst trace) :
    prepare.proposal ≤ accept.proposal := by
  cases turn with
  | replied fresh _ history equation =>
      cases handleRequest_outcome equation with
      | granted isPrepare | promised isPrepare | refused isPrepare =>
          exact absurd (isAccept.symm.trans isPrepare) (by decide)
      | accepted notPrepare notBelow =>
          cases known : acceptor.acceptHistory.lookup accept.inst with
          | none => simp [(fits.unrecorded _ known).1] at earlier
          | some record =>
              exact ((fits.recorded _ record known).promised prepare earlier).trans
                (notBelow record known)

end Sequence

/-- An acceptor keeps its promises, whatever requests reach it in whatever order. -/
theorem acceptor_promise_kept (serverId : ℕ) (serverConnections : List ℕ)
    (messages : List Message)
    (servable : ∀ msg ∈ messages, Servable serverConnections msg) :
    PromiseKept serverId serverConnections messages := by
  have fits : TraceFits serverConnections (repliesTo serverId serverConnections messages) _ :=
    traceFits servable
  refine ⟨?_, ?_, fits.recorded, ?_, ?_, ?_, ?_⟩
  · intro inst record found
    exact (fits.recorded inst record found).ordered
  · intro count
    have split := List.take_append_drop count messages
    have grow : RecordsGrow (historyAfter serverId serverConnections (messages.take count))
        (historyAfter serverId serverConnections (messages.take count ++ messages.drop count)) :=
      recordsGrow (by rwa [split])
    rwa [split] at grow
  · intro first second prepare accept promise ack before promisedAt isPrepare acceptedAt isAccept
      sameInst
    have step := traceStep servable acceptedAt
    have member := List.mem_of_getElem? ((List.getElem?_take_of_lt before).trans promisedAt)
    exact step.fits.accept_reply step.turn isAccept (mem_answered member isPrepare sameInst.symm)
  · intro index prepare reply answeredAt isNack
    have step := traceStep servable answeredAt
    have reported := (step.fits.prepare_reply step.turn).2 isNack
    rwa [Acceptor.trace_take] at reported
  · intro index prepare reply answeredAt isAck
    have step := traceStep servable answeredAt
    have nothing := (step.fits.prepare_reply step.turn).1 isAck
    rwa [Acceptor.trace_take] at nothing
  · intro inst
    have same : Agree inst (Acceptor.fresh serverConnections) (Acceptor.fresh serverConnections) :=
      ⟨rfl, fun _ _ => Iff.rfl⟩
    rcases same.trace servable rfl rfl with ⟨sameTrace, agree⟩
    exact ⟨agree.record, sameTrace⟩

/-- A request of server 0 for one of two instances. -/
def sampleRequest (kind : MessageType) (number : ℤ) (inst : ℕ) : Message where
  msgType := kind
  proposal := number
  inst := inst
  value := .command ⟨.LOCK, number⟩
  originId := some 0

/-- Late, repeated and competing requests for two instances. -/
def sampleRequests : List Message :=
  [sampleRequest .PREPARE 3 0, sampleRequest .ACCEPT 1 0, sampleRequest .ACCEPT 3 0,
    sampleRequest .PREPARE 4 1, sampleRequest .PREPARE 2 0, sampleRequest .PREPARE 3 0,
    sampleRequest .PREPARE 7 0, sampleRequest .ACCEPT 7 0]

theorem sampleRequests_promise_kept :
    (repliesTo 1 [0, 2] sampleRequests).map (fun entry => entry.2.map Message.msgType) =
        [some .PREPARE_ACK, none, some .ACCEPT_ACK, some .PREPARE_ACK, none, none,
          some .PREPARE_NACK, some .ACCEPT_ACK] ∧
      PromiseKept 1 [0, 2] sampleRequests := by
  refine ⟨by decide, acceptor_promise_kept 1 [0, 2] sampleRequests ?_⟩
  have servable (kind : MessageType) (number : ℤ) (inst : ℕ)
      (request : kind = .PREPARE ∨ kind = .ACCEPT) (nonneg : 0 ≤ number) :
      Servable [0, 2] (sampleRequest kind number inst) :=
    ⟨request, WithBot.coe_le_coe.mpr nonneg, 0, by simp, rfl⟩
  simp only [sampleRequests, List.forall_mem_cons]
  refine ⟨?_, ?_, ?_, ?_, ?_, ?_, ?_, ?_, by simp⟩ <;> exact servable _ _ _ (by decide) (by decide)

end CSE550.Paxos
