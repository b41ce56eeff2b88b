import CSE550.Paxos.Steps

/-!
Owns what a write that fails does: to the other connections of a broadcast, and
to the acceptor whose reply it was.

A broadcast passes over the connection behind a failing one. An acceptor that
owes a reply it cannot deliver leaves its processing loop.
-/

namespace CSE550.Paxos

/-! ### The broadcast -/

/-- The connections on which `sendall` does not raise. -/
def liveConnections (fails connections : List ℕ) : List ℕ :=
  connections.filter fun connection => connection ∉ fails

/-- Every live connection is written to once, and the live ones remain. -/
def BroadcastExact (fails connections : List ℕ) : Prop :=
  (∀ connection ∈ connections, connection ∉ fails →
    (sendToAcceptors fails connections).1.count connection = 1) ∧
  (sendToAcceptors fails connections).2 = liveConnections fails connections

instance broadcastExactDecidable (fails connections : List ℕ) :
    Decidable (BroadcastExact fails connections) := by
  unfold BroadcastExact
  infer_instance

section Broadcast

variable {fails rest : List ℕ} {connection following : ℕ}

/-- A live connection in front changes nothing for those behind it. -/
theorem broadcastExact_cons_live (fresh : connection ∉ following :: rest)
    (live : connection ∉ fails) :
    BroadcastExact fails (connection :: following :: rest) ↔
      BroadcastExact fails (following :: rest) := by
  have walk : sendToAcceptors fails (connection :: following :: rest) =
      (connection :: (sendToAcceptors fails (following :: rest)).1,
        connection :: (sendToAcceptors fails (following :: rest)).2) := by
    rw [sendToAcceptors, if_neg live]
  have keptLive : liveConnections fails (connection :: following :: rest) =
      connection :: liveConnections fails (following :: rest) :=
    List.filter_cons_of_pos (by simpa using live)
  have unwritten : connection ∉ (sendToAcceptors fails (following :: rest)).1 :=
    fun written => fresh ((sendToAcceptors_sublist fails _).1.subset written)
  unfold BroadcastExact
  rw [walk, keptLive]
  constructor
  · rintro ⟨once, kept⟩
    refine ⟨fun other member otherLive => ?_, (List.cons.inj kept).2⟩
    have different : connection ≠ other := fun same => fresh (same ▸ member)
    have counted := once other (List.mem_cons_of_mem _ member) otherLive
    rwa [List.count_cons_of_ne different] at counted
  · rintro ⟨once, kept⟩
    refine ⟨fun other member otherLive => ?_, by rw [kept]⟩
    rcases List.mem_cons.mp member with rfl | behind
    · rw [List.count_cons_self, List.count_eq_zero_of_not_mem unwritten]
    · have different : connection ≠ other := fun same => fresh (same ▸ behind)
      rw [List.count_cons_of_ne different]
      exact once other behind otherLive

/-- The connection behind a failing one is kept without a write. -/
theorem not_broadcastExact_of_fails (distinct : (connection :: following :: rest).Nodup)
    (failing : connection ∈ fails) :
    ¬ BroadcastExact fails (connection :: following :: rest) := by
  have walk : sendToAcceptors fails (connection :: following :: rest) =
      ((sendToAcceptors fails rest).1, following :: (sendToAcceptors fails rest).2) := by
    rw [sendToAcceptors, if_pos failing]
  have fresh : following ∉ rest := (List.nodup_cons.mp (List.nodup_cons.mp distinct).2).1
  rintro ⟨once, kept⟩
  rw [walk] at once kept
  by_cases live : following ∈ fails
  · have inKept : following ∈ liveConnections fails (connection :: following :: rest) :=
      kept ▸ List.mem_cons_self
    have isLive := (List.mem_filter.mp inKept).2
    exact absurd live (by simpa using isLive)
  · have unwritten : following ∉ (sendToAcceptors fails rest).1 :=
      fun written => fresh ((sendToAcceptors_sublist fails rest).1.subset written)
    have counted := once following (by simp) live
    rw [List.count_eq_zero_of_not_mem unwritten] at counted
    omega

end Broadcast

/-- A broadcast over distinct connections reaches every live one and keeps exactly
those, if and only if no connection but the last fails. -/
theorem broadcast_exact_iff (fails connections : List ℕ) (distinct : connections.Nodup) :
    BroadcastExact fails connections ↔ ∀ connection ∈ connections.dropLast, connection ∉ fails := by
  induction connections with
  | nil => simp [BroadcastExact, sendToAcceptors, liveConnections]
  | cons connection rest inductionHypothesis =>
      rcases List.nodup_cons.mp distinct with ⟨fresh, distinctRest⟩
      cases rest with
      | nil =>
          by_cases failing : connection ∈ fails <;>
            simp [BroadcastExact, sendToAcceptors, liveConnections, failing]
      | cons following rest =>
          rw [List.dropLast_cons_cons, List.forall_mem_cons]
          by_cases failing : connection ∈ fails
          · have broken := not_broadcastExact_of_fails distinct failing
            exact iff_of_false broken fun all => all.1 failing
          · rw [broadcastExact_cons_live fresh failing, inductionHypothesis distinctRest]
            exact (and_iff_right failing).symm

/-- Three connections, of which the last fails. -/
theorem broadcast_exact_iff_last :
    BroadcastExact [2] [0, 1, 2] ↔ ∀ connection ∈ [0, 1, 2].dropLast, connection ∉ [2] :=
  broadcast_exact_iff [2] [0, 1, 2] (by decide)

/-- The first of two connections fails: the second is not written to. -/
theorem broadcast_skips_following :
    [0, 1].Nodup ∧ ¬ BroadcastExact [0] [0, 1] := by
  decide

/-! ### The reply of an acceptor -/

/-- The reply to the message cannot be delivered: no connection to its origin was
opened, or `sendall` raises. -/
def Undeliverable (acceptor : Acceptor) (msg : Message) (delivered : Bool) : Prop :=
  delivered = false ∨ ∀ proposer ∈ acceptor.serverConnections, msg.originId ≠ some proposer

/-- The acceptor owes no reply: it has seen the message before, or it has promised
a number that the message does not reach. -/
def OwesNoReply (acceptor : Acceptor) (msg : Message) : Prop :=
  msg.signature ∈ acceptor.msgHistory ∨
    ∃ record, acceptor.acceptHistory.lookup msg.inst = some record ∧
      if msg.msgType = .PREPARE then msg.proposal ≤ record.prep else msg.proposal < record.prep

/-- The acceptor stays in its loop, its history is as before or as after the
reply, and its connections to other servers remain. -/
structure Unharmed (serverId : ℕ) (acceptor : Acceptor) (msg : Message) (after : Acceptor) :
    Prop where
  running : after.status = .running
  history : after.acceptHistory = acceptor.acceptHistory ∨
    after.acceptHistory = (handleRequest serverId acceptor.acceptHistory msg).2
  connections : ∀ server ∈ acceptor.serverConnections, msg.originId ≠ some server →
    server ∈ after.serverConnections

section Reply

variable {serverId : ℕ} {acceptor : Acceptor} {msg : Message} {delivered : Bool}

/-- No handler answers exactly when the promised number is not reached. -/
theorem handleRequest_none_iff :
    (handleRequest serverId acceptor.acceptHistory msg).1 = none ↔
      ∃ record, acceptor.acceptHistory.lookup msg.inst = some record ∧
        if msg.msgType = .PREPARE then msg.proposal ≤ record.prep
        else msg.proposal < record.prep := by
  by_cases kind : msg.msgType = .PREPARE
  · cases found : acceptor.acceptHistory.lookup msg.inst with
    | none => simp [handleRequest, handlePrepare, kind, found]
    | some record =>
        by_cases higher : record.prep < msg.proposal
        · simp [handleRequest, handlePrepare, kind, found, higher]
        · simp [handleRequest, handlePrepare, kind, found, higher, not_lt.mp higher]
  · cases found : acceptor.acceptHistory.lookup msg.inst with
    | none => simp [handleRequest, handleAccept, kind, found]
    | some record =>
        by_cases reached : record.prep ≤ msg.proposal
        · simp [handleRequest, handleAccept, kind, found, reached, not_lt.mpr reached]
        · simp [handleRequest, handleAccept, kind, found, reached, not_le.mp reached]

/-- A reply that cannot be delivered ends the process. -/
theorem respond_of_undeliverable (acceptor : Acceptor) (reply : Message)
    (acceptHistory : AcceptHistory) (undeliverable : Undeliverable acceptor msg delivered) :
    (acceptor.respond reply acceptHistory msg.originId delivered).1.status ≠ .running := by
  unfold Acceptor.respond
  cases origin : msg.originId with
  | none => simp
  | some proposer =>
      by_cases connected : proposer ∈ acceptor.serverConnections
      · have failed : delivered = false := by
          rcases undeliverable with failed | missing
          · exact failed
          · exact absurd origin (missing proposer connected)
        simp [connected, failed]
      · simp [connected]

/-- A turn on a request whose reply cannot be delivered: the acceptor survives it
exactly when it owes no reply. -/
theorem unharmed_undeliverable_iff (serverId : ℕ) (acceptor : Acceptor) (msg : Message)
    (delivered : Bool) (running : acceptor.status = .running)
    (request : msg.msgType = .PREPARE ∨ msg.msgType = .ACCEPT)
    (undeliverable : Undeliverable acceptor msg delivered) :
    Unharmed serverId acceptor msg (acceptor.process serverId msg delivered).1 ↔
      OwesNoReply acceptor msg := by
  have isRequest : msg.msgType ∈ acceptorMsgTypes := by
    rcases request with kind | kind <;> simp [acceptorMsgTypes, kind]
  unfold Acceptor.process OwesNoReply
  rw [if_pos isRequest]
  by_cases seen : msg.signature ∈ acceptor.msgHistory
  · rw [if_pos seen]
    exact iff_of_true ⟨running, .inl rfl, fun _ member _ => member⟩ (.inl seen)
  · rw [if_neg seen, or_iff_right seen, ← @handleRequest_none_iff serverId]
    cases handled : handleRequest serverId acceptor.acceptHistory msg with
    | mk answer acceptHistory =>
        cases answer with
        | none => exact iff_of_true ⟨running, .inl rfl, fun _ member _ => member⟩ rfl
        | some reply =>
            have ended := respond_of_undeliverable
              { acceptor with msgHistory := msg.signature :: acceptor.msgHistory } reply
              acceptHistory undeliverable
            exact iff_of_false (fun unharmed => ended unharmed.running) (by simp)

end Reply

/-- An acceptor that has promised number 5 for instance 0 and lost its connection
to server 1. -/
def promisedFive : Acceptor where
  status := .running
  acceptHistory := AList.insert ((0 : ℕ) : WithBot ℕ)
    ⟨((5 : ℤ) : WithBot ℤ), noNumber, .none, none⟩ ∅
  msgHistory := []
  serverConnections := [0, 2]

/-- The PREPARE of server 1 with a number, for instance 0. -/
def prepareOfOne (number : ℤ) : Message where
  msgType := .PREPARE
  proposal := number
  inst := (0 : ℕ)
  value := .none
  originId := some 1
  clientId := some 7

/-- It survives a PREPARE with number 4. -/
theorem unharmed_undeliverable_iff_four :
    Unharmed 0 promisedFive (prepareOfOne 4) (promisedFive.process 0 (prepareOfOne 4) false).1 ↔
      OwesNoReply promisedFive (prepareOfOne 4) :=
  unharmed_undeliverable_iff 0 promisedFive (prepareOfOne 4) false rfl (.inl rfl) (.inl rfl)

/-- It does not survive a PREPARE with number 7. -/
theorem undeliverable_reply_kills :
    promisedFive.status = .running ∧ Undeliverable promisedFive (prepareOfOne 7) false ∧
      ¬ Unharmed 0 promisedFive (prepareOfOne 7)
        (promisedFive.process 0 (prepareOfOne 7) false).1 := by
  refine ⟨rfl, .inl rfl, fun unharmed => ?_⟩
  have ended : (promisedFive.process 0 (prepareOfOne 7) false).1.status = .raised .keyError := by
    decide
  rw [unharmed.running] at ended
  cases ended

end CSE550.Paxos
