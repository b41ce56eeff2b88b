import Mathlib.Data.List.OfFn
import Mathlib.Data.List.Range

/-!
Owns the SEND state of a slot of `async_serv`: what one visit sends, and what the
socket has accepted when the connection is closed.

The request asks for the size of a pointer, and what was accepted is compared with
itself. So the first send that does not fail is the last one.
-/

namespace CSE550.WebServer

/-- The memory a `char *` points to, from the byte it points at. -/
abbrev Memory := ℕ → UInt8

/-- An entry of `partial_sends`: how much was sent, the descriptor and the buffer. -/
structure PartialSend where
  sendIndex : ℕ
  fd : ℤ
  buffer : Memory

/-- What `send` returns: -1, or the number of bytes the socket accepted. -/
inductive SendOutcome where
  | failed
  | accepted (sentBytes : ℕ)
deriving DecidableEq

/-- `sizeof(buffer) - send_index`; an index in `partial_sends` is never above the size. -/
def requested (pointerSize : ℕ) (partialSend : PartialSend) : ℕ :=
  pointerSize - partialSend.sendIndex

/-- A socket accepts some of what is requested. -/
def SendOutcome.Possible (requested : ℕ) : SendOutcome → Prop
  | .failed => True
  | .accepted sentBytes => 1 ≤ sentBytes ∧ sentBytes ≤ requested

/-- The bytes a send hands over, from `send_ptr` on. -/
def PartialSend.handed (partialSend : PartialSend) (sentBytes : ℕ) : List UInt8 :=
  (List.range sentBytes).map fun offset => partialSend.buffer (partialSend.sendIndex + offset)

/-- What a visit of a slot in SEND does. -/
structure SendVisit where
  /-- What the socket accepts. -/
  handed : List UInt8
  /-- Whether the connection is closed. -/
  closes : Bool
  /-- The slot's entry of `partial_sends` afterwards. -/
  kept : PartialSend

/-- The branch for SEND. The progress is counted in a copy of the entry. -/
def sendVisit (partialSend : PartialSend) : SendOutcome → SendVisit
  | .failed => ⟨[], false, partialSend⟩
  | .accepted sentBytes =>
      let first := partialSend.sendIndex + sentBytes
      ⟨partialSend.handed sentBytes, first ≥ sentBytes, partialSend⟩

/-- What the socket has accepted after the visits with the given outcomes, and
whether the connection is closed. Nothing is sent after that. -/
def sendVisits (partialSend : PartialSend) : List SendOutcome → List UInt8 × Bool
  | [] => ([], false)
  | outcome :: rest =>
      let visit := sendVisit partialSend outcome
      if visit.closes then (visit.handed, true)
      else
        let later := sendVisits visit.kept rest
        (visit.handed ++ later.1, later.2)

/-- The entry for a result, as the results loop stores it. -/
def PartialSend.ofResult (fd : ℤ) (buffer : Memory) : PartialSend := ⟨0, fd, buffer⟩

/-- The buffer holds the bytes of the file; what follows them is unknown. -/
def Holds (buffer : Memory) (content : List UInt8) : Prop :=
  content = (List.range content.length).map buffer

/-- The connection is closed only with the whole file sent. -/
def SendsWhole (partialSend : PartialSend) (content : List UInt8) (outcomes : List SendOutcome) :
    Prop :=
  (sendVisits partialSend outcomes).2 = true → (sendVisits partialSend outcomes).1 = content

/-- The number of bytes accepted by the first send that does not fail. -/
def firstAccepted : List SendOutcome → Option ℕ
  | [] => none
  | .failed :: rest => firstAccepted rest
  | .accepted sentBytes :: _ => some sentBytes

/-- The connection is closed after the first send that does not fail. -/
theorem sendVisits_eq (partialSend : PartialSend) (outcomes : List SendOutcome) :
    sendVisits partialSend outcomes =
      match firstAccepted outcomes with
      | none => ([], false)
      | some sentBytes => (partialSend.handed sentBytes, true) := by
  induction outcomes with
  | nil => rfl
  | cons outcome rest inductionHypothesis =>
      cases outcome with
      | failed =>
          rw [sendVisits, firstAccepted]
          simp only [sendVisit, Bool.false_eq_true, if_false, List.nil_append]
          exact inductionHypothesis
      | accepted sentBytes =>
          have closes : partialSend.sendIndex + sentBytes ≥ sentBytes := by omega
          rw [sendVisits, firstAccepted]
          simp only [sendVisit, closes, decide_true, if_true]

theorem possible_of_firstAccepted {size sentBytes : ℕ} {outcomes : List SendOutcome}
    (possible : ∀ outcome ∈ outcomes, outcome.Possible size)
    (first : firstAccepted outcomes = some sentBytes) : 1 ≤ sentBytes ∧ sentBytes ≤ size := by
  induction outcomes with
  | nil => cases first
  | cons outcome rest inductionHypothesis =>
      rw [List.forall_mem_cons] at possible
      cases outcome with
      | failed => exact inductionHypothesis possible.2 first
      | accepted other =>
          cases first
          exact possible.1

/-- What is handed over is the file when it is as long as the file. -/
theorem handed_eq_iff {buffer : Memory} {content : List UInt8} (holds : Holds buffer content)
    (fd : ℤ) (sentBytes : ℕ) :
    (PartialSend.ofResult fd buffer).handed sentBytes = content ↔ sentBytes = content.length := by
  have handed : (PartialSend.ofResult fd buffer).handed sentBytes =
      (List.range sentBytes).map buffer := by
    simp only [PartialSend.handed, PartialSend.ofResult, Nat.zero_add]
  rw [handed]
  constructor
  · intro same
    rw [← same, List.length_map, List.length_range]
  · rintro rfl
    exact holds.symm

/-- A connection is closed only with the whole file sent, if and only if the first
send that does not fail accepts as many bytes as the file has. -/
theorem sends_whole_iff {buffer : Memory} {content : List UInt8} (holds : Holds buffer content)
    (fd : ℤ) (pointerSize : ℕ) (outcomes : List SendOutcome)
    (possible : ∀ outcome ∈ outcomes,
      outcome.Possible (requested pointerSize (.ofResult fd buffer))) :
    SendsWhole (.ofResult fd buffer) content outcomes ↔
      ∀ sentBytes, firstAccepted outcomes = some sentBytes →
        sentBytes = content.length ∧ content.length ≤ pointerSize := by
  unfold SendsWhole
  rw [sendVisits_eq]
  cases first : firstAccepted outcomes with
  | none => simp
  | some sentBytes =>
      have within := possible_of_firstAccepted possible first
      rw [requested, PartialSend.ofResult, Nat.sub_zero] at within
      simp only [forall_const, handed_eq_iff holds, Option.some_inj, forall_eq']
      constructor
      · intro whole
        exact ⟨whole, by omega⟩
      · exact fun both => both.1

/-- A buffer with a file's bytes and zeros behind them. -/
def fileBuffer (content : List UInt8) : Memory := fun offset => content.getD offset 0

theorem holds_fileBuffer (content : List UInt8) : Holds (fileBuffer content) content := by
  apply List.ext_getElem
  · rw [List.length_map, List.length_range]
  · intro offset inside _
    simp [fileBuffer, inside]

/-- A file of three bytes, sent after one failed attempt. -/
theorem sends_whole_short :
    SendsWhole (.ofResult 7 (fileBuffer [72, 105, 10])) [72, 105, 10] [.failed, .accepted 3] := by
  have possible : ∀ outcome ∈ [SendOutcome.failed, .accepted 3],
      outcome.Possible (requested 8 (.ofResult 7 (fileBuffer [72, 105, 10]))) := by
    simp [SendOutcome.Possible, requested, PartialSend.ofResult]
  apply (sends_whole_iff (holds_fileBuffer _) 7 8 _ possible).mpr
  intro sentBytes first
  obtain rfl : 3 = sentBytes := Option.some.inj first
  decide

/-- Of a file of ten bytes the socket has accepted eight when the connection is closed. -/
theorem long_file_cut :
    Holds (fileBuffer [0, 1, 2, 3, 4, 5, 6, 7, 8, 9]) [0, 1, 2, 3, 4, 5, 6, 7, 8, 9] ∧
      SendOutcome.Possible (requested 8 (.ofResult 7 (fileBuffer [0, 1, 2, 3, 4, 5, 6, 7, 8, 9])))
        (.accepted 8) ∧
      ¬ SendsWhole (.ofResult 7 (fileBuffer [0, 1, 2, 3, 4, 5, 6, 7, 8, 9]))
        [0, 1, 2, 3, 4, 5, 6, 7, 8, 9] [.accepted 8] := by
  refine ⟨holds_fileBuffer _, ⟨by decide, by decide⟩, fun whole => ?_⟩
  exact absurd (whole (by decide)) (by decide)

end CSE550.WebServer
