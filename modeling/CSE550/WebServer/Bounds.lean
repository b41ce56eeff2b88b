import CSE550.WebServer.Assembly

/-!
Owns the indices at which the event loop reads and writes `states`,
`partial_filepaths` and `partial_sends`, which have one element less than `ufds`.

Does not own the accesses to `ufds`, which has an element for every entry.
-/

namespace CSE550.WebServer

open CSE550.Lib

/-- The arrays with `MAX_CONNECTIONS` elements. -/
inductive SlotArray where
  | states
  | partialFilepaths
  | partialSends
deriving DecidableEq

/-- The slots at which the search for a free one looks. -/
def Loop.searched (loop : Loop) : List ℕ → List ℕ
  | [] => []
  | slot :: rest =>
      if loop.states slot = .EMPTY then [slot] else slot :: loop.searched rest

/-- The accesses of the branch for the listening socket. -/
def Loop.acceptAccesses (loop : Loop) (answers : Answers) : List (SlotArray × ℕ) :=
  match answers.accept with
  | none => []
  | some _ =>
      if answers.fcntl then
        (loop.searched (List.range' 2 (maxConnections - 2))).map (fun slot => (.states, slot)) ++
          match loop.freeSlot with
          | none => []
          | some slot => [(.states, slot), (.partialFilepaths, slot)]
      else []

/-- The accesses of the loop over the received bytes. -/
def assembleAccesses (slot : ℕ) : List UInt8 → List (SlotArray × ℕ)
  | [] => []
  | byte :: rest =>
      if byte = Loop.newline then [(.states, slot), (.partialFilepaths, slot)]
      else (.partialFilepaths, slot) :: assembleAccesses slot rest

/-- The accesses of the branch for SEND. -/
def Loop.sendAccesses (loop : Loop) (answers : Answers) (slot : ℕ) : List (SlotArray × ℕ) :=
  (.partialSends, slot) ::
    match answers.send with
    | .failed => []
    | .accepted sentBytes =>
        if (sendVisit (loop.partialSends slot) (.accepted sentBytes)).closes then
          [(.states, slot)]
        else []

/-- The accesses of a visit. The tests for RECV and SEND read `states` one after the
other. -/
def Loop.visitAccesses (loop : Loop) (answers : Answers) (entry : ℕ) : List (SlotArray × ℕ) :=
  if entry = maxConnections ∧ loop.readable entry then []
  else if entry = 0 then
    if loop.readable 0 then loop.acceptAccesses answers else []
  else
    (.states, entry) ::
      if loop.stateAt answers entry = .RECV then
        if loop.readable entry then assembleAccesses entry (answers.recv.getD []) else []
      else
        (.states, entry) ::
          if loop.stateAt answers entry = .SEND then loop.sendAccesses answers entry else []

/-- The accesses of the state transition after the visits. -/
def transitionAccesses : List (SlotArray × ℕ) :=
  (List.range' 1 (maxConnections - 1)).map fun slot => (.states, slot)

/-- The accesses of the body of the loop over the results. -/
def Loop.resultAccesses (loop : Loop) (result : Result) : List (SlotArray × ℕ) :=
  if result.fd > 0 then
    match loop.stateIndex result.fd, result.buffer with
    | none, _ => []
    | some slot, none => [(.states, slot)]
    | some slot, some _ => [(.partialSends, slot), (.states, slot)]
  else []

/-- The accesses of one step of the loop; the workers have none. -/
def Loop.accesses (loop : Loop) (event : Event) : List (SlotArray × ℕ) :=
  match event, loop.phase with
  | .visit answers, .visiting entry =>
      loop.visitAccesses answers entry ++
        if entry < maxConnections then [] else transitionAccesses
  | .result, .results =>
      match loop.resultQueue with
      | [] => []
      | result :: _ => loop.resultAccesses result
  | _, _ => []

/-- Every access of the step is inside its array. -/
def Loop.InBounds (loop : Loop) (event : Event) : Prop :=
  ∀ access ∈ loop.accesses event, access.2 < maxConnections

/-- The step is not a visit of the pipe's entry without a report on the pipe. -/
def Loop.PipeReported (loop : Loop) (event : Event) : Prop :=
  match event, loop.phase with
  | .visit _, .visiting entry => entry = maxConnections → loop.readable entry = true
  | _, _ => True

/-! ### What is not accessed -/

/-- An element of an array is as before. -/
def SlotArray.Kept (array : SlotArray) (slot : ℕ) (loop next : Loop) : Prop :=
  match array with
  | .states => next.states slot = loop.states slot
  | .partialFilepaths => next.partialFilepaths slot = loop.partialFilepaths slot
  | .partialSends => next.partialSends slot = loop.partialSends slot

section Frame

variable {loop next final : Loop} {array : SlotArray} {slot entry : ℕ} {answers : Answers}
  {event : Event}

/-- Nothing is written to the arrays. -/
theorem SlotArray.Kept.unwritten (states : next.states = loop.states)
    (partialFilepaths : next.partialFilepaths = loop.partialFilepaths)
    (partialSends : next.partialSends = loop.partialSends) : array.Kept slot loop next := by
  cases array with
  | states => exact congrFun states slot
  | partialFilepaths => exact congrFun partialFilepaths slot
  | partialSends => exact congrFun partialSends slot

theorem SlotArray.Kept.refl : array.Kept slot loop loop := .unwritten rfl rfl rfl

theorem SlotArray.Kept.trans (first : array.Kept slot loop next)
    (second : array.Kept slot next final) : array.Kept slot loop final := by
  cases array with
  | states => exact Eq.trans second first
  | partialFilepaths => exact Eq.trans second first
  | partialSends => exact Eq.trans second first

theorem Loop.accept_kept (unused : (array, slot) ∉ loop.acceptAccesses answers) :
    array.Kept slot loop (loop.acceptConnection answers) := by
  unfold Loop.acceptAccesses at unused
  unfold Loop.acceptConnection
  cases accepted : answers.accept with
  | none => exact .refl
  | some newFd =>
      dsimp only
      split
      · rename_i flagged
        have same : (loop.openConnection newFd).freeSlot = loop.freeSlot := rfl
        rw [same]
        cases free : loop.freeSlot with
        | none => exact .refl
        | some taken =>
            simp only [accepted, flagged, free, if_true, List.mem_append, List.mem_cons,
              Prod.mk.injEq, not_or] at unused
            rcases unused with ⟨_, notState, notPath, _⟩
            cases array with
            | states => exact Function.update_of_ne (fun same => notState ⟨rfl, same⟩) _ _
            | partialFilepaths => exact Function.update_of_ne (fun same => notPath ⟨rfl, same⟩) _ _
            | partialSends => rfl
      · exact .refl

theorem Loop.assemble_kept (bytes : List UInt8) (loop : Loop)
    (unused : (array, slot) ∉ assembleAccesses entry bytes) :
    array.Kept slot loop (Loop.assemble entry bytes loop) := by
  induction bytes generalizing loop with
  | nil => exact .refl
  | cons byte rest inductionHypothesis =>
      rw [assembleAccesses] at unused
      rw [Loop.assemble]
      by_cases isNewline : byte = Loop.newline
      · rw [if_pos isNewline] at unused ⊢
        simp only [List.mem_cons, Prod.mk.injEq, not_or] at unused
        rcases unused with ⟨notState, _, _⟩
        cases array with
        | states => exact Function.update_of_ne (fun same => notState ⟨rfl, same⟩) _ _
        | partialFilepaths => rfl
        | partialSends => rfl
      · rw [if_neg isNewline] at unused ⊢
        simp only [List.mem_cons, Prod.mk.injEq, not_or] at unused
        rcases unused with ⟨notPath, later⟩
        refine .trans ?_ (inductionHypothesis _ later)
        cases array with
        | states => rfl
        | partialFilepaths => exact Function.update_of_ne (fun same => notPath ⟨rfl, same⟩) _ _
        | partialSends => rfl

theorem Loop.sendPart_kept (unused : (array, slot) ∉ loop.sendAccesses answers entry) :
    array.Kept slot loop (loop.sendPart answers entry) := by
  unfold Loop.sendAccesses at unused
  unfold Loop.sendPart
  cases sent : answers.send with
  | failed => exact .refl
  | accepted sentBytes =>
      dsimp only
      split
      · rename_i closes
        simp only [sent, closes, if_true, List.mem_cons, Prod.mk.injEq, not_or] at unused
        rcases unused with ⟨_, notState, _⟩
        cases array with
        | states => exact Function.update_of_ne (fun same => notState ⟨rfl, same⟩) _ _
        | partialFilepaths => rfl
        | partialSends => rfl
      · exact .unwritten rfl rfl rfl

theorem Loop.visit_kept (unused : (array, slot) ∉ loop.visitAccesses answers entry) :
    array.Kept slot loop (loop.visit answers entry) := by
  have cleared : array.Kept slot loop (loop.clearEvents entry) := by
    exact .unwritten rfl rfl rfl
  unfold Loop.visitAccesses at unused
  unfold Loop.visit
  by_cases isPipe : entry = maxConnections ∧ loop.readable entry = true
  · rw [if_pos isPipe]
    split
    · exact .refl
    · exact cleared
  · rw [if_neg isPipe] at unused ⊢
    by_cases isFirst : entry = 0
    · rw [if_pos isFirst] at unused ⊢
      split
      · rename_i readable
        rw [if_pos readable] at unused
        exact Loop.accept_kept unused
      · exact .refl
    · rw [if_neg isFirst] at unused ⊢
      cases state : loop.stateAt answers entry with
      | RECV =>
          dsimp only
          split
          · rename_i readable
            have later : (array, slot) ∉ assembleAccesses entry (answers.recv.getD []) := by
              simpa [state, readable] using fun member => unused (by simp [state, readable, member])
            unfold Loop.receive
            cases received : answers.recv with
            | none => exact .refl
            | some bytes =>
                rw [received] at later
                refine (Loop.assemble_kept bytes loop later).trans ?_
                exact .unwritten rfl rfl rfl
          · exact .refl
      | SEND =>
          exact Loop.sendPart_kept fun member => unused (by simp [state, member])
      | EMPTY => exact .refl
      | INIT => exact .refl
      | PROC => exact .refl

theorem Loop.advance_kept
    (unused : (array, slot) ∉ if entry < maxConnections then [] else transitionAccesses) :
    array.Kept slot loop (loop.advance entry) := by
  unfold Loop.advance
  split
  · exact .unwritten rfl rfl rfl
  · rename_i isLast
    rw [if_neg isLast] at unused
    cases array with
    | states =>
        refine if_neg fun moves => unused (List.mem_map.mpr ⟨slot, ?_, rfl⟩)
        rw [List.mem_range'_1]
        omega
    | partialFilepaths => rfl
    | partialSends => rfl

theorem Loop.result_kept {result : Result} {rest : List Result}
    (unused : (array, slot) ∉ loop.resultAccesses result) :
    array.Kept slot loop ({ loop with resultQueue := rest }.handleResult result) := by
  unfold Loop.resultAccesses at unused
  unfold Loop.handleResult
  have same : { loop with resultQueue := rest }.stateIndex result.fd =
      loop.stateIndex result.fd := rfl
  rw [same]
  split
  · rename_i positive
    rw [if_pos positive] at unused
    cases found : loop.stateIndex result.fd with
    | none =>
        exact .unwritten rfl rfl rfl
    | some taken =>
        unfold Loop.store
        cases buffer : result.buffer with
        | none =>
            simp only [found, buffer, List.mem_cons, Prod.mk.injEq, not_or] at unused
            cases array with
            | states => exact Function.update_of_ne (fun same => unused.1 ⟨rfl, same⟩) _ _
            | partialFilepaths => rfl
            | partialSends => rfl
        | some memory =>
            simp only [found, buffer, List.mem_cons, Prod.mk.injEq, not_or] at unused
            cases array with
            | states => exact Function.update_of_ne (fun same => unused.2.1 ⟨rfl, same⟩) _ _
            | partialFilepaths => rfl
            | partialSends => exact Function.update_of_ne (fun same => unused.1 ⟨rfl, same⟩) _ _
  · exact .unwritten rfl rfl rfl

/-- A step changes no element that it does not access. -/
theorem Loop.step_kept (taken : loop.step event = some next)
    (unused : (array, slot) ∉ loop.accesses event) : array.Kept slot loop next := by
  unfold Loop.accesses at unused
  cases Loop.transition_of_step taken with
  | poll readable turn => exact .unwritten rfl rfl rfl
  | visit answers entry turn fresh =>
      rw [turn] at unused
      simp only [List.mem_append, not_or] at unused
      exact (Loop.visit_kept unused.1).trans (Loop.advance_kept unused.2)
  | idle turn empty => exact .unwritten rfl rfl rfl
  | result result rest turn queue =>
      rw [turn, queue] at unused
      exact Loop.result_kept unused
  | take task rest queue => exact .unwritten rfl rfl rfl
  | finish index buffer task found => exact .unwritten rfl rfl rfl

end Frame

/-! ### Where the indices lie -/

section Bounds

variable {loop next : Loop} {answers : Answers} {entry slot : ℕ} {event : Event}

theorem Loop.searched_subset (loop : Loop) (slots : List ℕ) : loop.searched slots ⊆ slots := by
  induction slots with
  | nil => exact List.Subset.refl []
  | cons slot rest inductionHypothesis =>
      rw [Loop.searched]
      split
      · simp
      · exact List.cons_subset_cons slot inductionHypothesis

/-- A new connection is put into a slot of the arrays. -/
theorem Loop.acceptAccesses_bounded (loop : Loop) (answers : Answers) :
    ∀ access ∈ loop.acceptAccesses answers, access.2 < maxConnections := by
  intro access member
  unfold Loop.acceptAccesses at member
  split at member
  · cases member
  · split at member
    · rcases List.mem_append.mp member with searched | taken
      · rcases List.mem_map.mp searched with ⟨slot, looked, rfl⟩
        have inside := List.mem_range'_1.mp (loop.searched_subset _ looked)
        simp only [maxConnections] at inside ⊢
        omega
      · cases free : loop.freeSlot with
        | none => simp [free] at taken
        | some slot =>
            have inside := (Slots.of_freeSlot free).2.1
            rw [free] at taken
            rcases List.mem_cons.mp taken with rfl | taken
            · exact inside
            · rw [List.mem_singleton.mp taken]
              exact inside
    · cases member

theorem assembleAccesses_index (slot : ℕ) (bytes : List UInt8) :
    ∀ access ∈ assembleAccesses slot bytes, access.2 = slot := by
  induction bytes with
  | nil => simp [assembleAccesses]
  | cons byte rest inductionHypothesis =>
      rw [assembleAccesses]
      split
      · simp
      · simpa using inductionHypothesis

theorem Loop.sendAccesses_index (loop : Loop) (answers : Answers) (slot : ℕ) :
    ∀ access ∈ loop.sendAccesses answers slot, access.2 = slot := by
  unfold Loop.sendAccesses
  split
  · simp
  · split
    · simp
    · simp

/-- A visit of an entry with a slot stays at that slot. -/
theorem Loop.visitAccesses_index (notFirst : entry ≠ 0) :
    ∀ access ∈ loop.visitAccesses answers entry, access.2 = entry := by
  unfold Loop.visitAccesses
  split
  · simp
  · rw [List.forall_mem_cons]
    refine ⟨rfl, ?_⟩
    split
    · split
      · exact assembleAccesses_index entry _
      · simp
    · rw [List.forall_mem_cons]
      refine ⟨rfl, ?_⟩
      split
      · exact loop.sendAccesses_index answers entry
      · simp

/-- A visit leaves the arrays exactly at the pipe's entry without a report. -/
theorem Loop.visitAccesses_bounded_iff (bounded : entry ≤ maxConnections) :
    (∀ access ∈ loop.visitAccesses answers entry, access.2 < maxConnections) ↔
      (entry = maxConnections → loop.readable entry = true) := by
  by_cases isFirst : entry = 0
  · subst isFirst
    have notLast : (0 : ℕ) ≠ maxConnections := by decide
    refine iff_of_true ?_ fun isLast => absurd isLast notLast
    rw [Loop.visitAccesses, if_neg fun isPipe => notLast isPipe.1, if_pos rfl]
    split
    · exact loop.acceptAccesses_bounded answers
    · simp
  · by_cases isLast : entry = maxConnections
    · subst isLast
      by_cases readable : loop.readable maxConnections = true
      · simp [Loop.visitAccesses, readable]
      · refine iff_of_false (fun inside => ?_) (by simp [readable])
        have outside := inside (.states, maxConnections) (by
          simp [Loop.visitAccesses, readable, isFirst])
        exact absurd outside (lt_irrefl _)
    · refine iff_of_true (fun access member => ?_) fun same => absurd same isLast
      rw [Loop.visitAccesses_index isFirst access member]
      omega

theorem transitionAccesses_bounded :
    ∀ access ∈ transitionAccesses, access.2 < maxConnections := by
  intro access member
  rcases List.mem_map.mp member with ⟨slot, inRange, rfl⟩
  have inside := List.mem_range'_1.mp inRange
  simp only [maxConnections] at inside ⊢
  omega

theorem Loop.resultAccesses_bounded (loop : Loop) (result : Result) :
    ∀ access ∈ loop.resultAccesses result, access.2 < maxConnections := by
  unfold Loop.resultAccesses
  split
  · cases found : loop.stateIndex result.fd with
    | none => simp
    | some slot =>
        have inside : slot < maxConnections := by
          rw [Loop.stateIndex, List.find?_range_eq_some] at found
          exact List.mem_range.mp found.2.1
        cases result.buffer with
        | none => simpa using inside
        | some buffer => simpa using inside
  · simp

/-- A step leaves the arrays exactly at the pipe's entry without a report. -/
theorem Loop.inBounds_iff
    (bounded : ∀ entry, loop.phase = .visiting entry → entry ≤ maxConnections) :
    loop.InBounds event ↔ loop.PipeReported event := by
  unfold Loop.InBounds Loop.accesses Loop.PipeReported
  split
  · rename_i answers entry turn
    rw [List.forall_mem_append, Loop.visitAccesses_bounded_iff (bounded entry turn), turn]
    refine and_iff_left ?_
    split
    · simp
    · exact transitionAccesses_bounded
  · refine iff_of_true ?_ (by simp)
    split
    · simp
    · exact loop.resultAccesses_bounded _
  · simp

/-- A run stays inside the arrays exactly when in every visit of the pipe's entry the
pipe is readable. -/
theorem arrays_in_bounds_iff (setup : Setup) {events : List Event}
    (run : setup.machine.Run events loop) :
    setup.machine.Meets Loop.InBounds setup.start events ↔
      setup.machine.Meets Loop.PipeReported setup.start events :=
  Machine.meets_congr
    (fun _ _ _ reached _ => Loop.inBounds_iff (bounded_of_reachable setup reached)) run

end Bounds

/-- A poll that times out: all entries up to the pipe's are visited. -/
def idleRound : List Event := .poll (fun _ => false) :: List.replicate maxConnections quiet

theorem arrays_in_bounds_iff_idle :
    (setupWith 0).machine.Meets Loop.InBounds (setupWith 0).start idleRound ↔
      (setupWith 0).machine.Meets Loop.PipeReported (setupWith 0).start idleRound :=
  arrays_in_bounds_iff (setupWith 0) (Setup.run_after (by decide))

/-- The next visit reads `states` behind its last element. -/
theorem idle_round_leaves_array : ∃ loop, (setupWith 0).machine.Run idleRound loop ∧
    (loop.step quiet).isSome ∧ ¬ loop.InBounds quiet := by
  refine ⟨_, Setup.run_after (by decide), by decide, fun inside => ?_⟩
  have outside : (SlotArray.states, maxConnections) ∈
      ((setupWith 0).after idleRound).accesses quiet := by
    decide
  exact lt_irrefl _ (inside _ outside)

end CSE550.WebServer
