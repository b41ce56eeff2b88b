import CSE550.WebServer.EventLoop
import Mathlib.Data.List.Perm.Basic

/-!
Owns the bookkeeping of descriptors in the event loop: which slot serves which
connection, and that each result finds its slot.

The search for a result starts at entry 0. Entry 1 is in no state but EMPTY and its
descriptor is never written, so it can hide a slot: everything here is about runs
in which no task is queued for that descriptor, and in which the read behind the
array `states` does not look like a slot in SEND.
-/

namespace CSE550.WebServer

open CSE550.Lib

/-- The requests between the loop and the workers: descriptor and origin. -/
def Loop.outstanding (loop : Loop) : List (ℤ × Option Owner) :=
  loop.taskQueue.map (fun task => (task.fd, task.origin)) ++
    (loop.reading.map (fun task => (task.fd, task.origin)) ++
      loop.resultQueue.map fun result => (result.fd, result.origin))

/-- Results reach the connection that asked. -/
structure Matched (loop : Loop) : Prop where
  /-- Slots that are not EMPTY hold distinct descriptors. -/
  distinct : ∀ slot < maxConnections, ∀ other < maxConnections, loop.states slot ≠ .EMPTY →
    loop.states other ≠ .EMPTY → loop.fds slot = loop.fds other → slot = other
  /-- An outstanding request has one slot in PROC, which the search finds, and its
  descriptor still is the connection that it came from. -/
  served : ∀ request ∈ loop.outstanding, ∃ slot < maxConnections,
    loop.states slot = .PROC ∧ loop.fds slot = request.1 ∧
      (∀ other < maxConnections, loop.states other = .PROC → loop.fds other = request.1 →
        other = slot) ∧
      loop.stateIndex request.1 = some slot ∧ loop.owner request.1 = request.2
  /-- What is sent goes to the connection of the request it answers. -/
  answered : ∀ sent ∈ loop.sent, ∃ number,
    sent.answers = some (.connection number) ∧ sent.onto = sent.answers
  /-- The search never fails. -/
  found : loop.status ≠ .notFound

/-- The visit queues a task. -/
def Loop.Queues (loop : Loop) (answers : Answers) (entry : ℕ) : Prop :=
  entry < maxConnections ∧ loop.states entry = .RECV ∧ loop.readable entry = true ∧
    Loop.newline ∈ answers.recv.getD []

instance queuesDecidable (loop : Loop) (answers : Answers) (entry : ℕ) :
    Decidable (loop.Queues answers entry) := by
  unfold Loop.Queues
  infer_instance

/-- The step queues no task for the descriptor in `ufds[1]`, and what lies behind
`states` is not SEND. -/
def Undisturbed (loop : Loop) (event : Event) : Prop :=
  match event, loop.phase with
  | .visit answers, .visiting entry =>
      (loop.Queues answers entry → loop.fds entry ≠ loop.fds 1) ∧ answers.beyond ≠ .SEND
  | _, _ => True

instance undisturbedDecidable (loop : Loop) (event : Event) :
    Decidable (Undisturbed loop event) := by
  unfold Undisturbed
  split <;> infer_instance

theorem Undisturbed.visit {loop : Loop} {answers : Answers} {entry : ℕ}
    (undisturbed : Undisturbed loop (.visit answers)) (turn : loop.phase = .visiting entry) :
    (loop.Queues answers entry → loop.fds entry ≠ loop.fds 1) ∧ answers.beyond ≠ .SEND := by
  simp only [Undisturbed, turn] at undisturbed
  exact undisturbed

/-! ### Slots -/

/-- Closing the descriptor of a slot and giving the slot free. -/
def Loop.retire (loop : Loop) (slot : ℕ) : Loop := (loop.close (loop.fds slot)).release slot

/-- Which slots hold which descriptors. -/
structure Slots (loop : Loop) : Prop where
  listener : loop.owner (loop.fds 0) = some .process
  low : ∀ slot < 2, loop.states slot = .EMPTY
  /-- Slots are filled from below; a slot that was used and is free has no descriptor. -/
  filled : ∃ top, (∀ slot, 2 ≤ slot → slot < top → loop.states slot = .EMPTY →
      loop.fds slot = -1) ∧
    ∀ slot, top ≤ slot → slot < maxConnections → loop.states slot = .EMPTY
  held : ∀ slot < maxConnections, loop.states slot ≠ .EMPTY →
    0 ≤ loop.fds slot ∧ ∃ number, loop.owner (loop.fds slot) = some (.connection number)
  distinct : ∀ slot < maxConnections, ∀ other < maxConnections, loop.states slot ≠ .EMPTY →
    loop.states other ≠ .EMPTY → loop.fds slot = loop.fds other → slot = other

namespace Slots

variable {loop next : Loop} {slot : ℕ}

theorem two_le (slots : Slots loop) (used : loop.states slot ≠ .EMPTY) : 2 ≤ slot := by
  by_contra below
  exact used (slots.low slot (by omega))

/-- The search finds the slot of a descriptor, unless entry 1 has it as well. -/
theorem stateIndex_eq (slots : Slots loop) (inside : slot < maxConnections)
    (used : loop.states slot ≠ .EMPTY) (notFirst : loop.fds slot ≠ loop.fds 1) :
    loop.stateIndex (loop.fds slot) = some slot := by
  rw [Loop.stateIndex, List.find?_range_eq_some]
  refine ⟨by simp, List.mem_range.mpr inside, fun earlier before => ?_⟩
  rcases slots.held slot inside used with ⟨nonneg, number, isConnection⟩
  simp only [Bool.not_eq_true', decide_eq_false_iff_not]
  intro same
  by_cases isListener : earlier = 0
  · rw [← same, isListener, slots.listener] at isConnection
    cases isConnection
  · by_cases isFirst : earlier = 1
    · rw [isFirst] at same
      exact notFirst same.symm
    · by_cases free : loop.states earlier = .EMPTY
      · rcases slots.filled with ⟨top, noDescriptor, unused⟩
        have belowTop : slot < top := by
          by_contra above
          exact used (unused slot (by omega) inside)
        rw [noDescriptor earlier (by omega) (by omega) free] at same
        omega
      · have equal := slots.distinct earlier (by omega) slot inside free used same
        omega

/-- Slots that are not EMPTY may go from one state to another. -/
theorem relabel (slots : Slots loop) (owner : next.owner = loop.owner) (fds : next.fds = loop.fds)
    (states : ∀ slot, next.states slot = .EMPTY ↔ loop.states slot = .EMPTY) : Slots next := by
  constructor
  · rw [owner, fds]
    exact slots.listener
  · exact fun slot below => (states slot).mpr (slots.low slot below)
  · rcases slots.filled with ⟨top, noDescriptor, unused⟩
    refine ⟨top, fun slot low below isEmpty => ?_, fun slot high inside => ?_⟩
    · rw [fds]
      exact noDescriptor slot low below ((states slot).mp isEmpty)
    · exact (states slot).mpr (unused slot high inside)
  · intro slot inside used
    rw [owner, fds]
    exact slots.held slot inside (mt (states slot).mpr used)
  · intro left leftInside right rightInside leftUsed rightUsed equal
    rw [fds] at equal
    exact slots.distinct left leftInside right rightInside (mt (states left).mpr leftUsed)
      (mt (states right).mpr rightUsed) equal

/-- A descriptor that was not open is no slot's. -/
theorem owner_openConnection (slots : Slots loop) {fd : ℕ} (fresh : loop.owner fd = none)
    (inside : slot < maxConnections) (used : loop.states slot ≠ .EMPTY) :
    loop.fds slot ≠ fd ∧
      (loop.openConnection fd).owner (loop.fds slot) = loop.owner (loop.fds slot) := by
  rcases slots.held slot inside used with ⟨_, number, isConnection⟩
  have different : loop.fds slot ≠ fd := by
    intro same
    rw [same, fresh] at isConnection
    cases isConnection
  exact ⟨different, Function.update_of_ne different _ _⟩

theorem openConnection (slots : Slots loop) {fd : ℕ} (fresh : loop.owner fd = none) :
    Slots (loop.openConnection fd) := by
  have listenerOpen : loop.fds 0 ≠ fd := by
    intro same
    have isOpen := slots.listener
    rw [same, fresh] at isOpen
    cases isOpen
  refine ⟨(Function.update_of_ne listenerOpen _ _).trans slots.listener, slots.low, slots.filled,
    fun slot inside used => ?_, slots.distinct⟩
  rcases slots.held slot inside used with ⟨nonneg, number, isConnection⟩
  exact ⟨nonneg, number, (slots.owner_openConnection fresh inside used).2.trans isConnection⟩

/-- The free slot is the first one. -/
theorem of_freeSlot (free : loop.freeSlot = some slot) : 2 ≤ slot ∧ slot < maxConnections ∧
    loop.states slot = .EMPTY ∧
      ∀ earlier, 2 ≤ earlier → earlier < slot → loop.states earlier ≠ .EMPTY := by
  rw [Loop.freeSlot, List.find?_range'_eq_some] at free
  rcases free with ⟨isFree, member, earlier⟩
  rw [List.mem_range'_1] at member
  refine ⟨member.1, by simp only [maxConnections] at member ⊢; omega, by simpa using isFree, ?_⟩
  intro other above before
  simpa using earlier other above before

/-- What occupying a slot does to the slots. -/
theorem occupy_at (loop : Loop) (slot fd other : ℕ) :
    (loop.occupy slot fd).states other = (if other = slot then .INIT else loop.states other) ∧
      (loop.occupy slot fd).fds other = (if other = slot then (fd : ℤ) else loop.fds other) :=
  ⟨Function.update_apply _ _ _ _, Function.update_apply _ _ _ _⟩

/-- The first free slot takes a connection that no slot has. -/
theorem occupy (slots : Slots loop) {fd number : ℕ} (free : loop.freeSlot = some slot)
    (isConnection : loop.owner fd = some (.connection number))
    (unheld : ∀ other < maxConnections, loop.states other ≠ .EMPTY → loop.fds other ≠ fd) :
    Slots (loop.occupy slot fd) := by
  rcases of_freeSlot free with ⟨above, inside, isFree, earlier⟩
  have after := occupy_at loop slot fd
  constructor
  · rw [(after 0).2, if_neg (by omega)]
    exact slots.listener
  · intro other below
    rw [(after other).1, if_neg (by omega)]
    exact slots.low other below
  · rcases slots.filled with ⟨top, noDescriptor, unused⟩
    refine ⟨max top (slot + 1), fun other low below isEmpty => ?_, fun other high isSlot => ?_⟩
    · rw [(after other).1] at isEmpty
      by_cases same : other = slot
      · rw [if_pos same] at isEmpty
        cases isEmpty
      · rw [if_neg same] at isEmpty
        rw [(after other).2, if_neg same]
        by_cases before : other < slot
        · exact absurd isEmpty (earlier other low before)
        · exact noDescriptor other low (by omega) isEmpty
    · rw [(after other).1, if_neg (by omega)]
      exact unused other (by omega) isSlot
  · intro other isSlot used
    rw [(after other).1] at used
    rw [(after other).2]
    by_cases same : other = slot
    · rw [if_pos same]
      exact ⟨Int.natCast_nonneg fd, number, isConnection⟩
    · rw [if_neg same] at used ⊢
      exact slots.held other isSlot used
  · intro left leftInside right rightInside leftUsed rightUsed equal
    rw [(after left).1] at leftUsed
    rw [(after right).1] at rightUsed
    rw [(after left).2, (after right).2] at equal
    by_cases leftNew : left = slot
    · by_cases rightNew : right = slot
      · rw [leftNew, rightNew]
      · rw [if_pos leftNew, if_neg rightNew] at equal
        rw [if_neg rightNew] at rightUsed
        exact absurd equal.symm (unheld right rightInside rightUsed)
    · rw [if_neg leftNew] at leftUsed equal
      by_cases rightNew : right = slot
      · rw [if_pos rightNew] at equal
        exact absurd equal (unheld left leftInside leftUsed)
      · rw [if_neg rightNew] at rightUsed equal
        exact slots.distinct left leftInside right rightInside leftUsed rightUsed equal

/-- What retiring a slot does to the slots. -/
theorem retire_at (loop : Loop) (slot other : ℕ) :
    (loop.retire slot).states other = (if other = slot then .EMPTY else loop.states other) ∧
      (loop.retire slot).fds other = (if other = slot then -1 else loop.fds other) :=
  ⟨Function.update_apply _ _ _ _, Function.update_apply _ _ _ _⟩

theorem owner_retire {fd : ℤ} (different : fd ≠ loop.fds slot) :
    (loop.retire slot).owner fd = loop.owner fd :=
  Function.update_of_ne different _ _

/-- Another slot keeps its descriptor open. -/
theorem owner_fds_retire (slots : Slots loop) (inside : slot < maxConnections)
    (used : loop.states slot ≠ .EMPTY) {other : ℕ} (otherInside : other < maxConnections)
    (otherUsed : loop.states other ≠ .EMPTY) (different : other ≠ slot) :
    (loop.retire slot).owner (loop.fds other) = loop.owner (loop.fds other) :=
  owner_retire fun same => different (slots.distinct other otherInside slot inside otherUsed used
    same)

theorem retire (slots : Slots loop) (inside : slot < maxConnections)
    (used : loop.states slot ≠ .EMPTY) : Slots (loop.retire slot) := by
  have above := slots.two_le used
  have after := retire_at loop slot
  constructor
  · have different : loop.fds 0 ≠ loop.fds slot := by
      intro same
      rcases slots.held slot inside used with ⟨_, number, isConnection⟩
      rw [← same, slots.listener] at isConnection
      cases isConnection
    rw [(after 0).2, if_neg (by omega), owner_retire different]
    exact slots.listener
  · intro other below
    rw [(after other).1, if_neg (by omega)]
    exact slots.low other below
  · rcases slots.filled with ⟨top, noDescriptor, unused⟩
    refine ⟨top, fun other low below isEmpty => ?_, fun other high isSlot => ?_⟩
    · rw [(after other).1] at isEmpty
      rw [(after other).2]
      by_cases same : other = slot
      · rw [if_pos same]
      · rw [if_neg same] at isEmpty ⊢
        exact noDescriptor other low below isEmpty
    · rw [(after other).1]
      by_cases same : other = slot
      · rw [if_pos same]
      · rw [if_neg same]
        exact unused other high isSlot
  · intro other isSlot otherUsed
    rw [(after other).1] at otherUsed
    have different : other ≠ slot := fun same => otherUsed (if_pos same)
    rw [if_neg different] at otherUsed
    rw [(after other).2, if_neg different,
      slots.owner_fds_retire inside used isSlot otherUsed different]
    exact slots.held other isSlot otherUsed
  · intro left leftInside right rightInside leftUsed rightUsed equal
    rw [(after left).1] at leftUsed
    rw [(after right).1] at rightUsed
    have leftKept : left ≠ slot := fun same => leftUsed (if_pos same)
    have rightKept : right ≠ slot := fun same => rightUsed (if_pos same)
    rw [if_neg leftKept] at leftUsed
    rw [if_neg rightKept] at rightUsed
    rw [(after left).2, (after right).2, if_neg leftKept, if_neg rightKept] at equal
    exact slots.distinct left leftInside right rightInside leftUsed rightUsed equal

end Slots

/-! ### Requests -/

/-- What holds of slots, descriptors and requests. -/
structure Kept (loop : Loop) : Prop where
  slots : Slots loop
  once : (loop.outstanding.map Prod.fst).Nodup
  served : ∀ request ∈ loop.outstanding, request.1 ≠ loop.fds 1 ∧
    loop.owner request.1 = request.2 ∧
      ∃ slot < maxConnections, loop.states slot = .PROC ∧ loop.fds slot = request.1
  sending : ∀ slot < maxConnections, loop.states slot = .SEND →
    (loop.partialSends slot).fd = loop.fds slot ∧ loop.answering slot = loop.owner (loop.fds slot)
  answered : ∀ sent ∈ loop.sent, ∃ number,
    sent.answers = some (.connection number) ∧ sent.onto = sent.answers
  found : loop.status ≠ .notFound

namespace Kept

variable {loop : Loop} {slot : ℕ}

/-- The invariant gives what is asked for. -/
theorem matched (kept : Kept loop) : Matched loop where
  distinct := kept.slots.distinct
  served := by
    intro request member
    rcases kept.served request member with ⟨notFirst, origin, slot, inside, proc, same⟩
    have used : loop.states slot ≠ .EMPTY := by simp [proc]
    refine ⟨slot, inside, proc, same, fun other otherInside otherProc otherSame => ?_, ?_, origin⟩
    · exact kept.slots.distinct other otherInside slot inside (by simp [otherProc]) used
        (otherSame.trans same.symm)
    · rw [← same]
      exact kept.slots.stateIndex_eq inside used (by rwa [same])
  answered := kept.answered
  found := kept.found

/-- Reports, paths, the phase and the count are not part of it. -/
theorem unseen (kept : Kept loop) (readable : ℕ → Bool) (paths : ℕ → List UInt8) (phase : Phase)
    (accepted : ℕ) {status : Status} (found : status ≠ .notFound) :
    Kept { loop with
      readable := readable
      partialFilepaths := paths
      phase := phase
      accepted := accepted
      status := status } :=
  ⟨kept.slots.relabel rfl rfl fun _ => Iff.rfl, kept.once, kept.served, kept.sending,
    kept.answered, found⟩

theorem clearEvents (kept : Kept loop) (entry : ℕ) : Kept (loop.clearEvents entry) :=
  kept.unseen _ _ _ _ kept.found

/-- The order of the outstanding requests does not matter, nor where they are. -/
theorem moved (kept : Kept loop) {taskQueue reading : List Task} {resultQueue : List Result}
    (perm : ({ loop with
      taskQueue := taskQueue
      reading := reading
      resultQueue := resultQueue } : Loop).outstanding.Perm loop.outstanding) :
    Kept { loop with
      taskQueue := taskQueue
      reading := reading
      resultQueue := resultQueue } :=
  ⟨kept.slots.relabel rfl rfl fun _ => Iff.rfl, (perm.map Prod.fst).nodup_iff.mpr kept.once,
    fun request member => kept.served request (perm.mem_iff.mp member),
    kept.sending, kept.answered, kept.found⟩

/-- A connection that was accepted, and its slot if it gets one. -/
theorem openConnection (kept : Kept loop) {fd : ℕ} (fresh : loop.owner fd = none) :
    Kept (loop.openConnection fd) := by
  refine ⟨kept.slots.openConnection fresh, kept.once, ?_, ?_, kept.answered, kept.found⟩
  · intro request member
    rcases kept.served request member with ⟨notFirst, origin, slot, inside, proc, same⟩
    have unchanged := (kept.slots.owner_openConnection fresh inside (by simp [proc])).2
    rw [same] at unchanged
    exact ⟨notFirst, unchanged.trans origin, slot, inside, proc, same⟩
  · intro slot inside (sends : loop.states slot = .SEND)
    rcases kept.sending slot inside sends with ⟨sameFd, answers⟩
    have unchanged := (kept.slots.owner_openConnection fresh inside (by simp [sends])).2
    exact ⟨sameFd, answers.trans unchanged.symm⟩

theorem occupy (kept : Kept loop) {fd number : ℕ} (free : loop.freeSlot = some slot)
    (isConnection : loop.owner fd = some (.connection number))
    (unheld : ∀ other < maxConnections, loop.states other ≠ .EMPTY → loop.fds other ≠ fd) :
    Kept (loop.occupy slot fd) := by
  rcases Slots.of_freeSlot free with ⟨above, inside, isFree, _⟩
  have after := Slots.occupy_at loop slot fd
  refine ⟨kept.slots.occupy free isConnection unheld, kept.once, ?_, ?_, kept.answered,
    kept.found⟩
  · intro request member
    rcases kept.served request member with ⟨notFirst, origin, holder, isSlot, proc, same⟩
    have different : holder ≠ slot := by
      rintro rfl
      rw [isFree] at proc
      cases proc
    rw [(after 1).2, if_neg (by omega)]
    exact ⟨notFirst, origin, holder, isSlot, by rw [(after holder).1, if_neg different, proc],
      by rw [(after holder).2, if_neg different, same]⟩
  · intro other isSlot sends
    rw [(after other).1] at sends
    rw [(after other).2]
    by_cases same : other = slot
    · rw [if_pos same] at sends
      cases sends
    · rw [if_neg same] at sends ⊢
      exact kept.sending other isSlot sends

/-- A slot that is not in PROC has no outstanding request. -/
theorem not_outstanding (kept : Kept loop) (inside : slot < maxConnections)
    (used : loop.states slot ≠ .EMPTY) (notProc : loop.states slot ≠ .PROC) :
    loop.fds slot ∉ loop.outstanding.map Prod.fst := by
  intro member
  rcases List.mem_map.mp member with ⟨request, outstanding, same⟩
  rcases kept.served request outstanding with ⟨_, _, holder, isSlot, proc, sameFd⟩
  have equal := kept.slots.distinct holder isSlot slot inside (by simp [proc]) used
    (sameFd.trans same)
  rw [equal] at proc
  exact notProc proc

/-- The slot of an outstanding request is another one. -/
theorem holder_ne {loop : Loop} {slot holder : ℕ} {request : ℤ × Option Owner}
    (notOutstanding : loop.fds slot ∉ loop.outstanding.map Prod.fst)
    (outstanding : request ∈ loop.outstanding) (same : loop.fds holder = request.1) :
    holder ≠ slot := by
  rintro rfl
  rw [same] at notOutstanding
  exact notOutstanding (List.mem_map_of_mem outstanding)

theorem outstanding_queueTask (loop : Loop) (slot : ℕ) : (loop.queueTask slot).outstanding.Perm
    ((loop.fds slot, loop.owner (loop.fds slot)) :: loop.outstanding) := by
  simp only [Loop.outstanding, Loop.queueTask, List.map_append, List.map_cons, List.map_nil,
    List.append_assoc, List.singleton_append]
  exact List.perm_middle

/-- A task for a slot in RECV, unless entry 1 has its descriptor as well. -/
theorem queueTask (kept : Kept loop) (inside : slot < maxConnections)
    (receives : loop.states slot = .RECV) (notFirst : loop.fds slot ≠ loop.fds 1) :
    Kept (loop.queueTask slot) := by
  have fresh := kept.not_outstanding inside (by simp [receives]) (by simp [receives])
  have perm := outstanding_queueTask loop slot
  have states (other : ℕ) : (loop.queueTask slot).states other =
      if other = slot then .PROC else loop.states other := Function.update_apply _ _ _ _
  refine ⟨kept.slots.relabel rfl rfl fun other => ?_, ?_, ?_, ?_, kept.answered, kept.found⟩
  · rw [states other]
    by_cases same : other = slot
    · simp [same, receives]
    · rw [if_neg same]
  · rw [(perm.map Prod.fst).nodup_iff, List.map_cons, List.nodup_cons]
    exact ⟨fresh, kept.once⟩
  · intro request member
    rcases List.mem_cons.mp (perm.mem_iff.mp member) with isNew | isOld
    · subst isNew
      exact ⟨notFirst, rfl, slot, inside, by rw [states, if_pos rfl], rfl⟩
    · rcases kept.served request isOld with ⟨other, origin, holder, isSlot, proc, same⟩
      exact ⟨other, origin, holder, isSlot,
        by rw [states, if_neg (holder_ne fresh isOld same), proc], same⟩
  · intro other isSlot sends
    rw [states] at sends
    by_cases same : other = slot
    · rw [if_pos same] at sends
      cases sends
    · rw [if_neg same] at sends
      exact kept.sending other isSlot sends

/-- Receiving bytes, with at most one task at the first newline. -/
theorem assemble (kept : Kept loop) (inside : slot < maxConnections)
    (receives : loop.states slot = .RECV) {bytes : List UInt8}
    (notFirst : Loop.newline ∈ bytes → loop.fds slot ≠ loop.fds 1) :
    Kept (Loop.assemble slot bytes loop) := by
  induction bytes generalizing loop with
  | nil => exact kept
  | cons byte rest inductionHypothesis =>
      rw [Loop.assemble]
      by_cases isNewline : byte = Loop.newline
      · rw [if_pos isNewline]
        exact kept.queueTask inside receives (notFirst (by simp [isNewline]))
      · rw [if_neg isNewline]
        refine inductionHypothesis ?_ receives fun later =>
          notFirst (List.mem_cons_of_mem byte later)
        exact kept.unseen _ _ _ _ kept.found

/-- Bytes of a slot in SEND go to the connection of the request. -/
theorem handOver (kept : Kept loop) (inside : slot < maxConnections)
    (sends : loop.states slot = .SEND) (bytes : List UInt8) : Kept (loop.handOver slot bytes) := by
  rcases kept.sending slot inside sends with ⟨sameFd, answers⟩
  rcases kept.slots.held slot inside (by simp [sends]) with ⟨_, number, isConnection⟩
  refine ⟨kept.slots.relabel rfl rfl fun _ => Iff.rfl, kept.once, kept.served, kept.sending,
    ?_, kept.found⟩
  intro sent member
  rcases List.mem_append.mp member with isOld | isNew
  · exact kept.answered sent isOld
  · rw [List.mem_singleton] at isNew
    subst isNew
    exact ⟨number, answers.trans isConnection, by rw [sameFd, answers]⟩

/-- Closing the connection of a slot without an outstanding request. -/
theorem retire (kept : Kept loop) (inside : slot < maxConnections)
    (used : loop.states slot ≠ .EMPTY)
    (done : loop.fds slot ∉ loop.outstanding.map Prod.fst) : Kept (loop.retire slot) := by
  have above := kept.slots.two_le used
  have after := Slots.retire_at loop slot
  refine ⟨kept.slots.retire inside used, kept.once, ?_, ?_, kept.answered, kept.found⟩
  · intro request member
    rcases kept.served request member with ⟨notFirst, origin, holder, isSlot, proc, same⟩
    have different := holder_ne done member same
    have owner := kept.slots.owner_fds_retire inside used isSlot (by simp [proc]) different
    rw [same] at owner
    rw [(after 1).2, if_neg (by omega)]
    exact ⟨notFirst, owner.trans origin, holder, isSlot,
      by rw [(after holder).1, if_neg different, proc],
      by rw [(after holder).2, if_neg different, same]⟩
  · intro other isSlot sends
    rw [(after other).1] at sends
    have different : other ≠ slot := fun same => by simp [same] at sends
    rw [if_neg different] at sends
    rw [(after other).2, if_neg different,
      kept.slots.owner_fds_retire inside used isSlot (by simp [sends]) different]
    exact kept.sending other isSlot sends

/-- A buffer in a slot without an outstanding request. -/
theorem storeBuffer (kept : Kept loop) (used : loop.states slot ≠ .EMPTY)
    (done : loop.fds slot ∉ loop.outstanding.map Prod.fst) {result : Result} {buffer : Memory}
    (hasBuffer : result.buffer = some buffer) (same : loop.fds slot = result.fd)
    (origin : loop.owner result.fd = result.origin) : Kept (loop.store slot result) := by
  rw [Loop.store, hasBuffer]
  refine ⟨kept.slots.relabel rfl rfl fun other => ?_, kept.once, ?_, ?_, kept.answered,
    kept.found⟩
  · simp only [Function.update_apply]
    by_cases isSlot : other = slot
    · simp [isSlot, used]
    · rw [if_neg isSlot]
  · intro request member
    rcases kept.served request member with ⟨notFirst, isOwner, holder, isSlot, proc, sameFd⟩
    refine ⟨notFirst, isOwner, holder, isSlot, ?_, sameFd⟩
    exact (Function.update_of_ne (holder_ne done member sameFd) _ _).trans proc
  · intro other isSlot sends
    simp only [Function.update_apply] at sends ⊢
    by_cases isStored : other = slot
    · rw [if_pos isStored, if_pos isStored, isStored, same]
      exact ⟨rfl, origin.symm⟩
    · rw [if_neg isStored] at sends
      rw [if_neg isStored, if_neg isStored]
      exact kept.sending other isSlot sends

theorem startReceiving (kept : Kept loop) : Kept loop.startReceiving := by
  have states {other : ℕ} {state : SlotState} (notRecv : state ≠ .RECV) (notInit : state ≠ .INIT) :
      loop.startReceiving.states other = state ↔ loop.states other = state := by
    simp only [Loop.startReceiving]
    split
    · rename_i starts
      rw [starts.2.2]
      exact ⟨fun same => absurd same.symm notRecv, fun same => absurd same.symm notInit⟩
    · exact Iff.rfl
  refine ⟨kept.slots.relabel rfl rfl fun other => states (by decide) (by decide), kept.once, ?_,
    ?_, kept.answered, kept.found⟩
  · intro request member
    rcases kept.served request member with ⟨notFirst, origin, holder, isSlot, proc, same⟩
    exact ⟨notFirst, origin, holder, isSlot, (states (by decide) (by decide)).mpr proc, same⟩
  · intro other isSlot sends
    exact kept.sending other isSlot ((states (by decide) (by decide)).mp sends)

/-! ### Steps -/

theorem acceptConnection (kept : Kept loop) {answers : Answers} (fresh : loop.Fresh answers) :
    Kept (loop.acceptConnection answers) := by
  unfold Loop.acceptConnection
  cases accepted : answers.accept with
  | none => exact kept
  | some newFd =>
      have isFresh : loop.owner newFd = none := fresh newFd accepted
      have opened := kept.openConnection isFresh
      simp only
      split
      · cases free : (loop.openConnection newFd).freeSlot with
        | none => exact opened.unseen _ _ _ _ (by decide)
        | some slot =>
            have isConnection : (loop.openConnection newFd).owner newFd =
                some (.connection loop.accepted) := Function.update_self _ _ _
            apply clearEvents
            apply opened.occupy free isConnection
            intro other inside used
            exact (kept.slots.owner_openConnection isFresh inside used).1
      · exact opened

theorem sendPart (kept : Kept loop) (answers : Answers) (inside : slot < maxConnections)
    (sends : loop.states slot = .SEND) : Kept (loop.sendPart answers slot) := by
  unfold Loop.sendPart
  cases answers.send with
  | failed => exact kept
  | accepted sentBytes =>
      have handed := kept.handOver inside sends
        (sendVisit (loop.partialSends slot) (.accepted sentBytes)).handed
      simp only
      split
      · apply clearEvents
        have retired := handed.retire inside (show loop.states slot ≠ .EMPTY by simp [sends])
          (kept.not_outstanding inside (by simp [sends]) (by simp [sends]))
        rw [Loop.retire] at retired
        rw [(kept.sending slot inside sends).1]
        exact retired
      · exact handed.clearEvents slot

/-- A visit that is not disturbed. -/
theorem visit (kept : Kept loop) {answers : Answers} {entry : ℕ} (fresh : loop.Fresh answers)
    (bounded : entry ≤ maxConnections)
    (notFirst : loop.Queues answers entry → loop.fds entry ≠ loop.fds 1)
    (beyond : answers.beyond ≠ .SEND) : Kept (loop.visit answers entry) := by
  unfold Loop.visit
  by_cases isPipe : entry = maxConnections ∧ loop.readable entry
  · rw [if_pos isPipe]
    split
    · exact kept
    · exact kept.clearEvents entry
  · rw [if_neg isPipe]
    by_cases isListener : entry = 0
    · rw [if_pos isListener]
      split
      · exact kept.acceptConnection fresh
      · exact kept
    · rw [if_neg isListener]
      by_cases inside : entry < maxConnections
      · rw [Loop.stateAt, if_pos inside]
        cases state : loop.states entry with
        | EMPTY => exact kept
        | INIT => exact kept
        | PROC => exact kept
        | SEND => exact kept.sendPart answers inside state
        | RECV =>
            simp only
            split
            · rename_i isReadable
              unfold Loop.receive
              cases received : answers.recv with
              | none => exact kept
              | some bytes =>
                  apply clearEvents
                  apply kept.assemble inside state
                  exact fun hasNewline =>
                    notFirst ⟨inside, state, isReadable, by rwa [received]⟩
            · exact kept
      · -- the pipe entry without a report: only the read behind the array decides
        have isLast : entry = maxConnections := by omega
        have notReadable : ¬ loop.readable entry = true := fun report => isPipe ⟨isLast, report⟩
        rw [Loop.stateAt, if_neg inside]
        cases state : answers.beyond with
        | EMPTY => exact kept
        | INIT => exact kept
        | PROC => exact kept
        | SEND => exact absurd state beyond
        | RECV =>
            simp only
            rw [if_neg notReadable]
            exact kept

theorem advance (kept : Kept loop) (entry : ℕ) : Kept (loop.advance entry) := by
  unfold Loop.advance
  split
  · exact kept.unseen _ _ _ _ kept.found
  · exact kept.startReceiving.unseen _ _ _ _ kept.found

/-- A result is stored in its slot, which the search finds. -/
theorem handleResult (kept : Kept loop) {result : Result} {rest : List Result}
    (queue : loop.resultQueue = result :: rest) :
    Kept ({ loop with resultQueue := rest }.handleResult result) := by
  have perm : loop.outstanding.Perm ((result.fd, result.origin) ::
      ({ loop with resultQueue := rest } : Loop).outstanding) := by
    simp only [Loop.outstanding, queue, List.map_cons, ← List.append_assoc]
    exact List.perm_middle
  have once := (perm.map Prod.fst).nodup_iff.mp kept.once
  rw [List.map_cons, List.nodup_cons] at once
  have popped : Kept { loop with resultQueue := rest } :=
    ⟨kept.slots.relabel rfl rfl fun _ => Iff.rfl, once.2,
      fun request member => kept.served request (perm.mem_iff.mpr (List.mem_cons_of_mem _ member)),
      kept.sending, kept.answered, kept.found⟩
  rcases kept.served _ (perm.mem_iff.mpr List.mem_cons_self) with
    ⟨notFirst, origin, slot, inside, proc, same⟩
  have used : loop.states slot ≠ .EMPTY := by simp [proc]
  have index : ({ loop with resultQueue := rest } : Loop).stateIndex result.fd = some slot := by
    have found := popped.slots.stateIndex_eq inside used (by rwa [same])
    rwa [same] at found
  have done : loop.fds slot ∉
      (({ loop with resultQueue := rest } : Loop).outstanding).map Prod.fst := by
    rw [same]
    exact once.1
  unfold Loop.handleResult
  split
  · rw [index]
    cases hasBuffer : result.buffer with
    | some buffer => exact popped.storeBuffer used done hasBuffer same origin
    | none =>
        have retired := popped.retire inside used done
        rw [Loop.retire, show ({ loop with resultQueue := rest } : Loop).fds slot = result.fd
          from same] at retired
        simp only [Loop.store, hasBuffer]
        exact retired.clearEvents slot
  · exact popped.unseen _ _ _ _ (by decide)

/-- A task that a worker takes is still outstanding. -/
theorem outstanding_take {task : Task} {rest : List Task} (queue : loop.taskQueue = task :: rest) :
    ({ loop with taskQueue := rest, reading := loop.reading ++ [task] } : Loop).outstanding.Perm
      loop.outstanding := by
  simp only [Loop.outstanding, queue, List.map_append, List.map_cons, List.map_nil,
    List.append_assoc, List.cons_append]
  rw [← List.append_assoc, ← List.append_assoc]
  exact List.perm_middle

/-- The result of a task is outstanding in its place. -/
theorem outstanding_finish {index : ℕ} {task : Task} (found : loop.reading[index]? = some task)
    (buffer : Option Memory) :
    ({ loop with
      reading := loop.reading.eraseIdx index
      resultQueue := loop.resultQueue ++ [⟨task.fd, buffer, task.origin⟩] } :
        Loop).outstanding.Perm loop.outstanding := by
  rcases List.getElem?_eq_some_iff.mp found with ⟨inside, same⟩
  have held := (List.getElem_cons_eraseIdx_perm inside).map fun task : Task =>
    (task.fd, task.origin)
  rw [same, List.map_cons] at held
  simp only [Loop.outstanding, List.map_append, List.map_cons, List.map_nil]
  apply List.Perm.append_left
  rw [← List.append_assoc]
  exact (List.perm_append_singleton _ _).trans (held.append_right _)

/-- Every undisturbed step keeps the invariant. -/
theorem transition (kept : Kept loop) {event : Event} {next : Loop}
    (bounded : ∀ entry, loop.phase = .visiting entry → entry ≤ maxConnections)
    (undisturbed : Undisturbed loop event) (transition : Transition loop event next) :
    Kept next := by
  cases transition with
  | poll readable turn => exact kept.unseen _ _ _ _ kept.found
  | visit answers entry turn fresh =>
      rcases undisturbed.visit turn with ⟨notFirst, beyond⟩
      exact (kept.visit fresh (bounded entry turn) notFirst beyond).advance entry
  | idle turn empty => exact kept.unseen _ _ _ _ kept.found
  | result result rest turn queue => exact kept.handleResult queue
  | take task rest queue => exact kept.moved (outstanding_take queue)
  | finish index buffer task found => exact kept.moved (outstanding_finish found buffer)

end Kept

/-! ### Runs -/

/-- The set-up: no slot, no request. -/
theorem kept_start (setup : Setup) : Kept setup.start := by
  have noRequest : setup.start.outstanding = [] := rfl
  refine ⟨⟨?_, fun _ _ => rfl, ⟨2, fun _ _ _ _ => by omega, fun _ _ _ => rfl⟩,
    fun _ _ used => absurd rfl used, fun _ _ _ _ used => absurd rfl used⟩, ?_, ?_, ?_, ?_, ?_⟩
  · show (if setup.opened setup.socketFd then some Owner.process else none) = some .process
    rw [if_pos setup.socketOpen]
  · rw [noRequest]
    exact List.nodup_nil
  · rw [noRequest]
    simp
  · intro slot _ sends
    cases sends
  · intro sent member
    cases member
  · exact fun failed => by cases failed

/-- The invariant of the undisturbed runs. -/
theorem kept_of_run (setup : Setup) {events : List Event} {loop : Loop}
    (run : setup.machine.Run events loop)
    (undisturbed : setup.machine.Meets Undisturbed setup.start events) : Kept loop := by
  refine Machine.Run.invariant_of_meets (kept_start setup) ?_ run undisturbed
  intro state event next reached kept condition taken
  exact kept.transition (bounded_of_reachable setup reached) condition
    (Loop.transition_of_step taken)

/-- In every run whose steps queue no task for the descriptor in `ufds[1]`, results
reach the connection that asked. -/
theorem results_reach_connection (setup : Setup) {events : List Event} {loop : Loop}
    (run : setup.machine.Run events loop)
    (undisturbed : setup.machine.Meets Undisturbed setup.start events) : Matched loop :=
  (kept_of_run setup run undisturbed).matched

/-! ### Two runs -/

/-- A set-up with an unknown number in the entry that is never written. -/
def setupWith (unknown : ℤ) : Setup where
  socketFd := 3
  pipeFd := 4
  opened := fun fd => 0 ≤ fd ∧ fd ≤ 5
  stackFds := fun _ => unknown
  stackReadable := fun _ => false
  socketOpen := by decide

/-- Nothing happens on an entry. -/
def quiet : Event := .visit ⟨0, none, true, none, .failed, .EMPTY⟩

/-- A connection gets descriptor 7 and sends a line. -/
def oneRequest : List Event :=
  [.poll fun entry => entry = 0, .visit ⟨0, some 7, true, none, .failed, .EMPTY⟩] ++
    List.replicate 65 quiet ++
    [.result, .poll fun entry => entry = 2, quiet, quiet,
      .visit ⟨0, none, true, some [97, 10], .failed, .EMPTY⟩]

/-- The state after some events. -/
def Setup.after (setup : Setup) (events : List Event) : Loop :=
  (setup.machine.runFrom setup.start events).getD setup.start

theorem Setup.run_after {setup : Setup} {events : List Event}
    (enabled : (setup.machine.runFrom setup.start events).isSome) :
    setup.machine.Run events (setup.after events) := by
  rcases Option.isSome_iff_exists.mp enabled with ⟨loop, found⟩
  rw [Setup.after, found]
  exact found

set_option maxRecDepth 4000 in
/-- With another number in the entry, the request finds its slot. -/
theorem results_reach_connection_once : Matched ((setupWith 0).after oneRequest) ∧
    ((setupWith 0).after oneRequest).outstanding = [(7, some (.connection 0))] :=
  ⟨results_reach_connection (setupWith 0) (Setup.run_after (by decide)) (by decide), by decide⟩

/-- With the connection's number in the entry, the search for its request finds entry 1. -/
theorem stale_entry_hides_slot : ∃ loop, (setupWith 7).machine.Run oneRequest loop ∧
    ¬ Matched loop := by
  refine ⟨_, Setup.run_after (by decide), fun matched => ?_⟩
  have outstanding : (7, some (Owner.connection 0)) ∈
      ((setupWith 7).after oneRequest).outstanding := by decide
  have hidden : ((setupWith 7).after oneRequest).stateIndex 7 = some 1 := by decide
  have empty : ((setupWith 7).after oneRequest).states 1 = .EMPTY := by decide
  rcases matched.served _ outstanding with ⟨slot, _, proc, _, _, found, _⟩
  rw [hidden] at found
  cases found
  rw [empty] at proc
  cases proc

end CSE550.WebServer
