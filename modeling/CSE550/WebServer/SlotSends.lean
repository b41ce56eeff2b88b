import CSE550.WebServer.Assembly

/-!
Owns what the visits of one slot in SEND come to in a run of the event loop: they are
the visits of `sendVisits`, from the entry that the result left until the connection
is closed.

Does not own what these visits send of a file.
-/

namespace CSE550.WebServer

open CSE550.Lib

/-- The outcome of the send in a visit of the slot. -/
def Loop.sendAt (slot : ℕ) (loop : Loop) (event : Event) : List SendOutcome :=
  match event, loop.phase with
  | .visit answers, .visiting entry => if entry = slot then [answers.send] else []
  | _, _ => []

/-- The bytes that a visit of the slot hands over. -/
def Loop.handedAt (slot : ℕ) (loop : Loop) (event : Event) : List UInt8 :=
  match event, loop.phase with
  | .visit answers, .visiting entry =>
      if entry = slot then
        ((loop.visit answers entry).sent.drop loop.sent.length).flatMap Sent.bytes
      else []
  | _, _ => []

/-- The slot is in SEND before the step, and nothing disturbs the step. -/
def Sending (slot : ℕ) (loop : Loop) (event : Event) : Prop :=
  Undisturbed loop event ∧ loop.states slot = .SEND

section Slot

variable {loop next : Loop} {slot entry : ℕ} {answers : Answers} {event : Event}

/-- The slot is still in SEND, with the same entry of `partial_sends`. -/
structure Loop.StillSends (slot : ℕ) (loop next : Loop) : Prop where
  states : next.states slot = .SEND
  entry : next.partialSends slot = loop.partialSends slot

theorem Loop.StillSends.of_same (sends : loop.states slot = .SEND)
    (states : next.states slot = loop.states slot)
    (entry : next.partialSends slot = loop.partialSends slot) : loop.StillSends slot next :=
  ⟨states.trans sends, entry⟩

/-! ### Visits of other entries -/

/-- A new connection takes a slot that is EMPTY. -/
theorem Loop.acceptConnection_sends (sends : loop.states slot = .SEND) (answers : Answers) :
    loop.StillSends slot (loop.acceptConnection answers) := by
  unfold Loop.acceptConnection
  cases answers.accept with
  | none => exact .of_same sends rfl rfl
  | some newFd =>
      simp only
      split
      · cases free : (loop.openConnection newFd).freeSlot with
        | none => exact .of_same sends rfl rfl
        | some taken =>
            have isFree : loop.states taken = .EMPTY := (Slots.of_freeSlot free).2.2.1
            have different : slot ≠ taken := by
              rintro rfl
              rw [sends] at isFree
              cases isFree
            exact .of_same sends (Function.update_of_ne different _ _) rfl
      · exact .of_same sends rfl rfl

theorem Loop.receive_sends (sends : loop.states slot = .SEND) (different : slot ≠ entry)
    (answers : Answers) : loop.StillSends slot (loop.receive answers entry) := by
  rcases loop.receive_eq answers entry with ⟨readable, same⟩
  rw [same, Loop.assemble_eq]
  split
  · exact .of_same sends (Function.update_of_ne different _ _) rfl
  · exact .of_same sends rfl rfl

theorem Loop.sendPart_sends (sends : loop.states slot = .SEND) (different : slot ≠ entry)
    (answers : Answers) : loop.StillSends slot (loop.sendPart answers entry) := by
  unfold Loop.sendPart
  cases answers.send with
  | failed => exact .of_same sends rfl rfl
  | accepted sentBytes =>
      simp only
      split
      · exact .of_same sends (Function.update_of_ne different _ _) rfl
      · exact .of_same sends rfl rfl

/-- The visit of another entry leaves the slot as it is. -/
theorem Loop.visit_sends (sends : loop.states slot = .SEND) (different : slot ≠ entry)
    (answers : Answers) : loop.StillSends slot (loop.visit answers entry) := by
  unfold Loop.visit
  split
  · split
    · exact .of_same sends rfl rfl
    · exact .of_same sends rfl rfl
  · split
    · split
      · exact loop.acceptConnection_sends sends answers
      · exact .of_same sends rfl rfl
    · split
      · split
        · exact loop.receive_sends sends different answers
        · exact .of_same sends rfl rfl
      · exact loop.sendPart_sends sends different answers
      · exact .of_same sends rfl rfl

/-- The transition after the visits is one from INIT to RECV. -/
theorem Loop.advance_slot (loop : Loop) (slot entry : ℕ) (settled : loop.states slot ≠ .INIT) :
    (loop.advance entry).states slot = loop.states slot ∧
      (loop.advance entry).partialSends slot = loop.partialSends slot := by
  unfold Loop.advance
  split
  · exact ⟨rfl, rfl⟩
  · exact ⟨if_neg fun starts => settled starts.2.2, rfl⟩

/-! ### The visit of the slot -/

/-- A visit of a slot in SEND is a `sendVisit` of its entry. -/
theorem Loop.visit_own (sends : loop.states slot = .SEND) (inside : slot < maxConnections)
    (above : 2 ≤ slot) (answers : Answers) :
    ((loop.visit answers slot).sent.drop loop.sent.length).flatMap Sent.bytes =
        (sendVisit (loop.partialSends slot) answers.send).handed ∧
      (loop.visit answers slot).states slot =
        (if (sendVisit (loop.partialSends slot) answers.send).closes then .EMPTY else .SEND) ∧
      (loop.visit answers slot).partialSends slot =
        (sendVisit (loop.partialSends slot) answers.send).kept := by
  have isSend : loop.visit answers slot = loop.sendPart answers slot := by
    unfold Loop.visit
    rw [if_neg (by omega), if_neg (by omega), Loop.stateAt, if_pos inside, sends]
  rw [isSend]
  unfold Loop.sendPart
  cases answers.send with
  | failed => simp [sendVisit, sends]
  | accepted sentBytes =>
      simp only
      split
      · rename_i closes
        refine ⟨?_, ?_, rfl⟩
        · simp [Loop.clearEvents, Loop.release, Loop.close, Loop.handOver]
        · simp [Loop.clearEvents, Loop.release]
      · refine ⟨?_, ?_, rfl⟩
        · simp [Loop.clearEvents, Loop.handOver]
        · exact sends

/-! ### Steps and runs -/

/-- A result that is handled is for another slot. -/
theorem Kept.result_sends (kept : Kept loop) (sends : loop.states slot = .SEND)
    {result : Result} {rest : List Result} (queue : loop.resultQueue = result :: rest) :
    loop.StillSends slot ({ loop with resultQueue := rest }.handleResult result) := by
  rcases kept.matched.served (result.fd, result.origin) (by simp [Loop.outstanding, queue]) with
    ⟨holder, _, proc, _, _, index, _⟩
  have different : slot ≠ holder := by
    rintro rfl
    rw [sends] at proc
    cases proc
  have found : ({ loop with resultQueue := rest } : Loop).stateIndex result.fd = some holder :=
    index
  unfold Loop.handleResult
  split
  · rw [found]
    simp only [Loop.store]
    split
    · exact .of_same sends (Function.update_of_ne different _ _) rfl
    · exact .of_same sends (Function.update_of_ne different _ _)
        (Function.update_of_ne different _ _)
  · exact .of_same sends rfl rfl

/-- A step either leaves the slot as it is or is a `sendVisit` of its entry. -/
theorem Kept.send_step (kept : Kept loop) (inside : slot < maxConnections)
    (sends : loop.states slot = .SEND) (transition : Transition loop event next) :
    (loop.StillSends slot next ∧ loop.sendAt slot event = [] ∧ loop.handedAt slot event = []) ∨
      ∃ outcome, loop.sendAt slot event = [outcome] ∧
        loop.handedAt slot event = (sendVisit (loop.partialSends slot) outcome).handed ∧
        next.states slot =
          (if (sendVisit (loop.partialSends slot) outcome).closes then .EMPTY else .SEND) ∧
        next.partialSends slot = (sendVisit (loop.partialSends slot) outcome).kept := by
  cases transition with
  | poll | take | finish => exact .inl ⟨.of_same sends rfl rfl, rfl, rfl⟩
  | idle turn => exact .inl ⟨.of_same sends rfl rfl, rfl, rfl⟩
  | result result rest turn queue => exact .inl ⟨kept.result_sends sends queue, rfl, rfl⟩
  | visit answers entry turn fresh =>
      by_cases same : slot = entry
      · subst same
        have above := kept.slots.two_le (show loop.states slot ≠ .EMPTY by simp [sends])
        rcases loop.visit_own sends inside above answers with ⟨handed, states, keeps⟩
        have settled : (loop.visit answers slot).states slot ≠ .INIT := by
          rw [states]
          split <;> simp
        rcases (loop.visit answers slot).advance_slot slot slot settled with ⟨stays, staysEntry⟩
        refine .inr ⟨answers.send, ?_, ?_, stays.trans states, staysEntry.trans keeps⟩
        · simp [Loop.sendAt, turn]
        · simpa [Loop.handedAt, turn] using handed
      · have still := loop.visit_sends sends same answers
        have settled : (loop.visit answers entry).states slot ≠ .INIT := by simp [still.states]
        rcases (loop.visit answers entry).advance_slot slot entry settled with ⟨stays, staysEntry⟩
        refine .inl ⟨⟨stays.trans still.states, staysEntry.trans still.entry⟩, ?_, ?_⟩
        · simp [Loop.sendAt, turn, Ne.symm same]
        · simp [Loop.handedAt, turn, Ne.symm same]

end Slot

/-- While a slot is in SEND, its visits are those of `sendVisits`: they hand over the
same bytes, and the slot leaves SEND when the connection is closed. -/
theorem Kept.sends_of_slot (setup : Setup) {slot : ℕ} (inside : slot < maxConnections)
    {loop final : Loop} {events : List Event} (kept : Kept loop)
    (reached : setup.machine.Reachable loop) (sends : loop.states slot = .SEND)
    (run : setup.machine.runFrom loop events = some final)
    (sending : setup.machine.Meets (Sending slot) loop events) :
    sendVisits (loop.partialSends slot) (setup.machine.trace (Loop.sendAt slot) loop events) =
      (setup.machine.trace (Loop.handedAt slot) loop events,
        decide (final.states slot ≠ .SEND)) := by
  induction events generalizing loop with
  | nil =>
      obtain rfl : loop = final := Option.some.inj run
      simp [Machine.trace, sendVisits, sends]
  | cons event events inductionHypothesis =>
      rcases Machine.runFrom_cons_iff.mp run with ⟨next, taken, later⟩
      have transition := Loop.transition_of_step taken
      have keptOn := kept.transition (bounded_of_reachable setup reached) sending.1.1 transition
      have rest := sending.2 next taken
      simp only [Machine.trace, taken, Option.elim_some]
      rcases kept.send_step inside sends transition with
        ⟨still, noSend, nothing⟩ | ⟨outcome, send, handed, states, keeps⟩
      · rw [noSend, nothing, List.nil_append, List.nil_append, ← still.entry]
        exact inductionHypothesis keptOn (reached.step taken) still.states later rest
      · rw [send, handed, List.singleton_append, sendVisits]
        by_cases closes : (sendVisit (loop.partialSends slot) outcome).closes = true
        · rw [if_pos closes] at states
          -- a step from a state in which the slot is not in SEND is none of its visits
          have last : events = [] := by
            cases events with
            | nil => rfl
            | cons event events =>
                have still := rest.1.2
                rw [states] at still
                cases still
          subst last
          obtain rfl : next = final := Option.some.inj later
          simp [closes, Machine.trace, states]
        · rw [if_neg closes] at states
          have sameRest := inductionHypothesis keptOn (reached.step taken) states later rest
          rw [keeps] at sameRest
          simp only [if_neg closes, sameRest]

/-- The buffer of a result comes into the slot of its descriptor. -/
theorem Kept.stored {loop next : Loop} (kept : Kept loop) {result : Result} {rest : List Result}
    (queue : loop.resultQueue = result :: rest) (positive : 0 < result.fd) {buffer : Memory}
    (hasBuffer : result.buffer = some buffer) (transition : Transition loop .result next) :
    ∃ slot < maxConnections, next.fds slot = result.fd ∧ next.states slot = .SEND ∧
      next.partialSends slot = .ofResult result.fd buffer := by
  rcases kept.matched.served (result.fd, result.origin) (by simp [Loop.outstanding, queue]) with
    ⟨slot, inside, _, same, _, index, _⟩
  refine ⟨slot, inside, ?_⟩
  cases transition with
  | idle turn empty => simp [empty] at queue
  | result first others turn split =>
      rcases List.cons.inj (split.symm.trans queue) with ⟨rfl, rfl⟩
      have found : ({ loop with resultQueue := others } : Loop).stateIndex first.fd = some slot :=
        index
      unfold Loop.handleResult
      rw [if_pos positive, found]
      simp only [Loop.store, hasBuffer]
      exact ⟨same, Function.update_self _ _ _, Function.update_self _ _ _⟩

/-- In every undisturbed run, what is sent of a result's buffer is what `sendVisits`
sends of it, for the outcomes of the sends in the visits of its slot. -/
theorem sends_of_result (setup : Setup) {events : List Event} {loop stored : Loop}
    (run : setup.machine.Run events loop)
    (undisturbed : setup.machine.Meets Undisturbed setup.start events) {result : Result}
    {rest : List Result} (queue : loop.resultQueue = result :: rest) (positive : 0 < result.fd)
    {buffer : Memory} (hasBuffer : result.buffer = some buffer)
    (taken : setup.machine.step loop .result = some stored) :
    ∃ slot < maxConnections, stored.fds slot = result.fd ∧ stored.states slot = .SEND ∧
      ∀ later final, setup.machine.runFrom stored later = some final →
        setup.machine.Meets (Sending slot) stored later →
          sendVisits (.ofResult result.fd buffer)
              (setup.machine.trace (Loop.sendAt slot) stored later) =
            (setup.machine.trace (Loop.handedAt slot) stored later,
              decide (final.states slot ≠ .SEND)) := by
  have kept := kept_of_run setup run undisturbed
  have reached : setup.machine.Reachable loop := ⟨events, run⟩
  have transition := Loop.transition_of_step taken
  rcases kept.stored queue positive hasBuffer transition with ⟨slot, inside, same, sends, entry⟩
  have calm : Undisturbed loop .result := trivial
  have keptOn := kept.transition (bounded_of_reachable setup reached) calm transition
  refine ⟨slot, inside, same, sends, fun later final continues sending => ?_⟩
  rw [← entry]
  exact keptOn.sends_of_slot setup inside (reached.step taken) sends continues sending

end CSE550.WebServer
