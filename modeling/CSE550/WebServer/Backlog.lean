import CSE550.WebServer.SelfPipe
import Mathlib.Data.Finset.Card
import Mathlib.Data.Finset.Image
import Mathlib.Data.Finset.Range
import Mathlib.Order.Interval.Finset.Nat

/-!
Owns how the bytes in the self-pipe add up. A round reads at most five of them, and
accepts at most one connection, which is answered once.

Bytes that are written and bytes that are owed are counted together: a request moves
from one to the other. Everything here is about the runs in which results find their
slots.

Does not own where a thread waits.
-/

namespace CSE550.WebServer

open CSE550.Lib

/-! ### Undisturbed runs -/

/-- The visit is undisturbed. -/
def Server.Undisturbed (server : Server) (call : Call) : Prop :=
  match call with
  | .visit answers => WebServer.Undisturbed server.loop (.visit answers)
  | _ => True

instance serverUndisturbedDecidable (server : Server) (call : Call) :
    Decidable (server.Undisturbed call) := by
  unfold Server.Undisturbed
  split <;> infer_instance

/-- The slots are in order, and a visit that is not over is undisturbed. -/
structure Server.Tracked (server : Server) : Prop where
  kept : Kept server.loop
  notifying : ∀ answers, server.point = .notifying answers → answers.beyond ≠ .SEND
  locking : ∀ answers, server.point = .locking answers → answers.beyond ≠ .SEND

section Tracked

variable {capacity : ℕ} {server next : Server} {call : Call}

/-- A visit of the last entry queues nothing. -/
theorem Loop.not_queues_last (loop : Loop) (answers : Answers) :
    ¬ loop.Queues answers maxConnections := fun queues => lt_irrefl _ queues.1

theorem Server.Tracked.step (tracked : server.Tracked) (ordered : server.Ordered capacity)
    (undisturbed : server.Undisturbed call) (does : server.Does capacity call next) :
    next.Tracked := by
  have kept := tracked.kept
  cases does with
  | poll readable looping turn reports =>
      exact { tracked with kept := kept.unseen _ _ _ _ kept.found }
  | visit answers entry looping turn notLast fresh silent =>
      obtain ⟨notFirst, beyond⟩ := WebServer.Undisturbed.visit undisturbed turn
      exact {
        kept := (kept.visit fresh (ordered.bounded entry turn) notFirst beyond).advance entry
        notifying := fun _ waits => by cases waits
        locking := fun _ waits => by cases waits }
  | fails answers entry looping turn fresh notifies =>
      obtain ⟨_, beyond⟩ := WebServer.Undisturbed.visit undisturbed turn
      exact { tracked with
        notifying := fun _ same => by
          obtain rfl := MainPoint.notifying.inj same
          exact beyond
        locking := fun _ waits => by cases waits }
  | read answers looping turn fresh reports free =>
      obtain ⟨_, beyond⟩ := WebServer.Undisturbed.visit undisturbed turn
      exact { tracked with
        notifying := fun _ waits => by cases waits
        locking := fun _ same => by
          obtain rfl := MainPoint.locking.inj same
          exact beyond }
  | unread answers looping turn fresh reports silent =>
      obtain ⟨_, beyond⟩ := WebServer.Undisturbed.visit undisturbed turn
      exact { tracked with
        notifying := fun _ waits => by cases waits
        locking := fun _ same => by
          obtain rfl := MainPoint.locking.inj same
          exact beyond }
  | lockSelfPipeMutex answers notifying free => exact { tracked with }
  | write answers entry notifying holds room turn notLast fresh =>
      obtain ⟨_, other, turn', notifies⟩ := ordered.notifying answers notifying
      obtain rfl : entry = other := Phase.visiting.inj (turn.symm.trans turn')
      rw [notifies.visit_eq]
      exact {
        kept := kept.advance entry
        notifying := fun _ waits => by cases waits
        locking := fun _ waits => by cases waits }
  | writeLast answers notifying holds room turn =>
      exact { tracked with
        notifying := fun _ waits => by cases waits
        locking := fun _ same => by
          obtain rfl := MainPoint.locking.inj same
          exact tracked.notifying answers notifying }
  | lockResultMutex answers entry locking free turn fresh =>
      obtain rfl : entry = maxConnections :=
        Phase.visiting.inj (turn.symm.trans (ordered.locking answers locking).2)
      have visited := kept.visit fresh le_rfl
        (fun queues => absurd queues (Loop.not_queues_last _ _)) (tracked.locking answers locking)
      exact {
        kept := visited.advance maxConnections
        notifying := fun _ waits => by cases waits
        locking := fun _ waits => by cases waits }
  | idle looping turn empty =>
      exact { tracked with kept := kept.unseen _ _ _ _ kept.found }
  | result result rest looping turn queue => exact { tracked with kept := kept.handleResult queue }
  | take task rest queue =>
      exact { tracked with kept := kept.moved (Kept.outstanding_take queue) }
  | queueResult index buffer task free found =>
      exact { tracked with kept := kept.moved (Kept.outstanding_finish found buffer) }
  | lockToNotify holds free => exact { tracked with }
  | notifySelfPipe holds room => exact { tracked with }

theorem Setup.tracked_start (setup : Setup) (capacity : ℕ) :
    (setup.server capacity).init.Tracked where
  kept := kept_start setup
  notifying := fun _ waits => by cases waits
  locking := fun _ waits => by cases waits

/-- The invariant of the undisturbed runs. -/
theorem Setup.tracked_of_run (setup : Setup) {calls : List Call}
    (run : (setup.server capacity).Run calls server)
    (undisturbed : (setup.server capacity).Meets Server.Undisturbed (setup.server capacity).init
      calls) : server.Tracked := by
  refine Machine.Run.invariant_of_meets (setup.tracked_start capacity) ?_ run undisturbed
  intro server call next reached tracked condition taken
  exact tracked.step (setup.ordered capacity reached) condition (Server.does_of_step taken).2

end Tracked

/-! ### What is owed -/

section Owed

variable {loop next : Loop} {answers : Answers} {entry : ℕ}

instance openDecidable (loop : Loop) : DecidablePred loop.Open := by
  intro slot
  unfold Loop.Open
  infer_instance

/-- The slots whose request is not complete. -/
def Loop.openSlots (loop : Loop) : Finset ℕ := (Finset.range maxConnections).filter loop.Open

/-- The requests that no worker has answered yet, the incomplete ones included. -/
def Loop.unanswered (loop : Loop) : ℕ :=
  loop.taskQueue.length + loop.reading.length + loop.openSlots.card

theorem Loop.mem_openSlots {slot : ℕ} :
    slot ∈ loop.openSlots ↔ slot < maxConnections ∧ loop.Open slot := by
  rw [Loop.openSlots, Finset.mem_filter, Finset.mem_range]

/-- Each request has a slot from slot 2 on. -/
theorem Kept.unanswered_le (kept : Kept loop) :
    loop.unanswered + loop.resultQueue.length ≤ maxConnections - 2 := by
  let serving := (Finset.range maxConnections).filter fun slot => loop.states slot = .PROC
  have length : loop.taskQueue.length + loop.reading.length + loop.resultQueue.length =
      (loop.outstanding.map Prod.fst).toFinset.card := by
    rw [List.toFinset_card_of_nodup kept.once]
    simp [Loop.outstanding, Nat.add_assoc]
  have covered : (loop.outstanding.map Prod.fst).toFinset ⊆ serving.image loop.fds := by
    intro fd member
    obtain ⟨request, outstanding, rfl⟩ := List.mem_map.mp (List.mem_toFinset.mp member)
    obtain ⟨_, _, slot, inside, proc, same⟩ := kept.served request outstanding
    exact Finset.mem_image.mpr
      ⟨slot, Finset.mem_filter.mpr ⟨Finset.mem_range.mpr inside, proc⟩, same⟩
  have fewTasks := (Finset.card_le_card covered).trans Finset.card_image_le
  have apart : Disjoint serving loop.openSlots := by
    rw [Finset.disjoint_left]
    intro slot serves isOpen
    have proc := (Finset.mem_filter.mp serves).2
    rcases (Loop.mem_openSlots.mp isOpen).2 with init | recv
    · cases proc.symm.trans init
    · cases proc.symm.trans recv
  have inside : serving ∪ loop.openSlots ⊆ Finset.Ico 2 maxConnections := by
    intro slot member
    have used : slot < maxConnections ∧ loop.states slot ≠ .EMPTY := by
      rcases Finset.mem_union.mp member with serves | isOpen
      · obtain ⟨small, proc⟩ := Finset.mem_filter.mp serves
        exact ⟨Finset.mem_range.mp small, by simp [proc]⟩
      · obtain ⟨small, init | recv⟩ := Loop.mem_openSlots.mp isOpen
        · exact ⟨small, by simp [init]⟩
        · exact ⟨small, by simp [recv]⟩
    exact Finset.mem_Ico.mpr ⟨kept.slots.two_le used.2, used.1⟩
  have few := Finset.card_le_card inside
  rw [Finset.card_union_of_disjoint apart, Nat.card_Ico] at few
  rw [Loop.unanswered]
  omega

/-- Slots that are spared do not add to the incomplete requests. -/
theorem Loop.openSlots_subset (spares : ∀ slot, loop.Spared next slot) :
    next.openSlots ⊆ loop.openSlots := by
  intro slot member
  obtain ⟨inside, isOpen⟩ := Loop.mem_openSlots.mp member
  exact Loop.mem_openSlots.mpr ⟨inside, (spares slot isOpen).1⟩

/-- Only the visit of the listening socket adds a request. -/
theorem Loop.unanswered_visit (bounded : entry ≤ maxConnections) :
    (loop.visit answers entry).unanswered ≤ loop.unanswered + if entry = 0 then 1 else 0 := by
  have reading := (loop.visit_workers answers entry).1
  cases admits : loop.admits answers entry with
  | some admitted =>
      obtain ⟨slot, newFd⟩ := admitted
      have isFirst : entry = 0 := by
        by_contra notFirst
        simp [Loop.admits, notFirst] at admits
      have same := Loop.visit_of_admits admits
      have slots : (loop.visit answers entry).openSlots ⊆ insert slot loop.openSlots := by
        intro other member
        obtain ⟨inside, isOpen⟩ := Loop.mem_openSlots.mp member
        rw [same] at isOpen
        by_cases isNew : other = slot
        · exact Finset.mem_insert.mpr (.inl isNew)
        · refine Finset.mem_insert_of_mem (Loop.mem_openSlots.mpr ⟨inside, ?_⟩)
          simpa [Loop.Open, Loop.clearEvents, Loop.occupy, Loop.openConnection, isNew] using isOpen
      have few := (Finset.card_le_card slots).trans (Finset.card_insert_le _ _)
      have tasks : (loop.visit answers entry).taskQueue = loop.taskQueue := by rw [same]; rfl
      rw [Loop.unanswered, Loop.unanswered, reading, tasks, if_pos isFirst]
      omega
  | none =>
      by_cases receives : loop.Receives entry
      · have same := @Loop.visit_of_receives loop entry answers receives
        obtain ⟨readable, received⟩ := loop.receive_eq answers entry
        have wasOpen : entry ∈ loop.openSlots :=
          Loop.mem_openSlots.mpr ⟨receives.2.1, .inr receives.2.2.1⟩
        have opened (other : ℕ) (member : other ∈ (loop.visit answers entry).openSlots) :
            other ∈ loop.openSlots ∧
              (Loop.newline ∈ answers.recv.getD [] → other ≠ entry) := by
          obtain ⟨inside, isOpen⟩ := Loop.mem_openSlots.mp member
          rw [same] at isOpen
          have earlier := loop.receive_opened answers isOpen
          by_cases own : other = entry
          · rw [if_pos own] at earlier
            exact ⟨own ▸ wasOpen, fun complete => absurd complete earlier.1⟩
          · rw [if_neg own] at earlier
            exact ⟨Loop.mem_openSlots.mpr ⟨inside, earlier.1⟩, fun _ => own⟩
        rw [Loop.unanswered, Loop.unanswered, reading]
        by_cases complete : Loop.newline ∈ answers.recv.getD []
        · have tasks : (loop.visit answers entry).taskQueue.length =
              loop.taskQueue.length + 1 := by
            rw [same, received, Loop.assemble_eq, if_pos complete]
            simp [Loop.queueTask, Loop.extend]
          have fewer : (loop.visit answers entry).openSlots ⊆ loop.openSlots.erase entry :=
            fun other member =>
              Finset.mem_erase.mpr ⟨(opened other member).2 complete, (opened other member).1⟩
          have few := Finset.card_le_card fewer
          rw [Finset.card_erase_of_mem wasOpen] at few
          have positive : 0 < loop.openSlots.card := Finset.card_pos.mpr ⟨entry, wasOpen⟩
          omega
        · have tasks : (loop.visit answers entry).taskQueue = loop.taskQueue := by
            rw [same, received, Loop.assemble_eq, if_neg complete]
            rfl
          have few := Finset.card_le_card fun other member => (opened other member).1
          rw [tasks]
          omega
      · obtain ⟨tasks, spares⟩ := Loop.visit_spares bounded admits receives
        have few := Finset.card_le_card (Loop.openSlots_subset spares)
        rw [Loop.unanswered, Loop.unanswered, reading, tasks]
        omega

theorem Loop.unanswered_advance (loop : Loop) (entry : ℕ) :
    (loop.advance entry).unanswered ≤ loop.unanswered := by
  have few := Finset.card_le_card
    (Loop.openSlots_subset fun slot => loop.spared_advance entry slot)
  rw [Loop.unanswered, Loop.unanswered, loop.advance_taskQueue, (loop.advance_workers entry).1]
  omega

theorem Loop.unanswered_handleResult (loop : Loop) (result : Result) :
    (loop.handleResult result).unanswered ≤ loop.unanswered := by
  have few := Finset.card_le_card
    (Loop.openSlots_subset fun slot => loop.handleResult_spares result slot)
  have same : (loop.handleResult result).taskQueue = loop.taskQueue ∧
      (loop.handleResult result).reading = loop.reading := by
    unfold Loop.handleResult Loop.store
    split
    · split
      · exact ⟨rfl, rfl⟩
      · split
        · exact ⟨rfl, rfl⟩
        · exact ⟨rfl, rfl⟩
    · exact ⟨rfl, rfl⟩
  rw [Loop.unanswered, Loop.unanswered, same.1, same.2]
  omega

end Owed

/-! ### Few failing sends -/

/-- The slots there are for connections. -/
def connectionSlots : ℕ := maxConnections - 2

/-- The bytes that will be written without a further send that fails. -/
def Server.owed (server : Server) : ℕ :=
  server.loop.unanswered + (match server.point with | .notifying _ => 1 | _ => 0) +
    if server.resultMutex = some .worker then 1 else 0

/-- The bytes in the pipe and those that are owed. -/
def Server.level (server : Server) : ℕ := server.pipe + server.owed

/-- What the bytes can add up to while at most four sends of a round fail. -/
structure Server.Level (server : Server) : Prop where
  /-- Before the read of a round. -/
  visiting : ∀ entry, server.loop.phase = .visiting entry →
    (∀ answers, server.point ≠ .locking answers) →
      server.level ≤ connectionSlots +
        (if server.loop.readable maxConnections = true then pipeReadSize else 0) +
        (if entry = 0 then 0 else 1) + server.failed
  /-- After it. -/
  resting : (∀ entry, server.loop.phase = .visiting entry →
    ∃ answers, server.point = .locking answers) → server.level ≤ connectionSlots + pipeReadSize

section Level

variable {capacity : ℕ} {server next : Server} {call : Call}

/-- Without a byte of the main thread, what is owed has a slot. -/
theorem Server.Tracked.owed_le (tracked : server.Tracked) (ordered : server.Ordered capacity)
    (silent : ∀ answers, server.point ≠ .notifying answers) : server.owed ≤ connectionSlots := by
  have few := tracked.kept.unanswered_le
  have point : (match server.point with | .notifying _ => 1 | _ => 0) = 0 := by
    split
    · rename_i answers notifying
      exact absurd notifying (silent answers)
    · rfl
  rw [Server.owed, point, connectionSlots]
  split
  · rename_i held
    have queued := List.length_pos_iff.mpr (ordered.queued held)
    omega
  · omega

/-- A visit of another entry leaves the report of the read end. -/
theorem Loop.readable_visit (loop : Loop) (answers : Answers) {entry : ℕ}
    (notLast : entry ≠ maxConnections) :
    (loop.visit answers entry).readable maxConnections = loop.readable maxConnections := by
  have cleared (other : Loop) (slot : ℕ) (notLast : slot ≠ maxConnections) :
      (other.clearEvents slot).readable maxConnections = other.readable maxConnections :=
    Function.update_of_ne notLast.symm _ _
  unfold Loop.visit
  rw [if_neg fun isPipe => notLast isPipe.1]
  split
  · split
    · unfold Loop.acceptConnection
      split
      · rfl
      · dsimp only
        split
        · split
          · rfl
          · exact cleared _ 0 (by decide)
        · rfl
    · rfl
  · split
    · split
      · unfold Loop.receive
        split
        · rfl
        · rw [cleared _ _ notLast, Loop.assemble_eq]
          split
          · rfl
          · rfl
      · rfl
    · unfold Loop.sendPart
      split
      · rfl
      · dsimp only
        split
        · exact cleared _ _ notLast
        · exact cleared _ _ notLast
    · rfl

theorem Loop.readable_advance (loop : Loop) (entry : ℕ) :
    (loop.advance entry).readable = loop.readable := by
  unfold Loop.advance
  split
  · rfl
  · rfl

/-- The end of a visit that is not the last: the visit adds a request, or the byte of a
send that failed is in the pipe. -/
theorem Server.Level.visited (level : server.Level) (ordered : server.Ordered capacity)
    {answers : Answers} {entry : ℕ} (turn : server.loop.phase = .visiting entry)
    (notLast : entry ≠ maxConnections) (notLocking : ∀ answers, server.point ≠ .locking answers)
    {pipe : ℕ} {selfPipeMutex : Option Thread} (written : pipe + (server.loop.visit answers
      entry).unanswered ≤ server.pipe + server.loop.unanswered +
        (match server.point with | .notifying _ => 1 | _ => 0) + if entry = 0 then 1 else 0) :
    Server.Level { server with
      loop := (server.loop.visit answers entry).advance entry
      pipe := pipe
      selfPipeMutex := selfPipeMutex
      point := .looping } := by
  have before := level.visiting entry turn notLocking
  have inside : entry < maxConnections := lt_of_le_of_ne (ordered.bounded entry turn) notLast
  have phase := (server.loop.visit answers entry).phase_advance entry
  rw [if_pos inside] at phase
  have fewer := (server.loop.visit answers entry).unanswered_advance entry
  constructor
  · intro other same _
    obtain rfl : entry + 1 = other := Phase.visiting.inj (phase.symm.trans same)
    simp only [Server.level, Server.owed, Loop.readable_advance,
      Loop.readable_visit _ _ notLast] at before ⊢
    rw [if_neg (Nat.succ_ne_zero entry)]
    by_cases isFirst : entry = 0
    · rw [if_pos isFirst] at before written
      omega
    · rw [if_neg isFirst] at before written
      omega
  · intro rests
    obtain ⟨_, locks⟩ := rests (entry + 1) phase
    cases locks

/-- A step of a worker, or of the main thread to a mutex, that adds nothing. -/
theorem Server.Level.keep (level : server.Level) (phase : next.loop.phase = server.loop.phase)
    (point : next.point = server.point) (failed : next.failed = server.failed)
    (readable : next.loop.readable = server.loop.readable)
    (noMore : next.pipe + next.loop.unanswered + (if next.resultMutex = some .worker then 1 else 0) ≤
      server.pipe + server.loop.unanswered +
        if server.resultMutex = some .worker then 1 else 0) : next.Level := by
  have less : next.level ≤ server.level := by
    rw [Server.level, Server.level, Server.owed, Server.owed, point]
    omega
  constructor
  · intro entry turn notLocking
    rw [phase] at turn
    rw [point] at notLocking
    rw [readable, failed]
    exact less.trans (level.visiting entry turn notLocking)
  · intro rests
    rw [phase, point] at rests
    exact less.trans (level.resting rests)

/-- After the last visit of a round. -/
theorem Server.Level.rest {answers : Answers} (locking : next.point = .locking answers)
    (few : next.level ≤ connectionSlots + pipeReadSize) : next.Level where
  visiting := fun _ _ notLocking => absurd locking (notLocking answers)
  resting := fun _ => few

/-- While no entry is visited. -/
theorem Server.Level.pause (paused : ∀ entry, next.loop.phase ≠ .visiting entry)
    (few : next.level ≤ connectionSlots + pipeReadSize) : next.Level where
  visiting := fun entry turn _ => absurd turn (paused entry)
  resting := fun _ => few

theorem Server.Level.step (level : server.Level) (tracked : server.Tracked)
    (ordered : server.Ordered capacity) (few : server.failed < pipeReadSize)
    (does : server.Does capacity call next) : next.Level := by
  cases does with
  | poll readable looping turn reports =>
      have owed := tracked.owed_le ordered (by simp [looping])
      have before := level.resting (by simp [turn])
      refine ⟨fun entry same _ => ?_, fun rests => ?_⟩
      · obtain rfl : 0 = entry := Phase.visiting.inj same
        simp only [Server.level, Server.owed, reports, decide_eq_true_eq] at owed before ⊢
        change server.pipe + (server.loop.unanswered + _ + _) ≤ _
        by_cases holds : 0 < server.pipe
        · rw [if_pos holds]
          omega
        · rw [if_neg holds]
          omega
      · obtain ⟨answers, locks⟩ := rests 0 rfl
        cases looping.symm.trans locks
  | visit answers entry looping turn notLast fresh silent =>
      have added := @Loop.unanswered_visit server.loop answers entry (ordered.bounded entry turn)
      apply level.visited ordered turn notLast (by simp [looping])
      simp only [looping]
      omega
  | fails answers entry looping turn fresh notifies =>
      have before := level.visiting entry turn (by simp [looping])
      refine ⟨fun other same _ => ?_, fun rests => ?_⟩
      · obtain rfl : entry = other := Phase.visiting.inj (turn.symm.trans same)
        simp only [Server.level, Server.owed, looping] at before ⊢
        omega
      · obtain ⟨other, locks⟩ := rests entry turn
        cases locks
  | read answers looping turn fresh reports free =>
      have before := level.visiting maxConnections turn (by simp [looping])
      have owed := tracked.owed_le ordered (by simp [looping])
      apply Server.Level.rest rfl
      rw [if_pos reports, if_neg (by decide)] at before
      simp only [Server.level, Server.owed, looping] at before owed ⊢
      omega
  | unread answers looping turn fresh reports silent =>
      have before := level.visiting maxConnections turn (by simp [looping])
      apply Server.Level.rest rfl
      rw [if_neg (by simp [reports]), if_neg (by decide)] at before
      simp only [Server.level, Server.owed, looping] at before ⊢
      omega
  | lockSelfPipeMutex answers notifying free => exact level.keep rfl rfl rfl rfl le_rfl
  | write answers entry notifying holds room turn notLast fresh =>
      obtain ⟨_, other, turn', notifies⟩ := ordered.notifying answers notifying
      obtain rfl : entry = other := Phase.visiting.inj (turn.symm.trans turn')
      apply level.visited ordered turn notLast (by simp [notifying])
      rw [notifies.visit_eq]
      simp only [notifying]
      omega
  | writeLast answers notifying holds room turn =>
      obtain ⟨_, entry, turn', notifies⟩ := ordered.notifying answers notifying
      obtain rfl : maxConnections = entry := Phase.visiting.inj (turn.symm.trans turn')
      have sends := (Loop.notifies_iff.mp notifies).2.2.1
      rw [Loop.stateAt, if_neg (lt_irrefl _)] at sends
      exact absurd sends (tracked.notifying answers notifying)
  | lockResultMutex answers entry locking free turn fresh =>
      obtain rfl : entry = maxConnections :=
        Phase.visiting.inj (turn.symm.trans (ordered.locking answers locking).2)
      have before := level.resting fun _ _ => ⟨answers, locking⟩
      have added := @Loop.unanswered_visit server.loop answers maxConnections le_rfl
      have fewer := (server.loop.visit answers maxConnections).unanswered_advance maxConnections
      have phase := (server.loop.visit answers maxConnections).phase_advance maxConnections
      rw [if_neg (lt_irrefl _)] at phase
      rw [if_neg (by decide)] at added
      apply Server.Level.pause (by simp [phase])
      simp only [Server.level, Server.owed, locking, free] at before ⊢
      simp only [Option.some.injEq, reduceCtorEq, if_false] at before ⊢
      omega
  | idle looping turn empty =>
      have before := level.resting (by simp [turn])
      apply Server.Level.pause (by simp)
      simp only [Server.level, Server.owed, looping] at before ⊢
      change server.pipe + (server.loop.unanswered + _ + _) ≤ _
      simp only [reduceCtorEq, if_false]
      omega
  | result result rest looping turn queue =>
      have before := level.resting (by simp [turn])
      have phase := phase_handleResult { server.loop with resultQueue := rest } result
      have fewer : (({ server.loop with resultQueue := rest } : Loop).handleResult result).unanswered ≤
          server.loop.unanswered := Loop.unanswered_handleResult _ result
      apply Server.Level.pause fun entry visits => by cases (phase.trans turn).symm.trans visits
      simp only [Server.level, Server.owed, looping] at before fewer ⊢
      omega
  | take task rest queue =>
      refine level.keep rfl rfl rfl rfl ?_
      simp only [Loop.unanswered, queue, List.length_cons, List.length_append, List.length_nil]
      change server.pipe + (_ + _ + server.loop.openSlots.card) + _ ≤ _
      omega
  | queueResult index buffer task free found =>
      refine level.keep rfl rfl rfl rfl ?_
      have inside := (List.getElem?_eq_some_iff.mp found).1
      simp only [Loop.unanswered, List.length_eraseIdx, inside, if_true, free]
      change server.pipe + (_ + _ + server.loop.openSlots.card) + _ ≤ _
      simp only [reduceCtorEq, if_false]
      omega
  | lockToNotify holds free => exact level.keep rfl rfl rfl rfl le_rfl
  | notifySelfPipe holds room =>
      refine level.keep rfl rfl rfl rfl ?_
      simp only [ordered.worker holds, if_true, reduceCtorEq, if_false]
      omega

theorem Setup.level_start (setup : Setup) (capacity : ℕ) :
    (setup.server capacity).init.Level := by
  have nothing : (setup.server capacity).init.level = 0 := by
    have noSlot : setup.start.openSlots = ∅ := by
      apply Finset.eq_empty_of_forall_notMem
      intro slot member
      rcases (Loop.mem_openSlots.mp member).2 with init | recv
      · cases init
      · cases recv
    show 0 + (0 + 0 + setup.start.openSlots.card + 0 + 0) = 0
    rw [noSlot, Finset.card_empty]
  apply Server.Level.pause (fun _ visits => by cases visits)
  omega

/-- The bytes never add up to more than this. -/
theorem Server.Level.pipe_le (level : server.Level) (few : server.failed < pipeReadSize) :
    server.pipe ≤ connectionSlots + 2 * pipeReadSize := by
  have part : server.pipe ≤ server.level := Nat.le_add_right _ _
  by_cases rests : ∀ entry, server.loop.phase = .visiting entry →
      ∃ answers, server.point = .locking answers
  · have below := level.resting rests
    omega
  · push Not at rests
    obtain ⟨entry, turn, notLocking⟩ := rests
    have below := level.visiting entry turn notLocking
    split at below
    · split at below
      · omega
      · omega
    · split at below
      · omega
      · omega

end Level

/-- In every undisturbed run in which at most four sends of a round fail, the pipe holds at
most 73 bytes. With more room than that no thread waits for room, and the main thread has a
step after some steps of the workers as long as the loop runs. -/
theorem few_failures_never_block (setup : Setup) {capacity : ℕ} {calls : List Call}
    {server : Server} (run : (setup.server capacity).Run calls server)
    (undisturbed : (setup.server capacity).Meets Server.Undisturbed (setup.server capacity).init
      calls)
    (few : (setup.server capacity).Throughout (fun server => server.failed < pipeReadSize) calls) :
    server.pipe ≤ connectionSlots + 2 * pipeReadSize ∧
      (connectionSlots + 2 * pipeReadSize < capacity →
        server.pipe < capacity ∧
          (server.loop.status = .running → setup.GoesOn capacity server)) := by
  have level : server.Level := by
    refine Machine.Run.induct (motive := fun calls server =>
      (setup.server capacity).Meets Server.Undisturbed (setup.server capacity).init calls →
        (setup.server capacity).Throughout (fun server => server.failed < pipeReadSize) calls →
          server.Level) (fun _ _ => setup.level_start capacity) ?_ run undisturbed few
    intro before previous call next earlier inductionHypothesis taken meets few
    obtain ⟨meetsBefore, _⟩ := (Machine.meets_append earlier).mp meets
    obtain ⟨fewBefore, _⟩ := (Machine.throughout_snoc (Machine.runFrom_snoc earlier taken)).mp few
    have tracked := setup.tracked_of_run earlier meetsBefore
    have level := inductionHypothesis meetsBefore fewBefore
    exact level.step tracked (setup.ordered capacity ⟨before, earlier⟩)
      (fewBefore before previous List.prefix_rfl earlier) (Server.does_of_step taken).2
  have room := level.pipe_le (few calls server List.prefix_rfl run)
  refine ⟨room, fun wide => ⟨by omega, fun running => ?_⟩⟩
  apply (setup.ordered capacity ⟨calls, run⟩).goesOn running
  intro blocked
  have full := blocked.1
  omega

/-- One send that fails. -/
theorem few_failures_failedSend : ∃ server, ((setupWith 0).server 80).Run failedSend server ∧
    server.pipe ≤ 73 ∧ server.pipe < 80 ∧ (setupWith 0).GoesOn 80 server := by
  have outcome : (((setupWith 0).server 80).runFrom ((setupWith 0).server 80).init failedSend).any
      (fun server => server.loop.status = .running ∧ server.failed < pipeReadSize ∧
        ((setupWith 0).server 80).Meets Server.Undisturbed ((setupWith 0).server 80).init
          failedSend ∧
        ((setupWith 0).server 80).Meets (fun server _ => server.failed < pipeReadSize)
          ((setupWith 0).server 80).init failedSend) = true := by
    decide +kernel
  obtain ⟨server, found, ends⟩ := (Option.any_eq_true _ _).mp outcome
  have run : ((setupWith 0).server 80).Run failedSend server := found
  obtain ⟨running, few, undisturbed, fewBefore⟩ := of_decide_eq_true ends
  obtain ⟨bound, roomy⟩ := few_failures_never_block (setupWith 0) run undisturbed
    ((Machine.Run.throughout_iff run).mpr ⟨fewBefore, few⟩)
  obtain ⟨room, goesOn⟩ := roomy (by decide)
  exact ⟨server, run, bound, room, goesOn running⟩

/-! ### Dead connections -/

section Dead

variable {capacity : ℕ} {server next : Server} {call : Call} {loop : Loop} {slots : Finset ℕ}

/-- A visit leaves the state of the slots in SEND, its own apart. -/
theorem Loop.visit_sending (loop : Loop) (answers : Answers) {entry slot : ℕ}
    (other : slot ≠ entry) (sends : loop.states slot = .SEND) :
    (loop.visit answers entry).states slot = .SEND := by
  unfold Loop.visit
  split
  · split
    · exact sends
    · exact sends
  · split
    · split
      · unfold Loop.acceptConnection
        split
        · exact sends
        · dsimp only
          split
          · split
            · exact sends
            · rename_i free found
              have isFree := (Slots.of_freeSlot found).2.2.1
              have notFree : slot ≠ free := by
                rintro rfl
                cases sends.symm.trans isFree
              exact (Function.update_of_ne notFree _ _).trans sends
          · exact sends
      · exact sends
    · split
      · split
        · obtain ⟨readable, same⟩ := loop.receive_eq answers entry
          rw [same, Loop.assemble_eq]
          split
          · exact (Function.update_of_ne other _ _).trans sends
          · exact sends
        · exact sends
      · unfold Loop.sendPart
        split
        · exact sends
        · dsimp only
          split
          · exact (Function.update_of_ne other _ _).trans sends
          · exact sends
      · exact sends

theorem Loop.advance_sending (loop : Loop) (entry : ℕ) {slot : ℕ}
    (sends : loop.states slot = .SEND) : (loop.advance entry).states slot = .SEND := by
  unfold Loop.advance
  split
  · exact sends
  · simp [Loop.startReceiving, sends]

theorem Loop.store_states (loop : Loop) (result : Result) {slot holder : ℕ}
    (other : slot ≠ holder) : (loop.store holder result).states slot = loop.states slot := by
  unfold Loop.store
  split
  · exact Function.update_of_ne other _ _
  · exact Function.update_of_ne other _ _

/-- A result is stored in a slot in PROC. -/
theorem Kept.handleResult_sending (kept : Kept loop) {result : Result} {rest : List Result}
    (queue : loop.resultQueue = result :: rest) {slot : ℕ} (sends : loop.states slot = .SEND) :
    (({ loop with resultQueue := rest } : Loop).handleResult result).states slot = .SEND := by
  have outstanding : (result.fd, result.origin) ∈ loop.outstanding := by
    simp [Loop.outstanding, queue]
  obtain ⟨holder, _, proc, _, _, found, _⟩ := kept.matched.served _ outstanding
  have index : ({ loop with resultQueue := rest } : Loop).stateIndex result.fd = some holder :=
    found
  have notHolder : slot ≠ holder := by
    rintro rfl
    cases sends.symm.trans proc
  unfold Loop.handleResult
  split
  · rw [index]
    exact (Loop.store_states _ result notHolder).trans sends
  · exact sends

/-- The sends of the slots fail. -/
def Server.Refuses (slots : Finset ℕ) (server : Server) (call : Call) : Prop :=
  match call, server.loop.phase with
  | .visit answers, .visiting entry => entry ∈ slots → answers.send = .failed
  | _, _ => True

instance refusesDecidable (slots : Finset ℕ) (server : Server) (call : Call) :
    Decidable (server.Refuses slots call) := by
  unfold Server.Refuses
  split <;> infer_instance

/-- The slots up to an entry have failed in this round. -/
def Server.FailedTo (server : Server) (slots : Finset ℕ) (entry : ℕ) : Prop :=
  (slots.filter (· < entry)).card ≤ server.failed

/-- Slots whose sends always fail stay in SEND, and each round leaves more bytes in the
pipe than the round before. -/
structure Server.Dying (slots : Finset ℕ) (server start : Server) : Prop where
  sending : ∀ slot ∈ slots, slot < maxConnections ∧ server.loop.states slot = .SEND
  polling : server.loop.phase = .polling → server.rounds + start.pipe ≤ start.rounds + server.pipe
  visiting : ∀ entry, server.loop.phase = .visiting entry → server.point = .looping →
    server.FailedTo slots entry ∧
      server.rounds + start.pipe + server.failed ≤ start.rounds + server.pipe
  notifying : ∀ entry answers, server.loop.phase = .visiting entry →
    server.point = .notifying answers → server.FailedTo slots (entry + 1) ∧ 0 < server.failed ∧
      server.rounds + start.pipe + server.failed ≤ start.rounds + server.pipe + 1
  resting : (server.loop.phase = .results ∨ ∃ answers, server.point = .locking answers) →
    slots.card ≤ server.failed ∧
      server.rounds + start.pipe + server.failed ≤ start.rounds + server.pipe + pipeReadSize

variable {start : Server}

/-- The next entry is none of the slots. -/
theorem Server.FailedTo.pass {entry : ℕ} (failed : server.FailedTo slots entry)
    (other : entry ∉ slots) : server.FailedTo slots (entry + 1) := by
  have same : slots.filter (· < entry + 1) = slots.filter (· < entry) := by
    apply Finset.filter_congr
    intro slot member
    have different : slot ≠ entry := fun same => other (same ▸ member)
    constructor
    · intro below
      omega
    · intro below
      omega
  rw [Server.FailedTo, same]
  exact failed

/-- The next entry may be one of them. -/
theorem Server.FailedTo.card_next {entry : ℕ} (failed : server.FailedTo slots entry) :
    (slots.filter (· < entry + 1)).card ≤ server.failed + 1 := by
  have inside : slots.filter (· < entry + 1) ⊆ insert entry (slots.filter (· < entry)) := by
    intro slot member
    obtain ⟨isSlot, below⟩ := Finset.mem_filter.mp member
    by_cases same : slot = entry
    · exact Finset.mem_insert.mpr (.inl same)
    · exact Finset.mem_insert_of_mem (Finset.mem_filter.mpr ⟨isSlot, by omega⟩)
  have few := (Finset.card_le_card inside).trans (Finset.card_insert_le _ _)
  have before : (slots.filter (· < entry)).card ≤ server.failed := failed
  omega

/-- At the last entry all of them have failed. -/
theorem Server.Dying.all_failed (dying : server.Dying slots start)
    (failed : server.FailedTo slots maxConnections) : slots.card ≤ server.failed := by
  have whole : slots.filter (· < maxConnections) = slots :=
    Finset.filter_true_of_mem fun slot member => (dying.sending slot member).1
  rw [Server.FailedTo, whole] at failed
  exact failed

/-- A visit of one of the slots ends with a byte to write. -/
theorem Server.Dying.notifies (dying : server.Dying slots start) (tracked : server.Tracked)
    {answers : Answers} {entry : ℕ} (isSlot : entry ∈ slots) (fails : answers.send = .failed) :
    server.loop.Notifies answers entry := by
  obtain ⟨inside, sends⟩ := dying.sending entry isSlot
  have notFirst : entry ≠ 0 := by
    rintro rfl
    cases sends.symm.trans (tracked.kept.slots.low 0 (by omega))
  rw [Loop.notifies_iff, Loop.stateAt, if_pos inside]
  exact ⟨by omega, notFirst, sends, fails⟩

theorem Server.Refuses.visit {answers : Answers} {entry : ℕ}
    (refuses : server.Refuses slots (.visit answers)) (turn : server.loop.phase = .visiting entry)
    (isSlot : entry ∈ slots) : answers.send = .failed := by
  simp only [Server.Refuses, turn] at refuses
  exact refuses isSlot

/-- A step of a worker. -/
theorem Server.Dying.keep (dying : server.Dying slots start)
    (phase : next.loop.phase = server.loop.phase) (point : next.point = server.point)
    (states : next.loop.states = server.loop.states) (failed : next.failed = server.failed)
    (rounds : next.rounds = server.rounds) (pipe : server.pipe ≤ next.pipe) :
    next.Dying slots start where
  sending := by
    rw [states]
    exact dying.sending
  polling := by
    rw [phase, rounds]
    intro polls
    have before := dying.polling polls
    omega
  visiting := by
    rw [phase, point]
    intro entry turn looping
    obtain ⟨so, before⟩ := dying.visiting entry turn looping
    exact ⟨by rwa [Server.FailedTo, failed], by omega⟩
  notifying := by
    rw [phase, point]
    intro entry answers turn notifies
    obtain ⟨so, positive, before⟩ := dying.notifying entry answers turn notifies
    exact ⟨by rwa [Server.FailedTo, failed], by omega, by omega⟩
  resting := by
    rw [phase, point]
    intro rests
    obtain ⟨so, before⟩ := dying.resting rests
    exact ⟨by omega, by omega⟩

/-- The end of a visit that is not the last. -/
theorem Server.Dying.visited (dying : server.Dying slots start) (ordered : server.Ordered capacity)
    {answers : Answers} {entry : ℕ} (turn : server.loop.phase = .visiting entry)
    (notLast : entry ≠ maxConnections)
    (sending : ∀ slot ∈ slots, (server.loop.visit answers entry).states slot = .SEND)
    (failed : server.FailedTo slots (entry + 1)) {pipe : ℕ} {selfPipeMutex : Option Thread}
    (bytes : server.rounds + start.pipe + server.failed ≤ start.rounds + pipe) :
    Server.Dying slots { server with
      loop := (server.loop.visit answers entry).advance entry
      pipe := pipe
      selfPipeMutex := selfPipeMutex
      point := .looping } start := by
  have inside : entry < maxConnections := lt_of_le_of_ne (ordered.bounded entry turn) notLast
  have phase := (server.loop.visit answers entry).phase_advance entry
  rw [if_pos inside] at phase
  exact {
    sending := fun slot isSlot =>
      ⟨(dying.sending slot isSlot).1, Loop.advance_sending _ _ (sending slot isSlot)⟩
    polling := fun polls => by cases phase.symm.trans polls
    visiting := fun other same _ => by
      obtain rfl : entry + 1 = other := Phase.visiting.inj (phase.symm.trans same)
      exact ⟨failed, bytes⟩
    notifying := fun _ _ _ notifies => by cases notifies
    resting := fun rests => by
      rcases rests with results | ⟨_, locks⟩
      · cases phase.symm.trans results
      · cases locks }

theorem Server.Dying.step (dying : server.Dying slots start) (tracked : server.Tracked)
    (ordered : server.Ordered capacity) (many : pipeReadSize < slots.card)
    (refuses : server.Refuses slots call) (does : server.Does capacity call next) :
    next.Dying slots start := by
  cases does with
  | poll readable looping turn reports =>
      have before := dying.polling turn
      exact {
        sending := dying.sending
        polling := fun polls => by cases polls
        visiting := fun entry same _ => by
          obtain rfl : 0 = entry := Phase.visiting.inj same
          have nothing : (slots.filter (· < 0)).card ≤ 0 := by simp
          exact ⟨nothing, by dsimp only; omega⟩
        notifying := fun _ _ _ notifies => by cases looping.symm.trans notifies
        resting := fun rests => by
          rcases rests with results | ⟨_, locks⟩
          · cases results
          · cases looping.symm.trans locks }
  | visit answers entry looping turn notLast fresh silent =>
      obtain ⟨failed, before⟩ := dying.visiting entry turn looping
      have notSlot : entry ∉ slots :=
        fun isSlot => silent (dying.notifies tracked isSlot (refuses.visit turn isSlot))
      exact dying.visited ordered turn notLast
        (fun slot isSlot => Loop.visit_sending _ _ (fun same => notSlot (same ▸ isSlot))
          (dying.sending slot isSlot).2) (failed.pass notSlot) before
  | fails answers entry looping turn fresh notifies =>
      obtain ⟨failed, before⟩ := dying.visiting entry turn looping
      exact {
        sending := dying.sending
        polling := dying.polling
        visiting := fun _ _ loops => by cases loops
        notifying := fun other _ same _ => by
          obtain rfl : entry = other := Phase.visiting.inj (turn.symm.trans same)
          exact ⟨failed.card_next, Nat.succ_pos _, by dsimp only; omega⟩
        resting := fun rests => by
          rcases rests with results | ⟨_, locks⟩
          · cases turn.symm.trans results
          · cases locks }
  | read answers looping turn fresh reports free =>
      obtain ⟨failed, before⟩ := dying.visiting maxConnections turn looping
      have all := dying.all_failed failed
      exact {
        sending := dying.sending
        polling := fun polls => by cases turn.symm.trans polls
        visiting := fun _ _ loops => by cases loops
        notifying := fun _ _ _ notifies => by cases notifies
        resting := fun _ => ⟨all, by dsimp only; omega⟩ }
  | unread answers looping turn fresh reports silent =>
      obtain ⟨failed, before⟩ := dying.visiting maxConnections turn looping
      have all := dying.all_failed failed
      exact {
        sending := dying.sending
        polling := fun polls => by cases turn.symm.trans polls
        visiting := fun _ _ loops => by cases loops
        notifying := fun _ _ _ notifies => by cases notifies
        resting := fun _ => ⟨all, by dsimp only; omega⟩ }
  | lockSelfPipeMutex answers notifying free => exact dying.keep rfl rfl rfl rfl rfl le_rfl
  | write answers entry notifying holds room turn notLast fresh =>
      obtain ⟨_, other, turn', notifies⟩ := ordered.notifying answers notifying
      obtain rfl : entry = other := Phase.visiting.inj (turn.symm.trans turn')
      obtain ⟨failed, _, before⟩ := dying.notifying entry answers turn notifying
      apply dying.visited ordered turn notLast _ failed (by omega)
      intro slot isSlot
      rw [notifies.visit_eq]
      exact (dying.sending slot isSlot).2
  | writeLast answers notifying holds room turn =>
      obtain ⟨_, entry, turn', notifies⟩ := ordered.notifying answers notifying
      obtain rfl : maxConnections = entry := Phase.visiting.inj (turn.symm.trans turn')
      have sends := (Loop.notifies_iff.mp notifies).2.2.1
      rw [Loop.stateAt, if_neg (lt_irrefl _)] at sends
      exact absurd sends (tracked.notifying answers notifying)
  | lockResultMutex answers entry locking free turn fresh =>
      obtain rfl : entry = maxConnections :=
        Phase.visiting.inj (turn.symm.trans (ordered.locking answers locking).2)
      obtain ⟨all, before⟩ := dying.resting (.inr ⟨answers, locking⟩)
      have phase := (server.loop.visit answers maxConnections).phase_advance maxConnections
      rw [if_neg (lt_irrefl _)] at phase
      exact {
        sending := fun slot isSlot => by
          obtain ⟨inside, sends⟩ := dying.sending slot isSlot
          have visited := Loop.visit_sending server.loop answers (ne_of_lt inside) sends
          exact ⟨inside, Loop.advance_sending _ maxConnections visited⟩
        polling := fun polls => by cases phase.symm.trans polls
        visiting := fun _ same => by cases phase.symm.trans same
        notifying := fun _ _ same => by cases phase.symm.trans same
        resting := fun _ => ⟨all, before⟩ }
  | idle looping turn empty =>
      obtain ⟨all, before⟩ := dying.resting (.inl turn)
      exact {
        sending := dying.sending
        polling := fun _ => by dsimp only; omega
        visiting := fun _ same => by cases same
        notifying := fun _ _ same => by cases same
        resting := fun rests => by
          rcases rests with results | ⟨_, locks⟩
          · cases results
          · cases looping.symm.trans locks }
  | result result rest looping turn queue =>
      have phase := (phase_handleResult { server.loop with resultQueue := rest } result).trans turn
      exact {
        sending := fun slot isSlot => by
          obtain ⟨inside, sends⟩ := dying.sending slot isSlot
          exact ⟨inside, tracked.kept.handleResult_sending queue sends⟩
        polling := fun polls => by cases phase.symm.trans polls
        visiting := fun _ same => by cases phase.symm.trans same
        notifying := fun _ _ same => by cases phase.symm.trans same
        resting := fun _ => dying.resting (.inl turn) }
  | take task rest queue => exact dying.keep rfl rfl rfl rfl rfl le_rfl
  | queueResult index buffer task free found => exact dying.keep rfl rfl rfl rfl rfl le_rfl
  | lockToNotify holds free => exact dying.keep rfl rfl rfl rfl rfl le_rfl
  | notifySelfPipe holds room => exact dying.keep rfl rfl rfl rfl rfl (Nat.le_succ _)

/-- The bytes in the pipe bound the rounds. -/
theorem Server.Dying.rounds_le (dying : server.Dying slots start) (ordered : server.Ordered capacity)
    (many : pipeReadSize < slots.card) : server.rounds + start.pipe ≤ start.rounds + capacity := by
  have room := ordered.room
  cases phase : server.loop.phase with
  | polling =>
      have before := dying.polling phase
      omega
  | results =>
      obtain ⟨all, before⟩ := dying.resting (.inl phase)
      omega
  | visiting entry =>
      cases point : server.point with
      | looping =>
          have before := (dying.visiting entry phase point).2
          omega
      | notifying answers =>
          obtain ⟨_, positive, before⟩ := dying.notifying entry answers phase point
          omega
      | locking answers =>
          obtain ⟨all, before⟩ := dying.resting (.inr ⟨answers, point⟩)
          omega

end Dead

/-- Six slots in SEND whose sends always fail, as those of connections that were reset,
stop the server: from the next poll on none of them is released, and its rounds are at most
as many as the bytes that still fit into the pipe. -/
theorem dead_connections_stop (setup : Setup) {capacity : ℕ} {calls later : List Call}
    {server final : Server} (run : (setup.server capacity).Run calls server)
    (polls : server.loop.phase = .polling) {slots : Finset ℕ} (many : pipeReadSize < slots.card)
    (sending : ∀ slot ∈ slots, slot < maxConnections ∧ server.loop.states slot = .SEND)
    (undisturbed : (setup.server capacity).Meets Server.Undisturbed (setup.server capacity).init
      calls)
    (onward : (setup.server capacity).runFrom server later = some final)
    (refuses : (setup.server capacity).Meets
      (fun server call => server.Undisturbed call ∧ server.Refuses slots call) server later) :
    (∀ slot ∈ slots, final.loop.states slot = .SEND) ∧
      final.rounds + server.pipe ≤ server.rounds + capacity := by
  have dying : server.Dying slots server := {
    sending := sending
    polling := fun _ => le_rfl
    visiting := fun _ visits => by cases polls.symm.trans visits
    notifying := fun _ _ visits => by cases polls.symm.trans visits
    resting := fun rests => by
      rcases rests with results | ⟨answers, locks⟩
      · cases polls.symm.trans results
      · cases polls.symm.trans ((setup.ordered capacity ⟨calls, run⟩).locking answers locks).2 }
  have keep : ∀ state call next,
      state.Ordered capacity ∧ state.Tracked ∧ state.Dying slots server →
        state.Undisturbed call ∧ state.Refuses slots call →
          (setup.server capacity).step state call = some next →
            next.Ordered capacity ∧ next.Tracked ∧ next.Dying slots server := by
    intro state call next holds condition taken
    obtain ⟨ordered, tracked, dying⟩ := holds
    obtain ⟨_, does⟩ := Server.does_of_step taken
    exact ⟨ordered.step does, tracked.step ordered condition.1 does,
      dying.step tracked ordered many condition.2 does⟩
  obtain ⟨ordered, _, dies⟩ := refuses.keeps onward keep
    ⟨setup.ordered capacity ⟨calls, run⟩, setup.tracked_of_run run undisturbed, dying⟩
  exact ⟨fun slot member => (dies.sending slot member).2, dies.rounds_le ordered many⟩

/-- Six connections that are to be sent something. -/
def sixRequests : List Call :=
  [7, 8, 9, 10, 11, 12].flatMap acceptRound ++
    [pollOf [2, 3, 4, 5, 6, 7], .visit noAnswer, .visit noAnswer] ++ List.replicate 6 request ++
    (List.replicate 6 answerTask).flatten ++ List.replicate 58 (.visit noAnswer) ++
    [.lockResultMutex] ++ List.replicate 7 .result

/-- A round in which the six sends fail. -/
def sixFailures : List Call :=
  [pollOf [65], .visit noAnswer, .visit noAnswer] ++
    (List.replicate 6 [refusal, .lockSelfPipeMutex, .write]).flatten ++
    List.replicate 58 (.visit noAnswer) ++ [.lockResultMutex, .result]

/-- The first round of six dead connections. -/
theorem dead_connections_stop_six : ∃ server final,
    ((setupWith 0).server 20).Run sixRequests server ∧
      ((setupWith 0).server 20).runFrom server sixFailures = some final ∧
      (∀ slot ∈ Finset.Ico 2 8, final.loop.states slot = .SEND) ∧
      final.rounds + server.pipe ≤ server.rounds + 20 := by
  have outcome : (((setupWith 0).server 20).runFrom ((setupWith 0).server 20).init sixRequests).any
      (fun server => server.loop.phase = .polling ∧
        (∀ slot ∈ Finset.Ico 2 8, slot < maxConnections ∧ server.loop.states slot = .SEND) ∧
        ((setupWith 0).server 20).Meets Server.Undisturbed ((setupWith 0).server 20).init
          sixRequests ∧
        (((setupWith 0).server 20).runFrom server sixFailures).isSome ∧
        ((setupWith 0).server 20).Meets (fun server call =>
          server.Undisturbed call ∧ server.Refuses (Finset.Ico 2 8) call) server sixFailures) =
        true := by
    decide +kernel
  obtain ⟨server, found, ends⟩ := (Option.any_eq_true _ _).mp outcome
  have run : ((setupWith 0).server 20).Run sixRequests server := found
  obtain ⟨polls, sending, undisturbed, enabled, refuses⟩ := of_decide_eq_true ends
  obtain ⟨final, onward⟩ := Option.isSome_iff_exists.mp enabled
  exact ⟨server, final, run, onward, dead_connections_stop (setupWith 0) run polls (by decide)
    sending undisturbed onward refuses⟩

end CSE550.WebServer
