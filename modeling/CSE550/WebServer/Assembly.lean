import CSE550.WebServer.Descriptors
import Mathlib.Data.List.TakeWhile

/-!
Owns how requests are put together from what `recv` returns: which task a connection
queues, and when, whatever the sizes of the chunks.

The loop is watched from outside: for each slot the descriptor last accepted into it,
the bytes received since, and the tasks queued by visits of the slot. The loop does
not read any of this.
-/

namespace CSE550.WebServer

open CSE550.Lib

/-- What is seen of a connection that was accepted into a slot. -/
structure Session where
  fd : ℤ
  received : List UInt8
  queued : List (ℤ × List UInt8)

/-- What the bytes up to now ask for: the path before the first newline. -/
def Session.asked (session : Session) : List (ℤ × List UInt8) :=
  if Loop.newline ∈ session.received then
    [(session.fd, session.received.takeWhile (· ≠ Loop.newline))]
  else []

/-- A loop that is watched. -/
structure Watched where
  loop : Loop
  sessions : ℕ → Option Session
  /-- Tasks queued by visits of entries that no connection was accepted into. -/
  stray : List (ℤ × List UInt8)

/-- The slot and the descriptor of the connection that a visit accepts into a slot. -/
def Loop.admits (loop : Loop) (answers : Answers) (entry : ℕ) : Option (ℕ × ℕ) :=
  if entry = 0 ∧ loop.readable 0 ∧ answers.fcntl then
    answers.accept.bind fun newFd => loop.freeSlot.map fun slot => (slot, newFd)
  else none

/-- The visit calls `recv`. -/
def Loop.Receives (loop : Loop) (entry : ℕ) : Prop :=
  entry ≠ 0 ∧ entry < maxConnections ∧ loop.states entry = .RECV ∧ loop.readable entry = true

instance receivesDecidable (loop : Loop) (entry : ℕ) : Decidable (loop.Receives entry) := by
  unfold Loop.Receives
  infer_instance

/-- The bytes that `recv` returns in a visit. -/
def Loop.received (loop : Loop) (answers : Answers) (entry : ℕ) : List UInt8 :=
  if loop.Receives entry then answers.recv.getD [] else []

/-- The tasks that a visit queues. -/
def Loop.newTasks (loop next : Loop) : List (ℤ × List UInt8) :=
  (next.taskQueue.drop loop.taskQueue.length).map fun task => (task.fd, task.path)

/-- What is seen of one visit. -/
def Watched.follow (watched : Watched) (answers : Answers) (entry : ℕ) (next : Loop) : Watched :=
  match watched.loop.admits answers entry with
  | some (slot, newFd) =>
      { watched with
        loop := next
        sessions := Function.update watched.sessions slot (some ⟨newFd, [], []⟩) }
  | none =>
      match watched.sessions entry with
      | some session =>
          { watched with
            loop := next
            sessions := Function.update watched.sessions entry (some
              { session with
                received := session.received ++ watched.loop.received answers entry
                queued := session.queued ++ watched.loop.newTasks next }) }
      | none =>
          { watched with
            loop := next
            stray := watched.stray ++ watched.loop.newTasks next }

/-- What is seen of one step. -/
def Watched.observe (watched : Watched) (event : Event) (next : Loop) : Watched :=
  match event, watched.loop.phase with
  | .visit answers, .visiting entry => watched.follow answers entry next
  | _, _ => { watched with loop := next }

/-- A step of the loop, watched. -/
def Watched.step (watched : Watched) (event : Event) : Option Watched :=
  (watched.loop.step event).map (watched.observe event)

/-- The event loop, watched from its start. -/
def Setup.watched (setup : Setup) : Machine Watched Event where
  init := ⟨setup.start, fun _ => none, []⟩
  step := Watched.step

theorem Watched.observe_loop (watched : Watched) (event : Event) (next : Loop) :
    (watched.observe event next).loop = next := by
  unfold Watched.observe
  split
  · unfold Watched.follow
    split
    · rfl
    · split
      · rfl
      · rfl
  · rfl

/-- Watching changes nothing: each run of the loop is a run that is watched. -/
theorem Setup.watched_of_run (setup : Setup) {events : List Event} {loop : Loop}
    (run : setup.machine.Run events loop) :
    ∃ watched, setup.watched.Run events watched ∧ watched.loop = loop := by
  refine Machine.Run.induct (motive := fun events loop =>
    ∃ watched, setup.watched.Run events watched ∧ watched.loop = loop) ⟨_, rfl, rfl⟩ ?_ run
  rintro events _ event next _ ⟨watched, earlier, rfl⟩ taken
  have step : watched.loop.step event = some next := taken
  have seen : watched.step event = some (watched.observe event next) := by
    rw [Watched.step, step, Option.map_some]
  exact ⟨_, Machine.runFrom_snoc earlier seen, watched.observe_loop event next⟩

/-! ### What a visit does to a slot -/

/-- The slot's request is not complete. -/
def Loop.Open (loop : Loop) (slot : ℕ) : Prop :=
  loop.states slot = .INIT ∨ loop.states slot = .RECV

/-- A slot that is open afterwards was so before, with the same path and descriptor. -/
def Loop.Spared (loop next : Loop) (slot : ℕ) : Prop :=
  next.Open slot → loop.Open slot ∧
    next.partialFilepaths slot = loop.partialFilepaths slot ∧ next.fds slot = loop.fds slot

section Slots

variable {loop next final : Loop} {slot entry : ℕ} {answers : Answers}

theorem Loop.Spared.refl : loop.Spared loop slot := fun isOpen => ⟨isOpen, rfl, rfl⟩

theorem Loop.Spared.trans (first : loop.Spared next slot) (second : next.Spared final slot) :
    loop.Spared final slot := by
  intro isOpen
  rcases second isOpen with ⟨wasOpen, path, fd⟩
  rcases first wasOpen with ⟨earlierOpen, earlierPath, earlierFd⟩
  exact ⟨earlierOpen, path.trans earlierPath, fd.trans earlierFd⟩

/-- Releasing a slot closes it and spares the others. -/
theorem Loop.spared_release (loop : Loop) (released slot : ℕ) :
    loop.Spared (loop.release released) slot := by
  intro isOpen
  by_cases same : slot = released
  · subst same
    simp [Loop.Open, Loop.release] at isOpen
  · simpa [Loop.Open, Loop.release, same] using isOpen

/-- The transition after the visits opens no slot. -/
theorem Loop.spared_advance (loop : Loop) (entry slot : ℕ) :
    loop.Spared (loop.advance entry) slot := by
  unfold Loop.advance
  split
  · exact .refl
  · intro isOpen
    refine ⟨?_, rfl, rfl⟩
    simp only [Loop.Open, Loop.startReceiving] at isOpen
    split at isOpen
    · rename_i wasInit
      exact .inl wasInit.2.2
    · exact isOpen

theorem Loop.advance_taskQueue (loop : Loop) (entry : ℕ) :
    (loop.advance entry).taskQueue = loop.taskQueue := by
  unfold Loop.advance
  split
  · rfl
  · rfl

/-- The path of a slot with the bytes before the first newline appended. -/
def Loop.extend (loop : Loop) (slot : ℕ) (bytes : List UInt8) : Loop :=
  { loop with
    partialFilepaths := Function.update loop.partialFilepaths slot
      (loop.partialFilepaths slot ++ bytes.takeWhile (· ≠ Loop.newline)) }

/-- Bytes up to the first newline are appended to the path, which is then queued. -/
theorem Loop.assemble_eq (slot : ℕ) (bytes : List UInt8) (loop : Loop) :
    Loop.assemble slot bytes loop =
      if Loop.newline ∈ bytes then (loop.extend slot bytes).queueTask slot
      else loop.extend slot bytes := by
  induction bytes generalizing loop with
  | nil => simp [Loop.assemble, Loop.extend]
  | cons byte rest inductionHypothesis =>
      rw [Loop.assemble]
      by_cases isNewline : byte = Loop.newline
      · simp [Loop.extend, isNewline]
      · rw [if_neg isNewline, inductionHypothesis]
        simp [Loop.extend, isNewline, Ne.symm isNewline]

/-- The bytes that `recv` returned are assembled; an error returned none. -/
theorem Loop.receive_eq (loop : Loop) (answers : Answers) (slot : ℕ) :
    ∃ readable, loop.receive answers slot =
      { Loop.assemble slot (answers.recv.getD []) loop with readable := readable } := by
  unfold Loop.receive
  cases answers.recv with
  | none => exact ⟨loop.readable, rfl⟩
  | some bytes => exact ⟨_, rfl⟩

/-- A task is queued when the newline comes. -/
theorem Loop.newTasks_receive (loop : Loop) (answers : Answers) (slot : ℕ) :
    loop.newTasks (loop.receive answers slot) =
      if Loop.newline ∈ answers.recv.getD [] then
        [(loop.fds slot, loop.partialFilepaths slot ++
          (answers.recv.getD []).takeWhile (· ≠ Loop.newline))]
      else [] := by
  rcases loop.receive_eq answers slot with ⟨readable, same⟩
  rw [Loop.newTasks, same, Loop.assemble_eq]
  split
  · simp [Loop.queueTask, Loop.extend]
  · simp [Loop.extend]

/-- A slot stays open until the newline comes; the other slots are spared. -/
theorem Loop.receive_opened (loop : Loop) (answers : Answers) {slot other : ℕ}
    (isOpen : (loop.receive answers slot).Open other) :
    if other = slot then
      Loop.newline ∉ answers.recv.getD [] ∧
        (loop.receive answers slot).partialFilepaths other =
          loop.partialFilepaths other ++ answers.recv.getD [] ∧
        (loop.receive answers slot).fds other = loop.fds other
    else loop.Open other ∧
      (loop.receive answers slot).partialFilepaths other = loop.partialFilepaths other ∧
      (loop.receive answers slot).fds other = loop.fds other := by
  rcases loop.receive_eq answers slot with ⟨readable, same⟩
  rw [same, Loop.assemble_eq] at isOpen ⊢
  by_cases complete : Loop.newline ∈ answers.recv.getD []
  · rw [if_pos complete] at isOpen ⊢
    by_cases own : other = slot
    · subst own
      simp [Loop.Open, Loop.queueTask] at isOpen
    · simpa [Loop.Open, Loop.queueTask, Loop.extend, own] using isOpen
  · rw [if_neg complete] at isOpen ⊢
    by_cases own : other = slot
    · subst own
      have whole : (answers.recv.getD []).takeWhile (· ≠ Loop.newline) = answers.recv.getD [] := by
        rw [List.takeWhile_eq_self_iff]
        exact fun byte member => decide_eq_true fun isNewline => complete (isNewline ▸ member)
      rw [if_pos rfl]
      refine ⟨complete, ?_, rfl⟩
      simp only [Loop.extend, Function.update_self, whole]
    · simpa [Loop.Open, Loop.extend, own] using isOpen

/-- A visit that accepts a connection into a slot. -/
theorem Loop.visit_of_admits {newFd : ℕ}
    (admits : loop.admits answers entry = some (slot, newFd)) :
    loop.visit answers entry = ((loop.openConnection newFd).occupy slot newFd).clearEvents 0 := by
  simp only [Loop.admits, Option.ite_none_right_eq_some, Option.bind_eq_some_iff,
    Option.map_eq_some_iff, Prod.mk.injEq] at admits
  rcases admits with ⟨⟨rfl, readable, flagged⟩, newFd, accepted, slot, free, rfl, rfl⟩
  have freeAfter : (loop.openConnection newFd).freeSlot = some slot := free
  simp [Loop.visit, Loop.acceptConnection, maxConnections, readable, accepted, flagged, freeAfter]

/-- A visit that receives. -/
theorem Loop.visit_of_receives (receives : loop.Receives entry) :
    loop.visit answers entry = loop.receive answers entry := by
  rcases receives with ⟨notFirst, inside, state, readable⟩
  have notLast : ¬ (entry = maxConnections ∧ loop.readable entry = true) := by omega
  rw [Loop.visit, if_neg notLast, if_neg notFirst, Loop.stateAt, if_pos inside, state]
  exact if_pos readable

/-- Any other visit queues nothing and opens no slot. -/
theorem Loop.visit_spares (bounded : entry ≤ maxConnections)
    (admits : loop.admits answers entry = none) (receives : ¬ loop.Receives entry) :
    (loop.visit answers entry).taskQueue = loop.taskQueue ∧
      ∀ slot, loop.Spared (loop.visit answers entry) slot := by
  unfold Loop.visit
  split
  · split
    · exact ⟨rfl, fun _ => .refl⟩
    · exact ⟨rfl, fun _ => .refl⟩
  · rename_i notPipe
    split
    · rename_i isFirst
      split
      · rename_i readable
        unfold Loop.acceptConnection
        split
        · exact ⟨rfl, fun _ => .refl⟩
        · rename_i newFd accepted
          dsimp only
          split
          · rename_i flagged
            have full : loop.freeSlot = none := by
              simpa [Loop.admits, isFirst, readable, flagged, accepted] using admits
            have fullAfter : (loop.openConnection newFd).freeSlot = none := full
            rw [fullAfter]
            exact ⟨rfl, fun _ => .refl⟩
          · exact ⟨rfl, fun _ => .refl⟩
      · exact ⟨rfl, fun _ => .refl⟩
    · rename_i notFirst
      split
      · rename_i state
        split
        · rename_i readable
          -- the entry behind the array is not readable here
          have inside : entry < maxConnections := by
            have notLast : entry ≠ maxConnections := fun isLast => notPipe ⟨isLast, readable⟩
            omega
          rw [Loop.stateAt, if_pos inside] at state
          exact absurd ⟨notFirst, inside, state, readable⟩ receives
        · exact ⟨rfl, fun _ => .refl⟩
      · unfold Loop.sendPart
        split
        · exact ⟨rfl, fun _ => .refl⟩
        · dsimp only
          split
          · exact ⟨rfl, fun slot => Loop.spared_release _ entry slot⟩
          · exact ⟨rfl, fun _ => .refl⟩
      · exact ⟨rfl, fun _ => .refl⟩

/-- Handling a result opens no slot. -/
theorem Loop.handleResult_spares (loop : Loop) (result : Result) (slot : ℕ) :
    loop.Spared (loop.handleResult result) slot := by
  unfold Loop.handleResult
  split
  · split
    · exact .refl
    · rename_i index found
      unfold Loop.store
      split
      · exact Loop.spared_release (loop.close result.fd) index slot
      · intro isOpen
        by_cases same : slot = index
        · subst same
          simp [Loop.Open] at isOpen
        · simpa [Loop.Open, same] using isOpen
  · exact .refl

end Slots

/-! ### The invariant -/

/-- What was seen of a slot agrees with the loop. -/
structure Followed (watched : Watched) : Prop where
  asked : ∀ slot session, watched.sessions slot = some session → session.queued = session.asked
  /-- An open slot holds what its connection has sent, which is not complete. -/
  opened : ∀ slot, watched.loop.Open slot → ∃ session, watched.sessions slot = some session ∧
    Loop.newline ∉ session.received ∧
    watched.loop.partialFilepaths slot = session.received ∧ watched.loop.fds slot = session.fd
  stray : watched.stray = []

section Invariant

variable {watched : Watched} {next : Loop} {answers : Answers} {entry : ℕ}

theorem Session.asked_of_incomplete {session : Session}
    (incomplete : Loop.newline ∉ session.received) : session.asked = [] := if_neg incomplete

/-- Bytes after a newline change nothing, and bytes before it are part of the path. -/
theorem Session.asked_append {session : Session} (incomplete : Loop.newline ∉ session.received)
    (bytes : List UInt8) (queued : List (ℤ × List UInt8)) :
    { session with received := session.received ++ bytes, queued := queued : Session }.asked =
      if Loop.newline ∈ bytes then
        [(session.fd, session.received ++ bytes.takeWhile (· ≠ Loop.newline))]
      else [] := by
  have whole : ∀ byte ∈ session.received, decide (byte ≠ Loop.newline) = true := by
    intro byte member
    exact decide_eq_true fun same => incomplete (same ▸ member)
  simp only [asked, List.mem_append, incomplete, false_or]
  rw [List.takeWhile_append_of_pos whole]

/-- Where no slot is opened, what was seen still agrees. -/
theorem Followed.spared (followed : Followed watched)
    (spared : ∀ slot, watched.loop.Spared next slot) : Followed { watched with loop := next } where
  asked := followed.asked
  opened := fun slot isOpen => by
    rcases spared slot isOpen with ⟨wasOpen, path, fd⟩
    rcases followed.opened slot wasOpen with ⟨session, seen, incomplete, samePath, sameFd⟩
    exact ⟨session, seen, incomplete, path.trans samePath, fd.trans sameFd⟩
  stray := followed.stray

/-- A connection that is accepted into a slot starts afresh. -/
theorem Followed.admit (followed : Followed watched) {slot newFd : ℕ}
    (admits : watched.loop.admits answers entry = some (slot, newFd)) :
    Followed (watched.follow answers entry ((watched.loop.visit answers entry).advance entry)) := by
  unfold Watched.follow
  rw [admits]
  rw [Loop.visit_of_admits admits]
  constructor
  · intro other session seen
    by_cases same : other = slot
    · subst same
      obtain rfl : _ = session := by simpa using seen
      rfl
    · exact followed.asked other session (by simpa [same] using seen)
  · intro other isOpen
    rcases Loop.spared_advance _ entry other isOpen with ⟨wasOpen, path, fd⟩
    dsimp only
    rw [path, fd]
    by_cases same : other = slot
    · subst same
      exact ⟨⟨newFd, [], []⟩, by simp, by simp, by simp [Loop.clearEvents, Loop.occupy],
        by simp [Loop.clearEvents, Loop.occupy]⟩
    · have before : watched.loop.Open other := by
        simpa [Loop.Open, Loop.clearEvents, Loop.occupy, Loop.openConnection, same] using wasOpen
      simpa [Loop.clearEvents, Loop.occupy, Loop.openConnection, same] using
        followed.opened other before
  · exact followed.stray

/-- A visit that receives adds its bytes to what its slot holds. -/
theorem Followed.receive (followed : Followed watched)
    (admits : watched.loop.admits answers entry = none)
    (receives : watched.loop.Receives entry) :
    Followed (watched.follow answers entry ((watched.loop.visit answers entry).advance entry)) := by
  rcases followed.opened entry (.inr receives.2.2.1) with ⟨session, seen, incomplete, path, fd⟩
  have queued : session.queued = [] :=
    (followed.asked entry session seen).trans (Session.asked_of_incomplete incomplete)
  have tasks : watched.loop.newTasks ((watched.loop.receive answers entry).advance entry) =
      watched.loop.newTasks (watched.loop.receive answers entry) := by
    rw [Loop.newTasks, Loop.advance_taskQueue, Loop.newTasks]
  unfold Watched.follow
  rw [admits, seen, Loop.visit_of_receives receives, Loop.received, if_pos receives, tasks,
    Loop.newTasks_receive]
  dsimp only
  rw [queued, path, fd]
  constructor
  · intro slot other sees
    by_cases same : slot = entry
    · subst same
      dsimp only at sees
      rw [Function.update_self, Option.some.injEq] at sees
      subst sees
      exact (Session.asked_append incomplete _ _).symm
    · exact followed.asked slot other (by simpa [same] using sees)
  · intro slot isOpen
    rcases Loop.spared_advance _ entry slot isOpen with ⟨wasOpen, slotPath, slotFd⟩
    have before := watched.loop.receive_opened answers wasOpen
    dsimp only
    rw [slotPath, slotFd]
    by_cases same : slot = entry
    · subst same
      rw [if_pos rfl] at before
      rcases before with ⟨still, newPath, newFd⟩
      refine ⟨_, Function.update_self _ _ _, ?_, ?_, newFd.trans fd⟩
      · simp [incomplete, still]
      · rw [newPath, path]
    · rw [if_neg same] at before
      rcases before with ⟨earlier, newPath, newFd⟩
      rw [newPath, newFd, Function.update_of_ne same]
      exact followed.opened slot earlier
  · exact followed.stray

/-- Any other visit is seen as nothing. -/
theorem Followed.pass (followed : Followed watched) (bounded : entry ≤ maxConnections)
    (admits : watched.loop.admits answers entry = none)
    (receives : ¬ watched.loop.Receives entry) :
    Followed (watched.follow answers entry ((watched.loop.visit answers entry).advance entry)) := by
  rcases Loop.visit_spares bounded admits receives with ⟨queue, spares⟩
  have kept := followed.spared fun slot => (spares slot).trans (Loop.spared_advance _ entry slot)
  have tasks : watched.loop.newTasks ((watched.loop.visit answers entry).advance entry) = [] := by
    simp [Loop.newTasks, Loop.advance_taskQueue, queue]
  unfold Watched.follow
  rw [admits, Loop.received, if_neg receives, tasks]
  cases seen : watched.sessions entry with
  | none => simpa using kept
  | some session =>
      have same : Function.update watched.sessions entry (some session) = watched.sessions :=
        Function.update_eq_self_iff.mpr seen.symm
      simpa [same] using kept

/-- Every step keeps what was seen in agreement with the loop. -/
theorem Followed.step (followed : Followed watched) {event : Event}
    (bounded : ∀ entry, watched.loop.phase = .visiting entry → entry ≤ maxConnections)
    (taken : watched.loop.step event = some next) : Followed (watched.observe event next) := by
  unfold Watched.observe
  cases Loop.transition_of_step taken with
  | poll readable turn => exact followed.spared fun _ => .refl
  | visit answers entry turn fresh =>
      rw [turn]
      cases admits : watched.loop.admits answers entry with
      | some accepted => exact followed.admit admits
      | none =>
          by_cases receives : watched.loop.Receives entry
          · exact followed.receive admits receives
          · exact followed.pass (bounded entry turn) admits receives
  | idle turn empty => exact followed.spared fun _ => .refl
  | result result rest turn queue =>
      exact followed.spared fun slot => Loop.handleResult_spares _ result slot
  | take task rest queue => exact followed.spared fun _ => .refl
  | finish index buffer task found => exact followed.spared fun _ => .refl

/-- In every run that is watched. -/
theorem followed_of_reachable (setup : Setup) {watched : Watched}
    (reached : setup.watched.Reachable watched) : Followed watched := by
  have invariant : Followed watched ∧
      ∀ entry, watched.loop.phase = .visiting entry → entry ≤ maxConnections := by
    apply reached.invariant
    · refine ⟨⟨fun _ _ seen => ?_, fun slot isOpen => ?_, rfl⟩, fun entry visits => ?_⟩
      · cases seen
      · rcases isOpen with isInit | isRecv
        · cases isInit
        · cases isRecv
      · cases visits
    · rintro watched event _ _ ⟨followed, bounded⟩ taken
      rcases Option.map_eq_some_iff.mp taken with ⟨next, step, rfl⟩
      refine ⟨followed.step bounded step, ?_⟩
      rw [watched.observe_loop]
      exact bounded_of_transition (Loop.transition_of_step step) bounded
  exact invariant.1

/-- In every run each connection that was accepted into a slot has queued what its
bytes ask for: nothing before the first newline, and one task from then on. -/
theorem requests_assembled (setup : Setup) {events : List Event} {loop : Loop}
    (run : setup.machine.Run events loop) :
    ∃ watched, setup.watched.Run events watched ∧ watched.loop = loop ∧
      (∀ slot session, watched.sessions slot = some session → session.queued =
        if Loop.newline ∈ session.received then
          [(session.fd, session.received.takeWhile (· ≠ Loop.newline))]
        else []) ∧
      watched.stray = [] := by
  rcases setup.watched_of_run run with ⟨watched, watchedRun, same⟩
  have followed := followed_of_reachable setup ⟨events, watchedRun⟩
  exact ⟨watched, watchedRun, same, followed.asked, followed.stray⟩

end Invariant

/-- A round in which one entry is reported. -/
def round (entry : ℕ) (answers : Answers) : List Event :=
  .poll (fun other => other = entry) ::
    (List.replicate entry quiet ++
      .visit answers :: List.replicate (maxConnections - entry) quiet ++ [.result])

/-- What `recv` returns, on slot 2. -/
def chunk (bytes : Option (List UInt8)) : List Event :=
  round 2 ⟨0, none, true, bytes, .failed, .EMPTY⟩

/-- A connection gets descriptor 7 and sends `ab`, a newline and `c`, with an error and
an empty result in between. -/
def segmented : List Event :=
  round 0 ⟨0, some 7, true, none, .failed, .EMPTY⟩ ++ chunk (some [97]) ++ chunk none ++
    chunk (some []) ++ chunk (some [98, 10, 99])

theorem requests_assembled_segmented :
    ((setupWith 0).watched.runFrom (setupWith 0).watched.init segmented).map
      (fun watched => (watched.sessions 2).map Session.queued) = some (some [(7, [97, 98])]) ∧
    ∃ watched, (setupWith 0).watched.Run segmented watched ∧
      watched.loop = (setupWith 0).after segmented ∧
      (∀ slot session, watched.sessions slot = some session → session.queued =
        if Loop.newline ∈ session.received then
          [(session.fd, session.received.takeWhile (· ≠ Loop.newline))]
        else []) ∧
      watched.stray = [] :=
  ⟨by decide +kernel, requests_assembled (setupWith 0) (Setup.run_after (by decide +kernel))⟩

end CSE550.WebServer
