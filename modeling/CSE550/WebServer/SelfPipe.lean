import CSE550.WebServer.Assembly

/-!
Owns the self-pipe of `async_serv`: the bytes in it, the mutexes of the pipe and of the
results, and where the main thread and a worker wait.

The machine is the event loop with the places where its threads wait. A poll reports
the read end exactly when the pipe holds a byte, and a write waits while the pipe is
full. What the last visit of a round changes is noted with `lock_result_mutex`; no
other thread reads it in between.

Does not own the mutex of the task queue, whose sections never wait, nor a poll that
fails.
-/

namespace CSE550.WebServer

open CSE550.Lib

/-! ### The code -/

/-- Who holds a mutex. Only one worker at a time is past `lock_result_mutex`. -/
inductive Thread where
  | main
  | worker
deriving DecidableEq

/-- Where the main thread is. -/
inductive MainPoint where
  | looping
  /-- In a visit that has something to tell, up to its byte in the pipe. -/
  | notifying (answers : Answers)
  /-- After the last visit, before it has the result mutex. -/
  | locking (answers : Answers)

/-- The event loop with the pipe and the mutexes. No thread reads `failed` and `rounds`. -/
structure Server where
  loop : Loop
  /-- The bytes in the pipe. -/
  pipe : ℕ
  selfPipeMutex : Option Thread
  resultMutex : Option Thread
  point : MainPoint
  /-- The sends of this round after which a byte is written. -/
  failed : ℕ
  /-- The rounds that are over. -/
  rounds : ℕ

/-- `sizeof(buf)`. -/
def pipeReadSize : ℕ := 5

/-- The visit writes a byte: its send failed, or did not send everything. -/
def Loop.Notifies (loop : Loop) (answers : Answers) (entry : ℕ) : Prop :=
  ¬ (entry = maxConnections ∧ loop.readable entry = true) ∧ entry ≠ 0 ∧
    loop.stateAt answers entry = .SEND ∧
      (sendVisit (loop.partialSends entry) answers.send).closes = false

instance notifiesDecidable (loop : Loop) (answers : Answers) (entry : ℕ) :
    Decidable (loop.Notifies answers entry) := by
  unfold Loop.Notifies
  infer_instance

/-- What `read` returns for the read end, which does not block. -/
def Server.readReturns (server : Server) : ℤ :=
  if server.pipe = 0 then -1 else min pipeReadSize server.pipe

/-- The end of a visit. After the last one the result mutex is next. -/
def Server.endVisit (server : Server) (answers : Answers) : Option Server :=
  if server.loop.phase = .visiting maxConnections then
    some { server with point := .locking answers }
  else
    (server.loop.step (.visit answers)).map fun loop =>
      { server with loop := loop, point := .looping }

/-- A visit, up to the lock of a mutex. -/
def Server.visit (server : Server) (answers : Answers) : Option Server :=
  match server.loop.phase with
  | .visiting entry =>
      if server.loop.Fresh answers then
        if server.loop.Notifies answers entry then
          some { server with point := .notifying answers, failed := server.failed + 1 }
        else if entry = maxConnections ∧ server.loop.readable entry then
          if server.selfPipeMutex = none then
            Server.endVisit { server with pipe := server.pipe - pipeReadSize }
              { answers with pipeRead := server.readReturns }
          else none
        else server.endVisit answers
      else none
  | _ => none

/-- The handling of a result, or `unlock_result_mutex` when there is none. -/
def Server.result (server : Server) : Option Server :=
  (server.loop.step .result).map fun loop =>
    if loop.phase = .polling then
      { server with loop := loop, resultMutex := none, rounds := server.rounds + 1 }
    else { server with loop := loop }

/-- The labels of the steps. -/
inductive Call where
  | poll (readable : ℕ → Bool)
  | visit (answers : Answers)
  /-- `lock_self_pipe_mutex` in a visit. -/
  | lockSelfPipeMutex
  /-- `write` and `unlock_self_pipe_mutex` in a visit. -/
  | write
  | lockResultMutex
  | result
  /-- A worker takes a task. -/
  | take
  /-- A worker has locked the result mutex and pushed what it read. -/
  | queueResult (index : ℕ) (buffer : Option Memory)
  /-- A worker locks the pipe's mutex in `notify_self_pipe`. -/
  | lockToNotify
  /-- `notify_self_pipe` has written, and both mutexes are unlocked. -/
  | notifySelfPipe

/-- The main thread makes the step. -/
def Call.ofMain : Call → Bool
  | .poll _ | .visit _ | .lockSelfPipeMutex | .write | .lockResultMutex | .result => true
  | .take | .queueResult _ _ | .lockToNotify | .notifySelfPipe => false

/-- The workers between `dequeue_task` and the end of `queue_result`. -/
def Server.busy (server : Server) : ℕ :=
  server.loop.reading.length + if server.resultMutex = some .worker then 1 else 0

/-- One step of a thread; none while it waits or another one's turn is first. -/
def Server.step (capacity : ℕ) (server : Server) (call : Call) : Option Server :=
  if server.loop.status = .running then
    match call, server.point with
    | .poll readable, .looping =>
        if readable maxConnections = decide (0 < server.pipe) then
          (server.loop.step (.poll readable)).map fun loop =>
            { server with loop := loop, failed := 0 }
        else none
    | .visit answers, .looping => server.visit answers
    | .lockSelfPipeMutex, .notifying _ =>
        if server.selfPipeMutex = none then some { server with selfPipeMutex := some .main }
        else none
    | .write, .notifying answers =>
        if server.selfPipeMutex = some .main ∧ server.pipe < capacity then
          Server.endVisit { server with pipe := server.pipe + 1, selfPipeMutex := none } answers
        else none
    | .lockResultMutex, .locking answers =>
        if server.resultMutex = none then
          (server.loop.step (.visit answers)).map fun loop =>
            { server with loop := loop, resultMutex := some .main, point := .looping }
        else none
    | .result, .looping => server.result
    | .take, _ =>
        if server.busy < threadPoolSize then
          (server.loop.step .take).map fun loop => { server with loop := loop }
        else none
    | .queueResult index buffer, _ =>
        if server.resultMutex = none then
          (server.loop.step (.finish index buffer)).map fun loop =>
            { server with loop := loop, resultMutex := some .worker }
        else none
    | .lockToNotify, _ =>
        if server.resultMutex = some .worker ∧ server.selfPipeMutex = none then
          some { server with selfPipeMutex := some .worker }
        else none
    | .notifySelfPipe, _ =>
        if server.selfPipeMutex = some .worker ∧ server.pipe < capacity then
          some { server with
            pipe := server.pipe + 1, selfPipeMutex := none, resultMutex := none }
        else none
    | _, _ => none
  else none

/-- The server with a pipe of some capacity. -/
def Setup.server (setup : Setup) (capacity : ℕ) : Machine Server Call where
  init :=
    { loop := setup.start
      pipe := 0
      selfPipeMutex := none
      resultMutex := none
      point := .looping
      failed := 0
      rounds := 0 }
  step := Server.step capacity

/-! ### What a step can do -/

/-- A send that does not fail sends everything that is asked for. -/
theorem Loop.notifies_iff {loop : Loop} {answers : Answers} {entry : ℕ} :
    loop.Notifies answers entry ↔ ¬ (entry = maxConnections ∧ loop.readable entry = true) ∧
      entry ≠ 0 ∧ loop.stateAt answers entry = .SEND ∧ answers.send = .failed := by
  unfold Loop.Notifies
  cases answers.send with
  | failed => simp [sendVisit]
  | accepted sentBytes => simp [sendVisit]

/-- A visit that writes a byte changes nothing else. -/
theorem Loop.Notifies.visit_eq {loop : Loop} {answers : Answers} {entry : ℕ}
    (notifies : loop.Notifies answers entry) : loop.visit answers entry = loop := by
  obtain ⟨notPipe, notFirst, sends, fails⟩ := notifies_iff.mp notifies
  simp [Loop.visit, notPipe, notFirst, sends, Loop.sendPart, fails]

/-- What a step can do, without the waiting for the mutexes. -/
inductive Server.Does (capacity : ℕ) (server : Server) : Call → Server → Prop
  | poll (readable : ℕ → Bool) (looping : server.point = .looping)
      (turn : server.loop.phase = .polling)
      (reports : readable maxConnections = decide (0 < server.pipe)) :
      Does capacity server (.poll readable) { server with
        loop := { server.loop with readable := readable, phase := .visiting 0 }
        failed := 0 }
  | visit (answers : Answers) (entry : ℕ) (looping : server.point = .looping)
      (turn : server.loop.phase = .visiting entry) (notLast : entry ≠ maxConnections)
      (fresh : server.loop.Fresh answers) (silent : ¬ server.loop.Notifies answers entry) :
      Does capacity server (.visit answers) { server with
        loop := (server.loop.visit answers entry).advance entry, point := .looping }
  | fails (answers : Answers) (entry : ℕ) (looping : server.point = .looping)
      (turn : server.loop.phase = .visiting entry) (fresh : server.loop.Fresh answers)
      (notifies : server.loop.Notifies answers entry) :
      Does capacity server (.visit answers) { server with
        point := .notifying answers, failed := server.failed + 1 }
  | read (answers : Answers) (looping : server.point = .looping)
      (turn : server.loop.phase = .visiting maxConnections)
      (fresh : server.loop.Fresh answers) (reports : server.loop.readable maxConnections = true)
      (free : server.selfPipeMutex = none) :
      Does capacity server (.visit answers) { server with
        pipe := server.pipe - pipeReadSize
        point := .locking { answers with pipeRead := server.readReturns } }
  | unread (answers : Answers) (looping : server.point = .looping)
      (turn : server.loop.phase = .visiting maxConnections)
      (fresh : server.loop.Fresh answers) (reports : server.loop.readable maxConnections = false)
      (silent : ¬ server.loop.Notifies answers maxConnections) :
      Does capacity server (.visit answers) { server with point := .locking answers }
  | lockSelfPipeMutex (answers : Answers) (notifying : server.point = .notifying answers)
      (free : server.selfPipeMutex = none) :
      Does capacity server .lockSelfPipeMutex { server with selfPipeMutex := some .main }
  | write (answers : Answers) (entry : ℕ) (notifying : server.point = .notifying answers)
      (holds : server.selfPipeMutex = some .main) (room : server.pipe < capacity)
      (turn : server.loop.phase = .visiting entry) (notLast : entry ≠ maxConnections)
      (fresh : server.loop.Fresh answers) :
      Does capacity server .write { server with
        loop := (server.loop.visit answers entry).advance entry
        pipe := server.pipe + 1
        selfPipeMutex := none
        point := .looping }
  | writeLast (answers : Answers) (notifying : server.point = .notifying answers)
      (holds : server.selfPipeMutex = some .main) (room : server.pipe < capacity)
      (turn : server.loop.phase = .visiting maxConnections) :
      Does capacity server .write { server with
        pipe := server.pipe + 1, selfPipeMutex := none, point := .locking answers }
  | lockResultMutex (answers : Answers) (entry : ℕ) (locking : server.point = .locking answers)
      (free : server.resultMutex = none) (turn : server.loop.phase = .visiting entry)
      (fresh : server.loop.Fresh answers) :
      Does capacity server .lockResultMutex { server with
        loop := (server.loop.visit answers entry).advance entry
        resultMutex := some .main
        point := .looping }
  | idle (looping : server.point = .looping) (turn : server.loop.phase = .results)
      (empty : server.loop.resultQueue = []) :
      Does capacity server .result { server with
        loop := { server.loop with phase := .polling }
        resultMutex := none
        rounds := server.rounds + 1 }
  | result (result : Result) (rest : List Result) (looping : server.point = .looping)
      (turn : server.loop.phase = .results) (queue : server.loop.resultQueue = result :: rest) :
      Does capacity server .result { server with
        loop := { server.loop with resultQueue := rest }.handleResult result }
  | take (task : Task) (rest : List Task) (queue : server.loop.taskQueue = task :: rest) :
      Does capacity server .take { server with
        loop := { server.loop with
          taskQueue := rest, reading := server.loop.reading ++ [task] } }
  | queueResult (index : ℕ) (buffer : Option Memory) (task : Task)
      (free : server.resultMutex = none) (found : server.loop.reading[index]? = some task) :
      Does capacity server (.queueResult index buffer) { server with
        loop := { server.loop with
          reading := server.loop.reading.eraseIdx index
          resultQueue := server.loop.resultQueue ++ [⟨task.fd, buffer, task.origin⟩] }
        resultMutex := some .worker }
  | lockToNotify (holds : server.resultMutex = some .worker) (free : server.selfPipeMutex = none) :
      Does capacity server .lockToNotify { server with selfPipeMutex := some .worker }
  | notifySelfPipe (holds : server.selfPipeMutex = some .worker) (room : server.pipe < capacity) :
      Does capacity server .notifySelfPipe { server with
        pipe := server.pipe + 1, selfPipeMutex := none, resultMutex := none }

section Steps

variable {capacity : ℕ} {server next : Server} {answers : Answers}

theorem Server.endVisit_cases (ends : server.endVisit answers = some next) :
    server.loop.phase = .visiting maxConnections ∧
        next = { server with point := .locking answers } ∨
      ∃ entry, entry ≠ maxConnections ∧ server.loop.phase = .visiting entry ∧
        server.loop.Fresh answers ∧ next = { server with
          loop := (server.loop.visit answers entry).advance entry, point := .looping } := by
  unfold Server.endVisit at ends
  split at ends
  · rename_i last
    exact .inl ⟨last, (Option.some.inj ends).symm⟩
  · rename_i notLast
    obtain ⟨loop, taken, rfl⟩ := Option.map_eq_some_iff.mp ends
    cases Loop.transition_of_step taken with
    | visit _ entry turn fresh =>
        refine .inr ⟨entry, fun isLast => notLast (isLast ▸ turn), turn, fresh, rfl⟩

/-- A visit that does not write. -/
theorem Server.Does.of_endVisit (looping : server.point = .looping) {entry : ℕ}
    (turn : server.loop.phase = .visiting entry) (fresh : server.loop.Fresh answers)
    (silent : ¬ server.loop.Notifies answers entry)
    (unread : ¬ (entry = maxConnections ∧ server.loop.readable entry = true))
    (ends : server.endVisit answers = some next) : server.Does capacity (.visit answers) next := by
  rcases endVisit_cases ends with ⟨last, rfl⟩ | ⟨other, notLast, turn', _, rfl⟩
  · obtain rfl : entry = maxConnections := Phase.visiting.inj (turn.symm.trans last)
    exact .unread answers looping last fresh (by simpa using unread) silent
  · obtain rfl : entry = other := Phase.visiting.inj (turn.symm.trans turn')
    exact .visit answers entry looping turn notLast fresh silent

theorem Server.Does.of_visit (looping : server.point = .looping)
    (visited : server.visit answers = some next) : server.Does capacity (.visit answers) next := by
  unfold Server.visit at visited
  split at visited
  · rename_i entry turn
    split at visited
    · rename_i fresh
      split at visited
      · rename_i notifies
        obtain rfl := Option.some.inj visited
        exact .fails answers entry looping turn fresh notifies
      · rename_i silent
        split at visited
        · rename_i reads
          obtain ⟨rfl, reports⟩ := reads
          split at visited
          · rename_i free
            rcases endVisit_cases visited with ⟨_, rfl⟩ | ⟨other, notLast, turn', _⟩
            · exact .read answers looping turn fresh reports free
            · exact absurd (Phase.visiting.inj (turn'.symm.trans turn)) notLast
          · cases visited
        · rename_i unread
          exact .of_endVisit looping turn fresh silent unread visited
    · cases visited
  · cases visited

/-- Every step is one of these. -/
theorem Server.does_of_step {call : Call} (taken : server.step capacity call = some next) :
    server.loop.status = .running ∧ server.Does capacity call next := by
  unfold Server.step at taken
  split at taken
  · rename_i running
    refine ⟨running, ?_⟩
    split at taken
    · rename_i readable looping
      split at taken
      · rename_i reports
        obtain ⟨loop, step, rfl⟩ := Option.map_eq_some_iff.mp taken
        cases Loop.transition_of_step step with
        | poll _ turn => exact .poll readable looping turn reports
      · cases taken
    · rename_i answers looping
      exact .of_visit looping taken
    · rename_i answers notifying
      split at taken
      · rename_i free
        obtain rfl := Option.some.inj taken
        exact .lockSelfPipeMutex answers notifying free
      · cases taken
    · rename_i answers notifying
      split at taken
      · rename_i able
        rcases endVisit_cases taken with ⟨last, rfl⟩ | ⟨entry, notLast, turn, fresh, rfl⟩
        · exact .writeLast answers notifying able.1 able.2 last
        · exact .write answers entry notifying able.1 able.2 turn notLast fresh
      · cases taken
    · rename_i answers locking
      split at taken
      · rename_i free
        obtain ⟨loop, step, rfl⟩ := Option.map_eq_some_iff.mp taken
        cases Loop.transition_of_step step with
        | visit _ entry turn fresh => exact .lockResultMutex answers entry locking free turn fresh
      · cases taken
    · rename_i looping
      obtain ⟨loop, step, rfl⟩ := Option.map_eq_some_iff.mp taken
      cases Loop.transition_of_step step with
      | idle turn empty => exact .idle looping turn empty
      | result result rest turn queue =>
          have results := phase_handleResult { server.loop with resultQueue := rest } result
          rw [if_neg (by rw [results, turn]; decide)]
          exact .result result rest looping turn queue
    · split at taken
      · obtain ⟨loop, step, rfl⟩ := Option.map_eq_some_iff.mp taken
        cases Loop.transition_of_step step with
        | take task rest queue => exact .take task rest queue
      · cases taken
    · rename_i index buffer
      split at taken
      · rename_i free
        obtain ⟨loop, step, rfl⟩ := Option.map_eq_some_iff.mp taken
        cases Loop.transition_of_step step with
        | finish _ _ task found => exact .queueResult index buffer task free found
      · cases taken
    · split at taken
      · rename_i able
        obtain rfl := Option.some.inj taken
        exact .lockToNotify able.1 able.2
      · cases taken
    · split at taken
      · rename_i able
        obtain rfl := Option.some.inj taken
        exact .notifySelfPipe able.1 able.2
      · cases taken
    · cases taken
  · cases taken

end Steps

/-! ### The mutexes -/

theorem Loop.phase_advance (loop : Loop) (entry : ℕ) : (loop.advance entry).phase =
    if entry < maxConnections then .visiting (entry + 1) else .results := by
  unfold Loop.advance
  split
  · rfl
  · rfl

/-- A visit leaves the tasks with the workers, and their results. -/
theorem Loop.visit_workers (loop : Loop) (answers : Answers) (entry : ℕ) :
    (loop.visit answers entry).reading = loop.reading ∧
      (loop.visit answers entry).resultQueue = loop.resultQueue := by
  unfold Loop.visit
  split
  · split
    · exact ⟨rfl, rfl⟩
    · exact ⟨rfl, rfl⟩
  · split
    · split
      · unfold Loop.acceptConnection
        split
        · exact ⟨rfl, rfl⟩
        · dsimp only
          split
          · split
            · exact ⟨rfl, rfl⟩
            · exact ⟨rfl, rfl⟩
          · exact ⟨rfl, rfl⟩
      · exact ⟨rfl, rfl⟩
    · split
      · split
        · obtain ⟨readable, same⟩ := loop.receive_eq answers entry
          rw [same, Loop.assemble_eq]
          split
          · exact ⟨rfl, rfl⟩
          · exact ⟨rfl, rfl⟩
        · exact ⟨rfl, rfl⟩
      · unfold Loop.sendPart
        split
        · exact ⟨rfl, rfl⟩
        · dsimp only
          split
          · exact ⟨rfl, rfl⟩
          · exact ⟨rfl, rfl⟩
      · exact ⟨rfl, rfl⟩

theorem Loop.advance_workers (loop : Loop) (entry : ℕ) :
    (loop.advance entry).reading = loop.reading ∧
      (loop.advance entry).resultQueue = loop.resultQueue := by
  unfold Loop.advance
  split
  · exact ⟨rfl, rfl⟩
  · exact ⟨rfl, rfl⟩

/-- Who holds the mutexes, and where the main thread can wait. -/
structure Server.Ordered (capacity : ℕ) (server : Server) : Prop where
  bounded : ∀ entry, server.loop.phase = .visiting entry → entry ≤ maxConnections
  results : server.resultMutex = some .main ↔ server.loop.phase = .results
  worker : server.selfPipeMutex = some .worker → server.resultMutex = some .worker
  main : server.selfPipeMutex = some .main → ∃ answers, server.point = .notifying answers
  notifying : ∀ answers, server.point = .notifying answers → server.loop.Fresh answers ∧
    ∃ entry, server.loop.phase = .visiting entry ∧ server.loop.Notifies answers entry
  locking : ∀ answers, server.point = .locking answers → server.loop.Fresh answers ∧
    server.loop.phase = .visiting maxConnections
  queued : server.resultMutex = some .worker → server.loop.resultQueue ≠ []
  room : server.pipe ≤ capacity

namespace Server.Ordered

variable {capacity : ℕ} {server next : Server} {answers : Answers} {entry : ℕ}

/-- The end of a visit that is not the last. -/
theorem visited (ordered : server.Ordered capacity) (turn : server.loop.phase = .visiting entry)
    (notLast : entry ≠ maxConnections) (pipe failed : ℕ) (room : pipe ≤ capacity)
    {selfPipeMutex : Option Thread}
    (keeps : selfPipeMutex = server.selfPipeMutex ∨ selfPipeMutex = none)
    (notMain : selfPipeMutex ≠ some .main) :
    Server.Ordered capacity { server with
      loop := (server.loop.visit answers entry).advance entry
      pipe := pipe
      selfPipeMutex := selfPipeMutex
      point := .looping
      failed := failed } := by
  have inside : entry < maxConnections := lt_of_le_of_ne (ordered.bounded entry turn) notLast
  have phase := (server.loop.visit answers entry).phase_advance entry
  rw [if_pos inside] at phase
  constructor
  · intro other same
    have next := Phase.visiting.inj (phase.symm.trans same)
    omega
  · have notResults : server.resultMutex ≠ some .main := fun held => by
      rw [ordered.results.mp held] at turn
      cases turn
    exact iff_of_false notResults fun isResults => by cases phase.symm.trans isResults
  · intro held
    rcases keeps with same | free
    · exact ordered.worker (same ▸ held)
    · cases free.symm.trans held
  · exact fun held => absurd held notMain
  · exact fun _ waits => by cases waits
  · exact fun _ waits => by cases waits
  · intro held
    show ((server.loop.visit answers entry).advance entry).resultQueue ≠ []
    rw [(Loop.advance_workers _ _).2, (Loop.visit_workers _ _ _).2]
    exact ordered.queued held
  · exact room

theorem step (ordered : server.Ordered capacity) {call : Call}
    (does : server.Does capacity call next) : next.Ordered capacity := by
  -- outside `notifying` the main thread does not hold the pipe's mutex
  have notMain (elsewhere : ∀ answers, server.point ≠ .notifying answers) :
      server.selfPipeMutex ≠ some .main := fun held => by
    obtain ⟨answers, waits⟩ := ordered.main held
    exact elsewhere answers waits
  cases does with
  | poll readable looping turn reports =>
      exact { ordered with
        bounded := fun entry same => by
          cases same
          exact Nat.zero_le _
        results := iff_of_false (fun held => by cases turn.symm.trans (ordered.results.mp held))
          (fun isResults => by cases isResults)
        notifying := fun _ waits => by cases looping.symm.trans waits
        locking := fun _ waits => by cases looping.symm.trans waits }
  | visit answers entry looping turn notLast fresh silent =>
      exact ordered.visited turn notLast _ _ ordered.room (.inl rfl) (notMain (by simp [looping]))
  | fails answers entry looping turn fresh notifies =>
      exact { ordered with
        main := fun held => absurd held (notMain (by simp [looping]))
        notifying := fun _ same => by
          obtain rfl := MainPoint.notifying.inj same
          exact ⟨fresh, entry, turn, notifies⟩
        locking := fun _ waits => by cases waits }
  | read answers looping turn fresh reports free =>
      exact { ordered with
        main := fun held => by cases free.symm.trans held
        notifying := fun _ waits => by cases waits
        locking := fun _ same => by
          obtain rfl := MainPoint.locking.inj same
          exact ⟨fresh, turn⟩
        room := (Nat.sub_le _ _).trans ordered.room }
  | unread answers looping turn fresh reports silent =>
      exact { ordered with
        main := fun held => absurd held (notMain (by simp [looping]))
        notifying := fun _ waits => by cases waits
        locking := fun _ same => by
          obtain rfl := MainPoint.locking.inj same
          exact ⟨fresh, turn⟩ }
  | lockSelfPipeMutex answers notifying free =>
      exact { ordered with
        worker := fun held => by cases held
        main := fun _ => ⟨answers, notifying⟩ }
  | write answers entry notifying holds room turn notLast fresh =>
      exact ordered.visited turn notLast _ _ room (.inr rfl) (by simp)
  | writeLast answers notifying holds room turn =>
      have fresh := (ordered.notifying answers notifying).1
      exact { ordered with
        worker := fun held => by cases held
        main := fun held => by cases held
        notifying := fun _ waits => by cases waits
        locking := fun _ same => by
          obtain rfl := MainPoint.locking.inj same
          exact ⟨fresh, turn⟩
        room := room }
  | lockResultMutex answers entry locking free turn fresh =>
      obtain rfl : entry = maxConnections :=
        Phase.visiting.inj (turn.symm.trans (ordered.locking answers locking).2)
      have phase := (server.loop.visit answers maxConnections).phase_advance maxConnections
      rw [if_neg (lt_irrefl _)] at phase
      exact {
        bounded := fun _ same => by cases phase.symm.trans same
        results := iff_of_true rfl phase
        worker := fun held => by cases free.symm.trans (ordered.worker held)
        main := fun held => absurd held (notMain (by simp [locking]))
        notifying := fun _ waits => by cases waits
        locking := fun _ waits => by cases waits
        queued := fun held => by cases held
        room := ordered.room }
  | idle looping turn empty =>
      exact { ordered with
        bounded := fun _ same => by cases same
        results := iff_of_false (fun held => by cases held) (fun isResults => by cases isResults)
        worker := fun held => by
          cases (ordered.results.mpr turn).symm.trans (ordered.worker held)
        notifying := fun _ waits => by cases looping.symm.trans waits
        locking := fun _ waits => by cases looping.symm.trans waits
        queued := fun held => by cases held }
  | result result rest looping turn queue =>
      have phase := phase_handleResult { server.loop with resultQueue := rest } result
      exact { ordered with
        bounded := fun _ same => by cases (phase.trans turn).symm.trans same
        results := iff_of_true (ordered.results.mpr turn) (phase.trans turn)
        notifying := fun _ waits => by cases looping.symm.trans waits
        locking := fun _ waits => by cases looping.symm.trans waits
        queued := fun held => by cases (ordered.results.mpr turn).symm.trans held }
  | take task rest queue => exact { ordered with }
  | queueResult index buffer task free found =>
      exact { ordered with
        results := iff_of_false (fun held => by cases held)
          (fun isResults => by cases free.symm.trans (ordered.results.mpr isResults))
        worker := fun _ => rfl
        queued := fun _ => List.append_ne_nil_of_right_ne_nil _ (List.cons_ne_nil _ _) }
  | lockToNotify holds free =>
      exact { ordered with
        worker := fun _ => holds
        main := fun held => by cases held }
  | notifySelfPipe holds room =>
      exact { ordered with
        results := iff_of_false (fun held => by cases held)
          (fun isResults => by
            cases (ordered.results.mpr isResults).symm.trans (ordered.worker holds))
        worker := fun held => by cases held
        main := fun held => by cases held
        queued := fun held => by cases held
        room := room }

end Server.Ordered

theorem Setup.ordered (setup : Setup) (capacity : ℕ) {server : Server}
    (reached : (setup.server capacity).Reachable server) : server.Ordered capacity := by
  apply reached.invariant
  · exact {
      bounded := fun _ same => by cases same
      results := iff_of_false (fun held => by cases held) (fun isResults => by cases isResults)
      worker := fun held => by cases held
      main := fun held => by cases held
      notifying := fun _ waits => by cases waits
      locking := fun _ waits => by cases waits
      queued := fun held => by cases held
      room := Nat.zero_le _ }
  · intro server call next _ ordered taken
    exact ordered.step (Server.does_of_step taken).2

/-! ### Where the main thread stays -/

/-- The main thread is at the read end, with a report. -/
def Server.Reads (server : Server) : Prop :=
  server.point = .looping ∧ server.loop.phase = .visiting maxConnections ∧
    server.loop.readable maxConnections = true

/-- The pipe is full, and what the main thread needs next is held by a thread that has
a byte to write, itself included. -/
def Server.Blocked (capacity : ℕ) (server : Server) : Prop :=
  server.pipe = capacity ∧
    (server.selfPipeMutex = some .main ∨
      server.selfPipeMutex = some .worker ∧
        ((∃ answers, server.point = .notifying answers) ∨ server.Reads) ∨
      server.resultMutex = some .worker ∧ ∃ answers, server.point = .locking answers)

section Blocked

variable {capacity : ℕ} {server next : Server} {answers : Answers}

/-- A blocked main thread makes no step, and the workers do not change that. -/
theorem Server.Blocked.step (blocked : server.Blocked capacity) (ordered : server.Ordered capacity)
    {call : Call} (does : server.Does capacity call next) :
    next.Blocked capacity ∧ call.ofMain = false := by
  obtain ⟨full, waits⟩ := blocked
  -- with the point of the main thread known, one of the three reasons is left
  have looping (loops : server.point = .looping) :
      server.selfPipeMutex = some .worker ∧ server.Reads := by
    rcases waits with held | ⟨held, ⟨answers, isThere⟩ | reads⟩ | ⟨_, answers, isThere⟩
    · obtain ⟨answers, isThere⟩ := ordered.main held
      cases loops.symm.trans isThere
    · cases loops.symm.trans isThere
    · exact ⟨held, reads⟩
    · cases loops.symm.trans isThere
  cases does with
  | poll readable loops turn reports => cases turn.symm.trans (looping loops).2.2.1
  | visit answers entry loops turn notLast fresh silent =>
      exact absurd (Phase.visiting.inj (turn.symm.trans (looping loops).2.2.1)) notLast
  | fails answers entry loops turn fresh notifies =>
      obtain ⟨_, _, last, reports⟩ := looping loops
      exact absurd ⟨Phase.visiting.inj (turn.symm.trans last), by
        rw [Phase.visiting.inj (turn.symm.trans last), reports]⟩ notifies.1
  | read answers loops turn fresh reports free => cases free.symm.trans (looping loops).1
  | unread answers loops turn fresh reports silent =>
      cases reports.symm.trans (looping loops).2.2.2
  | lockSelfPipeMutex answers notifying free =>
      rcases waits with held | ⟨held, _⟩ | ⟨_, other, locking⟩
      · cases free.symm.trans held
      · cases free.symm.trans held
      · cases notifying.symm.trans locking
  | write answers entry notifying holds room turn notLast fresh => omega
  | writeLast answers notifying holds room turn => omega
  | lockResultMutex answers entry locking free turn fresh =>
      rcases waits with held | ⟨_, ⟨other, isThere⟩ | reads⟩ | ⟨held, _⟩
      · obtain ⟨other, isThere⟩ := ordered.main held
        cases locking.symm.trans isThere
      · cases locking.symm.trans isThere
      · cases locking.symm.trans reads.1
      · cases free.symm.trans held
  | idle loops turn empty => cases turn.symm.trans (looping loops).2.2.1
  | result result rest loops turn queue => cases turn.symm.trans (looping loops).2.2.1
  | take task rest queue => exact ⟨⟨full, waits⟩, rfl⟩
  | queueResult index buffer task free found =>
      refine ⟨⟨full, ?_⟩, rfl⟩
      rcases waits with held | ⟨held, _⟩ | ⟨held, _⟩
      · exact .inl held
      · cases free.symm.trans (ordered.worker held)
      · cases free.symm.trans held
  | lockToNotify holds free =>
      refine ⟨⟨full, ?_⟩, rfl⟩
      rcases waits with held | ⟨held, _⟩ | locking
      · cases free.symm.trans held
      · cases free.symm.trans held
      · exact .inr (.inr locking)
  | notifySelfPipe holds room => omega

/-- Nothing happens on an entry. -/
def noAnswer : Answers := ⟨0, none, true, none, .accepted 0, .EMPTY⟩

theorem Loop.fresh_noAnswer (loop : Loop) : loop.Fresh noAnswer := by
  intro fd accepted
  cases accepted

/-- The end of a visit is never waited for. -/
theorem Server.endVisit_isSome (running : server.loop.status = .running) {entry : ℕ}
    (turn : server.loop.phase = .visiting entry) (fresh : server.loop.Fresh answers) :
    ∃ next, server.endVisit answers = some next := by
  unfold Server.endVisit
  split
  · exact ⟨_, rfl⟩
  · simp [Loop.step, running, turn, fresh]

/-- The main thread has a step after some steps of the workers. -/
def Setup.GoesOn (setup : Setup) (capacity : ℕ) (server : Server) : Prop :=
  ∃ middle call next, (setup.server capacity).Leads (fun used => used.ofMain = false) server middle ∧
    (setup.server capacity).step middle call = some next ∧ call.ofMain = true

variable {setup : Setup}

theorem Setup.GoesOn.now (call : Call) (isMain : call.ofMain = true)
    (enabled : ∃ next, server.step capacity call = some next) : setup.GoesOn capacity server := by
  obtain ⟨next, taken⟩ := enabled
  exact ⟨server, call, next, .refl server, taken, isMain⟩

theorem Setup.GoesOn.after {call : Call} (taken : server.step capacity call = some next)
    (isWorker : call.ofMain = false) (goesOn : setup.GoesOn capacity next) :
    setup.GoesOn capacity server := by
  obtain ⟨middle, later, final, leads, step, isMain⟩ := goesOn
  have first : (setup.server capacity).Leads (fun used => used.ofMain = false) server next :=
    .step taken isWorker
  exact ⟨middle, later, final, first.trans leads, step, isMain⟩

/-- A worker with room in the pipe gives both mutexes back. -/
theorem Server.step_notifySelfPipe (running : server.loop.status = .running)
    (holds : server.selfPipeMutex = some .worker) (room : server.pipe < capacity) :
    server.step capacity .notifySelfPipe = some { server with
      pipe := server.pipe + 1, selfPipeMutex := none, resultMutex := none } := by
  simp [Server.step, running, holds, room]

/-- At the read end the main thread needs the pipe's mutex. -/
theorem goesOn_read (running : server.loop.status = .running) (reads : server.Reads)
    (free : server.selfPipeMutex = none) : setup.GoesOn capacity server := by
  obtain ⟨loops, last, reports⟩ := reads
  have silent : ¬ server.loop.Notifies noAnswer maxConnections :=
    fun notifies => notifies.1 ⟨rfl, reports⟩
  apply Setup.GoesOn.now (.visit noAnswer) rfl
  simp [Server.step, running, loops, Server.visit, last, Loop.fresh_noAnswer, silent, reports, free,
    Server.endVisit]

theorem goesOn_lockSelfPipe (running : server.loop.status = .running)
    (notifying : server.point = .notifying answers) (free : server.selfPipeMutex = none) :
    setup.GoesOn capacity server := by
  apply Setup.GoesOn.now .lockSelfPipeMutex rfl
  simp [Server.step, running, notifying, free]

theorem goesOn_lockResult (running : server.loop.status = .running)
    (locking : server.point = .locking answers) (fresh : server.loop.Fresh answers)
    (last : server.loop.phase = .visiting maxConnections) (free : server.resultMutex = none) :
    setup.GoesOn capacity server := by
  apply Setup.GoesOn.now .lockResultMutex rfl
  simp [Server.step, running, locking, free, Loop.step, last, fresh]

/-- Unless it is blocked, the main thread has a step after some steps of the workers. -/
theorem Server.Ordered.goesOn (ordered : server.Ordered capacity)
    (running : server.loop.status = .running) (free : ¬ server.Blocked capacity) :
    setup.GoesOn capacity server := by
  -- a worker that waits for the pipe only, when the main thread needs one of its mutexes
  have room (waits : server.selfPipeMutex = some .main ∨
      server.selfPipeMutex = some .worker ∧
        ((∃ answers, server.point = .notifying answers) ∨ server.Reads) ∨
      server.resultMutex = some .worker ∧ ∃ answers, server.point = .locking answers) :
      server.pipe < capacity :=
    lt_of_le_of_ne ordered.room fun full => free ⟨full, waits⟩
  cases point : server.point with
  | looping =>
      have notMain : server.selfPipeMutex ≠ some .main := fun held => by
        obtain ⟨answers, notifying⟩ := ordered.main held
        cases point.symm.trans notifying
      cases phase : server.loop.phase with
      | polling =>
          apply Setup.GoesOn.now (.poll fun _ => decide (0 < server.pipe)) rfl
          simp [Server.step, running, point, Loop.step, phase]
      | results =>
          have step : ∃ loop, server.loop.step .result = some loop := by
            unfold Loop.step
            rw [if_pos running]
            simp only [phase]
            split
            · exact ⟨_, rfl⟩
            · exact ⟨_, rfl⟩
          obtain ⟨loop, taken⟩ := step
          apply Setup.GoesOn.now .result rfl
          simp [Server.step, running, point, Server.result, taken]
      | visiting entry =>
          by_cases reads : server.Reads
          · cases held : server.selfPipeMutex with
            | none => exact goesOn_read running reads held
            | some thread =>
                cases thread with
                | main => exact absurd held notMain
                | worker =>
                    have step := step_notifySelfPipe running held
                      (room (.inr (.inl ⟨held, .inr reads⟩)))
                    exact .after step rfl (goesOn_read running reads rfl)
          · have silent : ¬ server.loop.Notifies noAnswer entry := fun notifies => by
              cases (Loop.notifies_iff.mp notifies).2.2.2
            have unread : ¬ (entry = maxConnections ∧ server.loop.readable entry = true) := by
              rintro ⟨rfl, reports⟩
              exact reads ⟨point, phase, reports⟩
            obtain ⟨next, ends⟩ := endVisit_isSome running phase server.loop.fresh_noAnswer
            apply Setup.GoesOn.now (.visit noAnswer) rfl
            simp only [Server.step, running, point, Server.visit, phase, Loop.fresh_noAnswer, silent,
              unread, if_true, if_false, ends]
            exact ⟨next, rfl⟩
  | notifying answers =>
      cases held : server.selfPipeMutex with
      | none => exact goesOn_lockSelfPipe running point held
      | some thread =>
          cases thread with
          | main =>
              obtain ⟨fresh, entry, turn, _⟩ := ordered.notifying answers point
              have wide := room (.inl held)
              obtain ⟨next, ends⟩ := @endVisit_isSome
                { server with pipe := server.pipe + 1, selfPipeMutex := none } answers running
                entry turn fresh
              apply Setup.GoesOn.now .write rfl
              simp only [point] at ends
              simp only [Server.step, running, point, held, wide, and_self, if_true, ends]
              exact ⟨next, rfl⟩
          | worker =>
              have step := step_notifySelfPipe running held
                (room (.inr (.inl ⟨held, .inl ⟨answers, point⟩⟩)))
              exact .after step rfl (goesOn_lockSelfPipe running point rfl)
  | locking answers =>
      obtain ⟨fresh, last⟩ := ordered.locking answers point
      cases taken : server.resultMutex with
      | none => exact goesOn_lockResult running point fresh last taken
      | some thread =>
          cases thread with
          | main => cases last.symm.trans (ordered.results.mp taken)
          | worker =>
              have wide := room (.inr (.inr ⟨taken, answers, point⟩))
              cases held : server.selfPipeMutex with
              | none =>
                  have lock : server.step capacity .lockToNotify =
                      some { server with selfPipeMutex := some .worker } := by
                    simp [Server.step, running, taken, held]
                  have step := @step_notifySelfPipe capacity
                    { server with selfPipeMutex := some .worker } running rfl wide
                  exact .after lock rfl (.after step rfl (goesOn_lockResult running point fresh last
                    rfl))
              | some holder =>
                  cases holder with
                  | main =>
                      obtain ⟨other, notifying⟩ := ordered.main held
                      cases point.symm.trans notifying
                  | worker =>
                      exact .after (step_notifySelfPipe running held wide) rfl
                        (goesOn_lockResult running point fresh last rfl)

end Blocked

/-- In every run the main thread never makes a step again exactly when the pipe is full
and a thread with a byte to write holds the mutex that the main thread needs next. -/
theorem main_blocked_iff (setup : Setup) {capacity : ℕ} {calls : List Call} {server : Server}
    (run : (setup.server capacity).Run calls server) (running : server.loop.status = .running) :
    (∀ later final, (setup.server capacity).runFrom server later = some final →
      ∀ call ∈ later, call.ofMain = false) ↔ server.Blocked capacity := by
  have ordered := setup.ordered capacity ⟨calls, run⟩
  constructor
  · intro never
    by_contra free
    have goesOn : setup.GoesOn capacity server := ordered.goesOn running free
    obtain ⟨middle, call, next, ⟨workers, leads, _⟩, taken, isMain⟩ := goesOn
    have silent := never (workers ++ [call]) next (Machine.runFrom_snoc leads taken) call (by simp)
    rw [isMain] at silent
    cases silent
  · intro blocked later final onward
    have keep : ∀ state call next, state.Ordered capacity ∧ state.Blocked capacity →
        (setup.server capacity).step state call = some next →
        (next.Ordered capacity ∧ next.Blocked capacity) ∧ call.ofMain = false := by
      intro state call next holds taken
      obtain ⟨_, does⟩ := Server.does_of_step taken
      obtain ⟨still, isWorker⟩ := holds.2.step holds.1 does
      exact ⟨⟨holds.1.step does, still⟩, isWorker⟩
    exact (Machine.runFrom_keeps onward keep ⟨ordered, blocked⟩).2

/-- A poll that reports the entries of a list. -/
def pollOf (entries : List ℕ) : Call := .poll entries.contains

/-- A round that accepts a connection. -/
def acceptRound (fd : ℕ) : List Call :=
  pollOf [0] :: .visit { noAnswer with accept := some fd } ::
    (List.replicate 65 (.visit noAnswer) ++ [.lockResultMutex, .result])

/-- A request of one byte. -/
def request : Call := .visit { noAnswer with recv := some [97, 10] }

/-- A worker that answers a task. -/
def answerTask : List Call :=
  [.take, .queueResult 0 (some fun _ => 0), .lockToNotify, .notifySelfPipe]

/-- A send that fails. -/
def refusal : Call := .visit { noAnswer with send := .failed }

/-- A send that fails while the byte of its result is still in the pipe. -/
def failedSend : List Call :=
  acceptRound 7 ++ [pollOf [2], .visit noAnswer, .visit noAnswer, request] ++ answerTask ++
    List.replicate 63 (.visit noAnswer) ++ [.lockResultMutex, .result, .result, pollOf [65],
      .visit noAnswer, .visit noAnswer, refusal, .lockSelfPipeMutex]

/-- After it the main thread waits for itself. -/
theorem main_blocked_failedSend : ∃ server, ((setupWith 0).server 1).Run failedSend server ∧
    ∀ later final, ((setupWith 0).server 1).runFrom server later = some final →
      ∀ call ∈ later, call.ofMain = false := by
  have outcome : (((setupWith 0).server 1).runFrom ((setupWith 0).server 1).init failedSend).any
      (fun server => server.loop.status = .running ∧ server.pipe = 1 ∧
        server.selfPipeMutex = some .main) = true := by
    decide +kernel
  obtain ⟨server, found, ends⟩ := (Option.any_eq_true _ _).mp outcome
  obtain ⟨running, full, held⟩ := of_decide_eq_true ends
  have run : ((setupWith 0).server 1).Run failedSend server := found
  exact ⟨server, run, (main_blocked_iff (setupWith 0) run running).mpr ⟨full, .inl held⟩⟩

end CSE550.WebServer
