import CSE550.Lib.Machine
import Mathlib.Logic.Function.Basic
import Mathlib.Data.Int.Notation

/-!
Owns the thread pool of `thread_pool.cc` as a machine: the two queues, the workers
between their mutex-protected sections, and the condition variable they wait on.

A step is one section of a worker or of a caller, a wake-up, or a change of the file
system. A wake-up may come at any time. The callers take a result only when there is
one; `front` of an empty queue has no meaning.

Does not own the buffer of a result after the file was read, nor the self-pipe.
-/

namespace CSE550.WebServer.ThreadPool

open CSE550.Lib

/-- `pair<int, string>`: the identifier of a request and the path of its file. -/
structure Task where
  first : ℤ
  second : List UInt8
deriving DecidableEq

/-- The bytes of a file; none when it cannot be opened. -/
abbrev Content := Option (List UInt8)

/-- `pair<int, char*>`: the identifier and what was read. -/
structure Result where
  first : ℤ
  second : Content
deriving DecidableEq

/-- Where a worker is in the loop of `worker_thread`. -/
inductive Point where
  /-- Before it locks the task queue. -/
  | looking
  /-- In `pthread_cond_wait`. -/
  | waiting
  /-- Woken up, before it has the mutex again. -/
  | woken
  /-- After it has unlocked the task queue. -/
  | handling
  /-- Before `queue_result`. -/
  | queueing (result : Result)
  /-- Before the check for termination. -/
  | checking
  | returned
deriving DecidableEq

/-- The variables of `worker_thread`. -/
structure Worker where
  done : Bool
  workAvailable : Bool
  task : Task
  point : Point
deriving DecidableEq

/-- The pool with the callers' view of it: what they have queued and dequeued. No
thread reads `queued`, `dequeued` and `thrown`. -/
structure Pool (numThreads : ℕ) where
  taskQueue : List Task
  resultQueue : List Result
  exitSignal : Bool
  workers : Fin numThreads → Worker
  /-- What can be read at a path. -/
  files : List UInt8 → Content
  queued : List Task
  dequeued : List Result
  /-- The exceptions of `dequeue_task`. -/
  thrown : List ℤ
  /-- An exception has left a thread. -/
  terminated : Bool

/-- `has_task`. -/
def hasTask (taskQueue : List Task) : Bool := taskQueue.length > 0

/-- `dequeue_task`. -/
def dequeueTask : List Task → Except ℤ (Task × List Task)
  | [] => .error 42
  | task :: rest => .ok (task, rest)

/-- `c_str` of a path, as a C string is read. -/
def cStr (path : List UInt8) : List UInt8 := path.takeWhile (· ≠ 0)

/-- `read_file`. -/
def readFile (files : List UInt8 → Content) (filepath : List UInt8) : Content :=
  files (cStr filepath)

/-- `work_available = has_task()` and, with work, `task = dequeue_task()`. -/
def Worker.fetch (worker : Worker) (taskQueue : List Task) : Worker × Except ℤ (List Task) :=
  let flagged := { worker with workAvailable := hasTask taskQueue }
  if flagged.workAvailable then
    match dequeueTask taskQueue with
    | .ok (task, rest) => ({ flagged with task := task }, .ok rest)
    | .error code => (flagged, .error code)
  else (flagged, .ok taskQueue)

/-- A worker that waits is woken. -/
def Worker.wake (worker : Worker) : Worker :=
  { worker with point := if worker.point = .waiting then .woken else worker.point }

namespace Pool

variable {numThreads : ℕ} (pool : Pool numThreads) (index : Fin numThreads)

def setWorker (worker : Worker) : Pool numThreads :=
  { pool with workers := Function.update pool.workers index worker }

@[simp] theorem setWorker_workers (worker : Worker) :
    (pool.setWorker index worker).workers = Function.update pool.workers index worker := rfl

/-- `pthread_cond_broadcast(&task_cond_var)`. -/
def signalTaskQueue : Pool numThreads :=
  { pool with workers := fun index => (pool.workers index).wake }

/-- `queue_task`. -/
def queueTask (task : Task) : Pool numThreads :=
  { pool with
    taskQueue := pool.taskQueue ++ [task]
    queued := pool.queued ++ [task] }.signalTaskQueue

/-- The first part of the section on the task queue. An exception is caught, and
without work the worker waits. -/
def takeTask : Pool numThreads :=
  let worker := pool.workers index
  match worker.fetch pool.taskQueue with
  | (fetched, .ok rest) =>
      { pool with taskQueue := rest }.setWorker index
        { fetched with point := if fetched.workAvailable then .handling else .waiting }
  | (fetched, .error code) =>
      { pool with thrown := pool.thrown ++ [code] }.setWorker index
        { fetched with workAvailable := false, point := .waiting }

/-- What follows `pthread_cond_wait`. An exception is not caught. -/
def resume : Pool numThreads :=
  let worker := pool.workers index
  match worker.fetch pool.taskQueue with
  | (fetched, .ok rest) =>
      { pool with taskQueue := rest }.setWorker index { fetched with point := .handling }
  | (fetched, .error code) =>
      { pool with thrown := pool.thrown ++ [code], terminated := true }.setWorker index fetched

/-- The file of a valid task is read. -/
def handle : Pool numThreads :=
  let worker := pool.workers index
  if worker.workAvailable then
    pool.setWorker index
      { worker with
        point := .queueing ⟨worker.task.first, readFile pool.files worker.task.second⟩ }
  else pool.setWorker index { worker with point := .checking }

/-- `queue_result`. -/
def queueResult (result : Result) : Pool numThreads :=
  { pool with resultQueue := pool.resultQueue ++ [result] }.setWorker index
    { pool.workers index with point := .checking }

/-- The check for termination and the loop test. -/
def checkExit : Pool numThreads :=
  let worker := pool.workers index
  let done := if pool.exitSignal then true else worker.done
  pool.setWorker index { worker with done := done, point := if done then .returned else .looking }

end Pool

/-- The labels of the steps. -/
inductive Label (numThreads : ℕ) where
  | queueTask (task : Task)
  | dequeueResult
  | signalTaskQueue
  /-- A wake-up without a signal. -/
  | wake (index : Fin numThreads)
  /-- A section of a worker. -/
  | work (index : Fin numThreads)
  /-- `destroy` sets `exit_signal`. -/
  | signalExit
  /-- The file system changes at a path. -/
  | store (path : List UInt8) (content : Content)

variable {numThreads : ℕ}

/-- The next section of a worker; a worker that waits or has returned has none. -/
def Pool.work (pool : Pool numThreads) (index : Fin numThreads) : Option (Pool numThreads) :=
  match (pool.workers index).point with
  | .looking => some (pool.takeTask index)
  | .woken => some (pool.resume index)
  | .handling => some (pool.handle index)
  | .queueing result => some (pool.queueResult index result)
  | .checking => some (pool.checkExit index)
  | .waiting | .returned => none

/-- One step of the pool. -/
def Pool.step (pool : Pool numThreads) (label : Label numThreads) : Option (Pool numThreads) :=
  if pool.terminated then none
  else
    match label with
    | .queueTask task => some (pool.queueTask task)
    | .dequeueResult =>
        match pool.resultQueue with
        | [] => none
        | result :: rest =>
            some { pool with resultQueue := rest, dequeued := pool.dequeued ++ [result] }
    | .signalTaskQueue => some pool.signalTaskQueue
    | .wake index =>
        if (pool.workers index).point = .waiting then
          some (pool.setWorker index (pool.workers index).wake)
        else none
    | .work index => pool.work index
    | .signalExit => some { pool with exitSignal := true }
    | .store path content => some { pool with files := Function.update pool.files path content }

/-- A pool of `num_threads` workers over a file system. -/
def machine (numThreads : ℕ) (files : List UInt8 → Content) :
    Machine (Pool numThreads) (Label numThreads) where
  init :=
    { taskQueue := []
      resultQueue := []
      exitSignal := false
      workers := fun _ => ⟨false, false, ⟨0, []⟩, .looking⟩
      files := files
      queued := []
      dequeued := []
      thrown := []
      terminated := false }
  step := Pool.step

/-! ### What a step can do -/

/-- The task a worker has taken and not answered. -/
def Worker.held (worker : Worker) : Option Task :=
  match worker.point with
  | .handling => if worker.workAvailable then some worker.task else none
  | .queueing _ => some worker.task
  | _ => none

/-- A flag and a task from an earlier round are overwritten before they are used. -/
theorem Worker.fetch_eq (worker : Worker) (taskQueue : List Task) :
    worker.fetch taskQueue = match taskQueue with
      | [] => ({ worker with workAvailable := false }, .ok [])
      | task :: rest => ({ worker with workAvailable := true, task := task }, .ok rest) := by
  cases taskQueue with
  | nil => rfl
  | cons task rest => rfl

@[simp] theorem Worker.held_wake (worker : Worker) : worker.wake.held = worker.held := by
  rcases worker with ⟨done, workAvailable, task, point⟩
  cases point <;> rfl

/-- The worker is about to queue the result. -/
def Worker.Answers (worker : Worker) (task : Task) (result : Result) : Prop :=
  worker.task = task ∧ worker.point = .queueing result

theorem Worker.Answers.held {worker : Worker} {task : Task} {result : Result}
    (answers : worker.Answers task result) : worker.held = some task := by
  rw [Worker.held, answers.2, answers.1]

theorem Worker.answers_wake {worker : Worker} {task : Task} {result : Result} :
    worker.wake.Answers task result ↔ worker.Answers task result := by
  rcases worker with ⟨done, workAvailable, own, point⟩
  cases point <;> simp [wake, Answers]

/-- Queues and histories are as before, and so is what each worker holds. -/
structure Quiet (pool next : Pool numThreads) : Prop where
  taskQueue : next.taskQueue = pool.taskQueue
  resultQueue : next.resultQueue = pool.resultQueue
  queued : next.queued = pool.queued
  dequeued : next.dequeued = pool.dequeued
  thrown : next.thrown = pool.thrown
  held : ∀ index, (next.workers index).held = (pool.workers index).held
  answers : ∀ index task result, (next.workers index).Answers task result →
    (pool.workers index).Answers task result

theorem Quiet.signalTaskQueue (pool : Pool numThreads) : Quiet pool pool.signalTaskQueue where
  taskQueue := rfl
  resultQueue := rfl
  queued := rfl
  dequeued := rfl
  thrown := rfl
  held := fun _ => Worker.held_wake _
  answers := fun _ _ _ => Worker.answers_wake.mp

/-- A worker without a task goes on without one. -/
theorem Quiet.setWorker {pool : Pool numThreads} {index : Fin numThreads} {worker : Worker}
    (before : (pool.workers index).held = none) (after : worker.held = none) :
    Quiet pool (pool.setWorker index worker) where
  taskQueue := rfl
  resultQueue := rfl
  queued := rfl
  dequeued := rfl
  thrown := rfl
  held :=
    (Function.forall_update_iff _ fun other (going : Worker) =>
      going.held = (pool.workers other).held).mpr ⟨after.trans before.symm, fun _ _ => rfl⟩
  answers :=
    (Function.forall_update_iff _ fun other (going : Worker) => ∀ task result,
      going.Answers task result → (pool.workers other).Answers task result).mpr
        ⟨fun task result answers => absurd (after.symm.trans answers.held) (by simp),
          fun _ _ _ _ answers => answers⟩

/-- What a step of the pool can do. -/
inductive Transition (pool : Pool numThreads) (label : Label numThreads) :
    Pool numThreads → Prop
  | quiet (next : Pool numThreads) (quiet : Quiet pool next) : Transition pool label next
  | queueTask (task : Task) : Transition pool label (pool.queueTask task)
  | dequeueResult (result : Result) (rest : List Result)
      (queue : pool.resultQueue = result :: rest) :
      Transition pool label
        { pool with resultQueue := rest, dequeued := pool.dequeued ++ [result] }
  | take (index : Fin numThreads) (task : Task) (rest : List Task)
      (queue : pool.taskQueue = task :: rest) (free : (pool.workers index).held = none) :
      Transition pool label ({ pool with taskQueue := rest }.setWorker index
        { pool.workers index with workAvailable := true, task := task, point := .handling })
  | read (index : Fin numThreads) (named : label = .work index)
      (point : (pool.workers index).point = .handling)
      (available : (pool.workers index).workAvailable = true) :
      Transition pool label (pool.setWorker index
        { pool.workers index with
          point := .queueing ⟨(pool.workers index).task.first,
            readFile pool.files (pool.workers index).task.second⟩ })
  | queueResult (index : Fin numThreads) (result : Result)
      (point : (pool.workers index).point = .queueing result) :
      Transition pool label (pool.queueResult index result)

section Sections

variable {pool : Pool numThreads} {index : Fin numThreads}

theorem Pool.takeTask_nil (queue : pool.taskQueue = []) :
    pool.takeTask index = pool.setWorker index
      { pool.workers index with workAvailable := false, point := .waiting } := by
  rcases pool with ⟨taskQueue, _, _, _, _, _, _, _, _⟩
  obtain rfl : taskQueue = [] := queue
  rfl

theorem Pool.takeTask_cons {task : Task} {rest : List Task}
    (queue : pool.taskQueue = task :: rest) :
    pool.takeTask index = { pool with taskQueue := rest }.setWorker index
      { pool.workers index with workAvailable := true, task := task, point := .handling } := by
  simp only [takeTask, Worker.fetch_eq, queue, if_true]

theorem Pool.resume_nil (queue : pool.taskQueue = []) :
    pool.resume index = pool.setWorker index
      { pool.workers index with workAvailable := false, point := .handling } := by
  rcases pool with ⟨taskQueue, _, _, _, _, _, _, _, _⟩
  obtain rfl : taskQueue = [] := queue
  rfl

theorem Pool.resume_cons {task : Task} {rest : List Task}
    (queue : pool.taskQueue = task :: rest) :
    pool.resume index = { pool with taskQueue := rest }.setWorker index
      { pool.workers index with workAvailable := true, task := task, point := .handling } := by
  simp only [resume, Worker.fetch_eq, queue]

/-- A section of a worker is one of the transitions. -/
theorem Transition.work {next : Pool numThreads} (taken : pool.work index = some next) :
    Transition pool (.work index) next := by
  unfold Pool.work at taken
  split at taken
  · rename_i point
    cases taken
    have free : (pool.workers index).held = none := by rw [Worker.held, point]
    cases queue : pool.taskQueue with
    | nil =>
        rw [Pool.takeTask_nil queue]
        exact .quiet _ (.setWorker free rfl)
    | cons task rest =>
        rw [Pool.takeTask_cons queue]
        exact .take index task rest queue free
  · rename_i point
    cases taken
    have free : (pool.workers index).held = none := by rw [Worker.held, point]
    cases queue : pool.taskQueue with
    | nil =>
        rw [Pool.resume_nil queue]
        exact .quiet _ (.setWorker free rfl)
    | cons task rest =>
        rw [Pool.resume_cons queue]
        exact .take index task rest queue free
  · rename_i point
    cases taken
    by_cases available : (pool.workers index).workAvailable = true
    · rw [Pool.handle, if_pos available]
      exact .read index rfl point available
    · rw [Pool.handle, if_neg available]
      refine .quiet _ (.setWorker ?_ rfl)
      rw [Worker.held, point]
      exact if_neg available
  · rename_i result point
    cases taken
    exact .queueResult index result point
  · rename_i point
    cases taken
    refine .quiet _ (.setWorker ?_ ?_)
    · rw [Worker.held, point]
    · cases (if pool.exitSignal then true else (pool.workers index).done)
      · rfl
      · rfl
  · cases taken
  · cases taken

/-- Every step is one of the transitions. -/
theorem transition_of_step {next : Pool numThreads} {label : Label numThreads}
    (taken : pool.step label = some next) : Transition pool label next := by
  unfold Pool.step at taken
  split at taken
  · cases taken
  · cases label with
    | queueTask task =>
        cases taken
        exact .queueTask task
    | dequeueResult =>
        dsimp only at taken
        split at taken
        · cases taken
        · rename_i result rest queue
          cases taken
          exact .dequeueResult result rest queue
    | signalTaskQueue =>
        cases taken
        exact .quiet _ (.signalTaskQueue pool)
    | wake index =>
        simp only [Option.ite_none_right_eq_some, Option.some.injEq] at taken
        rcases taken with ⟨point, rfl⟩
        have free : (pool.workers index).held = none := by rw [Worker.held, point]
        exact .quiet _ (.setWorker free (by rw [Worker.held_wake, free]))
    | work index => exact .work taken
    | signalExit =>
        cases taken
        exact .quiet _ ⟨rfl, rfl, rfl, rfl, rfl, fun _ => rfl, fun _ _ _ answers => answers⟩
    | store path content =>
        cases taken
        exact .quiet _ ⟨rfl, rfl, rfl, rfl, rfl, fun _ => rfl, fun _ _ _ answers => answers⟩

end Sections

end CSE550.WebServer.ThreadPool
