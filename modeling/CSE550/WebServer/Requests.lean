import CSE550.Lib.Workload
import CSE550.WebServer.ThreadPool
import Mathlib.Algebra.BigOperators.Fin
import Mathlib.Data.List.Forall2

/-!
Owns the account of the requests given to the thread pool: each one is in the task
queue, with a worker, or answered by one result, which carries its identifier and
the content that was read from its path.

The pool is a shared workload whose finished items are not stored: a result does not
keep the path of its task.
-/

namespace CSE550.WebServer.ThreadPool

open CSE550.Lib

variable {numThreads : ℕ}

/-- In the step a worker that holds the task reads the content from its path. -/
def Reads (task : Task) (content : Content) (pool : Pool numThreads) (label : Label numThreads)
    (_ : Pool numThreads) : Prop :=
  ∃ index, label = .work index ∧ (pool.workers index).point = .handling ∧
    (pool.workers index).held = some task ∧ readFile pool.files task.second = content

/-- The result carries the identifier of the task and what was read from its path. -/
structure Delivers (numThreads : ℕ) (files : List UInt8 → Content)
    (labels : List (Label numThreads)) (task : Task) (result : Result) : Prop where
  identifier : result.first = task.first
  content : (machine numThreads files).Occurs (Reads task result.second) labels

/-- The tasks held by the workers. -/
def Pool.heldTasks (pool : Pool numThreads) : Multiset Task :=
  Workload.inHands (Worker.held ∘ pool.workers)

/-- The pool at the end of a run does the work. -/
structure Related (files : List UInt8 → Content) (labels : List (Label numThreads))
    (pool : Pool numThreads) (work : Workload Task (Fin numThreads)) : Prop where
  submitted : work.submitted = pool.queued
  waiting : work.waiting = pool.taskQueue
  held : work.held = Worker.held ∘ pool.workers
  finished : List.Forall₂ (Delivers numThreads files labels) work.finished
    (pool.dequeued ++ pool.resultQueue)
  answers : ∀ index task result, (pool.workers index).Answers task result →
    Delivers numThreads files labels task result
  thrown : pool.thrown = []

section Account

variable {files : List UInt8 → Content} {labels : List (Label numThreads)}
  {pool next : Pool numThreads} {work : Workload Task (Fin numThreads)} {label : Label numThreads}

theorem Delivers.snoc {task : Task} {result : Result}
    (delivers : Delivers numThreads files labels task result) (label : Label numThreads) :
    Delivers numThreads files (labels ++ [label]) task result where
  identifier := delivers.identifier
  content := delivers.content.snoc label

theorem Related.snoc (related : Related files labels pool work) (label : Label numThreads) :
    Related files (labels ++ [label]) pool work where
  submitted := related.submitted
  waiting := related.waiting
  held := related.held
  finished := related.finished.imp fun _ _ delivers => delivers.snoc label
  answers := fun index task result answers => (related.answers index task result answers).snoc label
  thrown := related.thrown

theorem Related.quiet (related : Related files labels pool work) (quiet : Quiet pool next) :
    Related files labels next work where
  submitted := by rw [quiet.queued, related.submitted]
  waiting := by rw [quiet.taskQueue, related.waiting]
  held := related.held.trans (funext fun index => (quiet.held index).symm)
  finished := by
    rw [quiet.dequeued, quiet.resultQueue]
    exact related.finished
  answers := fun index task result answers =>
    related.answers index task result (quiet.answers index task result answers)
  thrown := by rw [quiet.thrown, related.thrown]

/-- What the workers hold after one of them went on. -/
theorem Related.held_update (related : Related files labels pool work) {index : Fin numThreads}
    {worker : Worker} {now : Option Task} (holds : worker.held = now) :
    Function.update work.held index now =
      Worker.held ∘ Function.update pool.workers index worker := by
  rw [Function.comp_update, related.held, holds]

/-- The results about to be queued after one worker went on. -/
theorem Related.answers_update (related : Related files labels pool work) {index : Fin numThreads}
    {worker : Worker} (own : ∀ task result, worker.Answers task result →
      Delivers numThreads files labels task result) :
    ∀ other task result, (Function.update pool.workers index worker other).Answers task result →
      Delivers numThreads files labels task result :=
  (Function.forall_update_iff _ fun _ (going : Worker) => ∀ task result,
    going.Answers task result → Delivers numThreads files labels task result).mpr
      ⟨own, fun other _ => related.answers other⟩

/-- Every step of the pool is a move of the work, or none. -/
theorem Related.step (run : (machine numThreads files).Run labels pool)
    (related : Related files labels pool work)
    (taken : (machine numThreads files).step pool label = some next) :
    ∃ final, (Workload.machine Task (Fin numThreads)).Leads (fun _ => True) work final ∧
      Related files (labels ++ [label]) next final := by
  have later := related.snoc label
  cases transition_of_step taken with
  | quiet _ quiet => exact ⟨work, .refl _, later.quiet quiet⟩
  | queueTask task =>
      refine ⟨_, .step (Workload.step_submit work task) trivial, ?_⟩
      exact
        { submitted := by rw [later.submitted]; rfl
          waiting := by rw [later.waiting]; rfl
          held := later.held.trans (funext fun _ => (Worker.held_wake _).symm)
          finished := later.finished
          answers := fun index task result answers =>
            later.answers index task result (Worker.answers_wake.mp answers)
          thrown := later.thrown }
  | dequeueResult result rest queue =>
      refine ⟨work, .refl _, { later with finished := ?_ }⟩
      have finished := later.finished
      rw [queue] at finished
      simpa using finished
  | take index task rest queue free =>
      have first : work.waiting = task :: rest := related.waiting.trans queue
      have noItem : work.held index = none := (congrFun related.held index).trans free
      refine ⟨_, .step (Workload.step_take noItem first) trivial, ?_⟩
      exact
        { submitted := later.submitted
          waiting := rfl
          held := later.held_update rfl
          finished := later.finished
          answers := later.answers_update fun _ _ answers => by cases answers.2
          thrown := later.thrown }
  | read index named point available =>
      have holds : (pool.workers index).held = some (pool.workers index).task := by
        rw [Worker.held, point]
        exact if_pos available
      refine ⟨work, .refl _, { later with held := ?_, answers := ?_ }⟩
      · rw [later.held, Pool.setWorker_workers, Function.comp_update]
        exact (Function.update_eq_self_iff.mpr holds.symm).symm
      · refine later.answers_update fun task result answers => ?_
        obtain ⟨rfl, same⟩ := answers
        obtain rfl := Point.queueing.inj same
        exact ⟨rfl, Machine.occurs_last run taken ⟨index, named, point, holds, rfl⟩⟩
  | queueResult index result point =>
      have answers : (pool.workers index).Answers (pool.workers index).task result := ⟨rfl, point⟩
      have holds : work.held index = some (pool.workers index).task :=
        (congrFun related.held index).trans answers.held
      refine ⟨_, .step (Workload.step_finish holds) trivial, ?_⟩
      exact
        { submitted := later.submitted
          waiting := later.waiting
          held := later.held_update rfl
          finished := by
            have delivers := later.answers index _ result answers
            show List.Forall₂ _ (work.finished ++ [(pool.workers index).task])
              (pool.dequeued ++ (pool.resultQueue ++ [result]))
            rw [← List.append_assoc]
            exact List.rel_append later.finished (.cons delivers .nil)
          answers := later.answers_update fun _ _ answers => by cases answers.2
          thrown := later.thrown }

/-- A pool in which nothing has happened. -/
theorem Related.start (files : List UInt8 → Content) :
    Related files [] (machine numThreads files).init
      (Workload.machine Task (Fin numThreads)).init :=
  { submitted := rfl
    waiting := rfl
    held := rfl
    finished := .nil
    answers := fun _ _ _ answers => by cases answers.2
    thrown := rfl }

/-- In every run each request queued so far is in the task queue, held by a worker, or
answered by one result, which carries its identifier and what was read from its path;
`dequeue_task` has thrown nothing. -/
theorem no_request_lost (run : (machine numThreads files).Run labels pool) :
    (∃ answered : List Task,
      (pool.queued : Multiset Task) = pool.taskQueue + pool.heldTasks + answered ∧
      List.Forall₂ (Delivers numThreads files labels) answered
        (pool.dequeued ++ pool.resultQueue)) ∧
    pool.thrown = [] := by
  rcases Machine.Run.simulate_along (Related.start files)
    (fun _ _ _ _ _ earlier _ related taken => related.step earlier taken) run with
    ⟨moves, work, workRun, _, related⟩
  have conserved := Workload.conserved_reachable ⟨moves, workRun⟩
  rw [Workload.Conserved, related.submitted, related.waiting, related.held] at conserved
  exact ⟨⟨work.finished, conserved, related.finished⟩, related.thrown⟩

end Account

/-- The file `a` holds one byte. -/
def oneFile (path : List UInt8) : Content := if path = [97] then some [10] else none

/-- Worker 0 waits and is woken by a broadcast, but worker 1 takes the task first and
answers it while the next one is queued. -/
def wokenLate : List (Label 2) :=
  [.work 0, .queueTask ⟨7, [97]⟩, .work 1, .work 0, .work 1, .queueTask ⟨8, [98]⟩, .work 1,
    .work 0, .dequeueResult, .work 0, .work 0]

/-- One request is answered, the other is with worker 0. -/
theorem no_request_lost_woken_late : ∃ pool, (machine 2 oneFile).Run wokenLate pool ∧
    pool.dequeued = [⟨7, some [10]⟩] ∧ pool.heldTasks = {⟨8, [98]⟩} ∧
    (∃ answered : List Task,
      (pool.queued : Multiset Task) = pool.taskQueue + pool.heldTasks + answered ∧
      List.Forall₂ (Delivers 2 oneFile wokenLate) answered (pool.dequeued ++ pool.resultQueue)) ∧
    pool.thrown = [] := by
  have enabled : ((machine 2 oneFile).runFrom (machine 2 oneFile).init wokenLate).isSome =
      true := by
    decide
  rcases Option.isSome_iff_exists.mp enabled with ⟨pool, run⟩
  have outcome : ((machine 2 oneFile).runFrom (machine 2 oneFile).init wokenLate).map
      (fun pool => (pool.dequeued, (pool.workers 0).held, (pool.workers 1).held)) =
        some ([⟨7, some [10]⟩], some ⟨8, [98]⟩, none) := by
    decide
  rw [run, Option.map_some, Option.some.injEq, Prod.mk.injEq, Prod.mk.injEq] at outcome
  rcases outcome with ⟨answered, first, second⟩
  refine ⟨pool, run, answered, ?_, no_request_lost run⟩
  simp [Pool.heldTasks, Workload.inHands, Fin.sum_univ_two, first, second]

end CSE550.WebServer.ThreadPool
