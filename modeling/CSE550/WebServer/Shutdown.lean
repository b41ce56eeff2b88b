import CSE550.WebServer.ThreadPool

/-!
Owns the shutdown of the thread pool: the sections of `destroy` between the sections
of the workers, and the states in which it joins a worker that nothing wakes up.

The thread that calls `destroy` is the one that queues tasks, takes results and
signals the task queue; no worker signals it.

Does not own the mutexes and condition variables after the last join.
-/

namespace CSE550.WebServer.ThreadPool

open CSE550.Lib

variable {numThreads : ℕ}

/-- Where the caller of `destroy` is. -/
inductive Stage where
  /-- It has not called `destroy`. -/
  | serving
  /-- `exit_signal` is set. -/
  | signalled
  /-- At the test of the join loop, then at `pthread_join`. -/
  | joining (index : ℕ)
  /-- Before the broadcast that follows the join. -/
  | joined (index : ℕ)
  | destroyed
deriving DecidableEq

/-- A pool with its caller. -/
structure Closing (numThreads : ℕ) where
  pool : Pool numThreads
  stage : Stage

/-- What happens next: something in the pool, or the next section of `destroy`. -/
inductive Action (numThreads : ℕ) where
  | inPool (label : Label numThreads)
  | destroy

/-- What can happen in the pool. The caller does nothing else once it is in
`destroy`, and only `destroy` sets `exit_signal`. -/
def Stage.permits (stage : Stage) : Label numThreads → Bool
  | .queueTask _ | .dequeueResult | .signalTaskQueue => stage = .serving
  | .signalExit => false
  | .wake _ | .work _ | .store _ _ => true

namespace Closing

variable (closing : Closing numThreads)

/-- The next section of `destroy`; the join waits for its thread to return. -/
def destroy : Option (Closing numThreads) :=
  match closing.stage with
  | .serving => some ⟨{ closing.pool with exitSignal := true }, .signalled⟩
  | .signalled => some ⟨closing.pool.signalTaskQueue, .joining 0⟩
  | .joining index =>
      if bound : index < numThreads then
        if (closing.pool.workers ⟨index, bound⟩).point = .returned then
          some { closing with stage := .joined index }
        else none
      else some { closing with stage := .destroyed }
  | .joined index => some ⟨closing.pool.signalTaskQueue, .joining (index + 1)⟩
  | .destroyed => none

/-- One step of the pool or of its caller. -/
def step : Action numThreads → Option (Closing numThreads)
  | .inPool label =>
      if closing.stage.permits label then
        (closing.pool.step label).map fun pool => { closing with pool := pool }
      else none
  | .destroy => if closing.pool.terminated then none else closing.destroy

end Closing

/-- A pool over a file system, from its start to its end. -/
def lifetime (numThreads : ℕ) (files : List UInt8 → Content) :
    Machine (Closing numThreads) (Action numThreads) where
  init := ⟨(machine numThreads files).init, .serving⟩
  step := Closing.step

/-- Not a wake-up without a signal. -/
def Action.Caused (action : Action numThreads) : Prop := ∀ index, action ≠ .inPool (.wake index)

/-- `destroy` joins a worker that waits, and nothing but a wake-up without a signal
will end its wait. -/
def Closing.Deadlocked (files : List UInt8 → Content) (closing : Closing numThreads) : Prop :=
  ∃ index : Fin numThreads, closing.stage = .joining index ∧
    ∀ final, (lifetime numThreads files).Leads Action.Caused closing final →
      (final.pool.workers index).point = .waiting

/-- A worker that is being joined looks for a task, finds none and goes to wait. -/
def Closing.LooksInVain (closing : Closing numThreads) (action : Action numThreads) : Prop :=
  ∃ index : Fin numThreads, closing.stage = .joining index ∧
    action = .inPool (.work index) ∧ (closing.pool.workers index).point = .looking ∧
    closing.pool.taskQueue = []

/-! ### Who waits -/

section Waiting

variable {pool next : Pool numThreads} {index other : Fin numThreads}

/-- The step of a worker that does not wait before it. -/
theorem Pool.setWorker_waiting {base : Pool numThreads} {worker : Worker} {looks : Prop}
    (workers : base.workers = pool.workers) (before : (pool.workers index).point ≠ .waiting)
    (after : worker.point = .waiting ↔ looks) :
    ((base.setWorker index worker).workers other).point = .waiting ↔
      (pool.workers other).point = .waiting ∨ (other = index ∧ looks) := by
  by_cases same : other = index
  · subst same
    simp [before, after]
  · simp [same, workers]

/-- A worker goes to wait when it looks for a task and the queue is empty. -/
theorem Pool.work_waiting (taken : pool.work index = some next) :
    (next.workers other).point = .waiting ↔ (pool.workers other).point = .waiting ∨
      (other = index ∧ (pool.workers index).point = .looking ∧ pool.taskQueue = []) := by
  unfold Pool.work at taken
  split at taken
  · rename_i point
    cases taken
    by_cases queue : pool.taskQueue = []
    · rw [Pool.takeTask_nil queue]
      exact setWorker_waiting rfl (by simp [point]) (iff_of_true rfl ⟨point, queue⟩)
    · rcases List.exists_cons_of_ne_nil queue with ⟨task, rest, first⟩
      rw [Pool.takeTask_cons first]
      exact setWorker_waiting rfl (by simp [point]) (by simp [queue])
  · rename_i point
    cases taken
    by_cases queue : pool.taskQueue = []
    · rw [Pool.resume_nil queue]
      exact setWorker_waiting rfl (by simp [point]) (by simp [point])
    · rcases List.exists_cons_of_ne_nil queue with ⟨task, rest, first⟩
      rw [Pool.resume_cons first]
      exact setWorker_waiting rfl (by simp [point]) (by simp [point])
  · rename_i point
    cases taken
    unfold Pool.handle
    dsimp only
    split
    · exact setWorker_waiting rfl (by simp [point]) (by simp [point])
    · exact setWorker_waiting rfl (by simp [point]) (by simp [point])
  · rename_i result point
    cases taken
    exact setWorker_waiting rfl (by simp [point]) (by simp [point])
  · rename_i point
    cases taken
    refine setWorker_waiting rfl (by simp [point]) ?_
    cases (if pool.exitSignal then true else (pool.workers index).done)
    · simp [point]
    · simp [point]
  · cases taken
  · cases taken

/-- After a broadcast nobody waits. -/
theorem Pool.signalTaskQueue_point (pool : Pool numThreads) (index : Fin numThreads) :
    (pool.signalTaskQueue.workers index).point ≠ .waiting := by
  show (pool.workers index).wake.point ≠ .waiting
  unfold Worker.wake
  dsimp only
  split
  · simp
  · assumption

/-- What the pool can do to a worker while its caller is in `destroy`. -/
theorem Pool.step_waiting {stage : Stage} {label : Label numThreads} (inDestroy : stage ≠ .serving)
    (permitted : stage.permits label = true) (taken : pool.step label = some next) :
    (next.workers other).point = .waiting ↔
      ((pool.workers other).point = .waiting ∧ label ≠ .wake other) ∨
        (label = .work other ∧ (pool.workers other).point = .looking ∧ pool.taskQueue = []) := by
  unfold Pool.step at taken
  split at taken
  · cases taken
  · cases label with
    | queueTask task => simp [Stage.permits, inDestroy] at permitted
    | dequeueResult => simp [Stage.permits, inDestroy] at permitted
    | signalTaskQueue => simp [Stage.permits, inDestroy] at permitted
    | signalExit => simp [Stage.permits] at permitted
    | store path content =>
        cases taken
        simp
    | wake index =>
        simp only [Option.ite_none_right_eq_some, Option.some.injEq] at taken
        rcases taken with ⟨point, rfl⟩
        by_cases same : other = index
        · subst same
          simp [Worker.wake, point]
        · simp [same, Ne.symm same]
    | work index =>
        rw [Pool.work_waiting taken]
        by_cases same : other = index
        · subst same
          simp
        · simp [same, Ne.symm same]

end Waiting

/-! ### When the join hangs -/

section Joining

variable {files : List UInt8 → Content} {closing next : Closing numThreads}
  {action : Action numThreads}

theorem Closing.step_inPool {label : Label numThreads} :
    closing.step (.inPool label) = some next ↔ closing.stage.permits label = true ∧
      ∃ pool, closing.pool.step label = some pool ∧ next = { closing with pool := pool } := by
  simp only [Closing.step, Option.ite_none_right_eq_some, Option.map_eq_some_iff,
    @eq_comm _ next]

/-- `destroy` joins a worker that waits. -/
def Closing.JoinsWaiting (closing : Closing numThreads) : Prop :=
  ∃ index : Fin numThreads, closing.stage = .joining index ∧
    (closing.pool.workers index).point = .waiting

/-- A worker that waits while it is joined is not woken up any more. -/
theorem Closing.deadlocked_iff : closing.Deadlocked files ↔ closing.JoinsWaiting := by
  constructor
  · rintro ⟨index, stage, waits⟩
    exact ⟨index, stage, waits closing (.refl closing)⟩
  · rintro ⟨index, stage, point⟩
    refine ⟨index, stage, fun final leads => ?_⟩
    have kept : final.stage = .joining index ∧ (final.pool.workers index).point = .waiting := by
      refine @Machine.Leads.keeps _ _ _ _ _ _ (fun closing : Closing numThreads =>
        closing.stage = .joining index ∧ (closing.pool.workers index).point = .waiting)
        leads ⟨stage, point⟩ ?_
      rintro before action after caused ⟨stage, point⟩ taken
      cases action with
      | inPool label =>
          rcases Closing.step_inPool.mp taken with ⟨permitted, pool, step, rfl⟩
          refine ⟨stage, (Pool.step_waiting (by simp [stage]) permitted step).mpr (.inl ?_)⟩
          exact ⟨point, fun wakes => caused index (congrArg _ wakes)⟩
      | destroy =>
          -- the join has to wait for the thread to return
          have blocked : before.destroy = none := by simp [Closing.destroy, stage, point]
          have ends : (if before.pool.terminated then none else before.destroy) = some after :=
            taken
          simp [blocked] at ends
    exact kept.2

/-- `destroy` broadcasts before every join, so it comes to join a worker that waits
only when this worker goes to wait during the join. -/
theorem Closing.joinsWaiting_step (before : ¬ closing.JoinsWaiting)
    (taken : closing.step action = some next) : next.JoinsWaiting ↔ closing.LooksInVain action := by
  cases action with
  | inPool label =>
      rcases Closing.step_inPool.mp taken with ⟨permitted, pool, step, rfl⟩
      have waiting : ∀ index : Fin numThreads, closing.stage = .joining index →
          ((pool.workers index).point = .waiting ↔ label = .work index ∧
            (closing.pool.workers index).point = .looking ∧ closing.pool.taskQueue = []) := by
        intro index stage
        rw [Pool.step_waiting (by simp [stage]) permitted step]
        exact or_iff_right fun waits => before ⟨index, stage, waits.1⟩
      simp only [Closing.JoinsWaiting, Closing.LooksInVain, Action.inPool.injEq]
      exact exists_congr fun index => and_congr_right (waiting index)
  | destroy =>
      refine iff_of_false ?_ fun vain => by simp [Closing.LooksInVain] at vain
      rintro ⟨index, stage, point⟩
      simp only [Closing.step, Option.ite_none_left_eq_some, Closing.destroy] at taken
      rcases taken with ⟨_, taken⟩
      split at taken
      · cases taken
        cases stage
      · cases taken
        exact Pool.signalTaskQueue_point closing.pool index point
      · split at taken
        · simp only [Option.ite_none_right_eq_some, Option.some.injEq] at taken
          rcases taken with ⟨_, rfl⟩
          cases stage
        · cases taken
          cases stage
      · cases taken
        exact Pool.signalTaskQueue_point closing.pool index point
      · cases taken

/-- A run comes to a deadlock exactly when in some step of it a worker that is being
joined finds the task queue empty before it waits. -/
theorem shutdown_deadlock_free_iff {actions : List (Action numThreads)} {state : Closing numThreads}
    (run : (lifetime numThreads files).Run actions state) :
    (lifetime numThreads files).Throughout (fun closing => ¬ closing.Deadlocked files) actions ↔
      (lifetime numThreads files).Meets (fun closing action => ¬ closing.LooksInVain action)
        (lifetime numThreads files).init actions := by
  refine run.throughout_iff_meets ?_ ?_
  · rw [Closing.deadlocked_iff]
    rintro ⟨index, stage, _⟩
    cases stage
  · intro closing action next _ before taken
    rw [Closing.deadlocked_iff] at before ⊢
    exact not_congr (Closing.joinsWaiting_step before taken)

end Joining

/-- The worker waits when `destroy` is called: it is woken up, returns and is joined. -/
def waitingWorker : List (Action 1) :=
  [.inPool (.work 0), .destroy, .destroy, .inPool (.work 0), .inPool (.work 0),
    .inPool (.work 0), .destroy, .destroy, .destroy]

theorem shutdown_deadlock_free_iff_waiting : ∃ closing,
    (lifetime 1 fun _ => none).Run waitingWorker closing ∧ closing.stage = .destroyed ∧
    ((lifetime 1 fun _ => none).Throughout
        (fun closing => ¬ closing.Deadlocked fun _ => none) waitingWorker ↔
      (lifetime 1 fun _ => none).Meets (fun closing action => ¬ closing.LooksInVain action)
        (lifetime 1 fun _ => none).init waitingWorker) := by
  have enabled : ((lifetime 1 fun _ => none).runFrom (lifetime 1 fun _ => none).init
      waitingWorker).map Closing.stage = some .destroyed := by
    decide
  rcases Option.map_eq_some_iff.mp enabled with ⟨closing, run, stage⟩
  exact ⟨closing, run, stage, shutdown_deadlock_free_iff run⟩

/-- The worker has not run when `destroy` is called, and looks for a task after the
broadcast. -/
def lateWorker : List (Action 1) := [.destroy, .destroy, .inPool (.work 0)]

theorem late_worker_hangs : ∃ closing, (lifetime 1 fun _ => none).Run lateWorker closing ∧
    closing.Deadlocked fun _ => none := by
  refine ⟨_, rfl, ?_⟩
  rw [Closing.deadlocked_iff]
  exact ⟨0, rfl, rfl⟩

/-- Every pool that has a worker can come to a deadlock. -/
theorem shutdown_safe_iff_no_worker (numThreads : ℕ) (files : List UInt8 → Content) :
    (∀ closing, (lifetime numThreads files).Reachable closing → ¬ closing.Deadlocked files) ↔
      numThreads = 0 := by
  constructor
  · intro safe
    by_contra positive
    let first : Fin numThreads := ⟨0, Nat.pos_of_ne_zero positive⟩
    let actions : List (Action numThreads) := [.destroy, .destroy, .inPool (.work first)]
    refine safe _ ⟨actions, rfl⟩ ?_
    rw [Closing.deadlocked_iff]
    refine ⟨first, rfl, ?_⟩
    simp [Pool.takeTask, Worker.fetch_eq, Pool.signalTaskQueue, lifetime, machine]
  · rintro rfl closing _ ⟨index, _⟩
    exact index.elim0

end CSE550.WebServer.ThreadPool
