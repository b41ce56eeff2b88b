import CSE550.Lib.Machine
import Mathlib.Algebra.BigOperators.Group.Finset.Basic
import Mathlib.Data.Fintype.Basic
import Mathlib.Tactic.Abel

/-!
Owns work that is shared among workers: items are submitted, taken by a worker that
has none, and finished by the worker that took them. No item is lost on the way and
none is made up.

Nothing here names a program. A program with queues and threads is tied to this
machine by a simulation.
-/

namespace CSE550.Lib

/-- Items on their way through a set of workers. -/
structure Workload (Item Worker : Type) where
  submitted : List Item
  waiting : List Item
  held : Worker → Option Item
  finished : List Item

namespace Workload

variable {Item Worker : Type}

inductive Move (Item Worker : Type) where
  | submit (item : Item)
  | take (worker : Worker)
  | finish (worker : Worker)

variable [DecidableEq Worker]

/-- One move; undefined when the worker has an item to take, or none to finish. -/
def step (work : Workload Item Worker) : Move Item Worker → Option (Workload Item Worker)
  | .submit item =>
      some { work with
        submitted := work.submitted ++ [item]
        waiting := work.waiting ++ [item] }
  | .take worker =>
      match work.held worker, work.waiting with
      | none, item :: rest =>
          some { work with
            waiting := rest
            held := Function.update work.held worker (some item) }
      | _, _ => none
  | .finish worker =>
      match work.held worker with
      | some item =>
          some { work with
            held := Function.update work.held worker none
            finished := work.finished ++ [item] }
      | none => none

variable (Item Worker) in
/-- Workers that start with nothing to do. -/
def machine : Machine (Workload Item Worker) (Move Item Worker) where
  init := ⟨[], [], fun _ => none, []⟩
  step := step

theorem step_submit (work : Workload Item Worker) (item : Item) :
    (machine Item Worker).step work (.submit item) = some { work with
      submitted := work.submitted ++ [item]
      waiting := work.waiting ++ [item] } := rfl

theorem step_take {work : Workload Item Worker} {worker : Worker} {item : Item}
    {rest : List Item} (free : work.held worker = none) (first : work.waiting = item :: rest) :
    (machine Item Worker).step work (.take worker) = some { work with
      waiting := rest
      held := Function.update work.held worker (some item) } := by
  simp only [machine, step, free, first]

theorem step_finish {work : Workload Item Worker} {worker : Worker} {item : Item}
    (holds : work.held worker = some item) :
    (machine Item Worker).step work (.finish worker) = some { work with
      held := Function.update work.held worker none
      finished := work.finished ++ [item] } := by
  simp only [machine, step, holds]

section Conservation

variable [Fintype Worker]

/-- The items some worker holds. -/
def inHands (held : Worker → Option Item) : Multiset Item :=
  ∑ worker, ((held worker).toList : Multiset Item)

/-- Every submitted item waits, is held or is finished. -/
def Conserved (work : Workload Item Worker) : Prop :=
  (work.submitted : Multiset Item) = work.waiting + inHands work.held + work.finished

/-- What one worker gives and takes is the difference in all hands. -/
theorem inHands_update (held : Worker → Option Item) (worker : Worker) (now : Option Item) :
    inHands (Function.update held worker now) + ((held worker).toList : Multiset Item) =
      inHands held + (now.toList : Multiset Item) := by
  have others : ∑ other ∈ Finset.univ.erase worker,
      ((Function.update held worker now other).toList : Multiset Item) =
        ∑ other ∈ Finset.univ.erase worker, ((held other).toList : Multiset Item) := by
    refine Finset.sum_congr rfl fun other member => ?_
    rw [Function.update_of_ne (Finset.ne_of_mem_erase member)]
  unfold inHands
  rw [← Finset.sum_erase_add _ _ (Finset.mem_univ worker),
    ← Finset.sum_erase_add _ (fun other => ((held other).toList : Multiset Item))
      (Finset.mem_univ worker), others, Function.update_self, add_right_comm]

/-- A move keeps the account. -/
theorem Conserved.step {work next : Workload Item Worker} {move : Move Item Worker}
    (conserved : work.Conserved) (taken : work.step move = some next) : next.Conserved := by
  unfold Conserved at conserved ⊢
  cases move with
  | submit item =>
      cases taken
      show ((work.submitted ++ [item] : List Item) : Multiset Item) =
        (work.waiting ++ [item] : List Item) + inHands work.held + work.finished
      rw [← Multiset.coe_add, conserved, ← Multiset.coe_add]
      abel
  | take worker =>
      simp only [Workload.step] at taken
      split at taken
      · rename_i item rest free first
        cases taken
        have hands := inHands_update work.held worker (some item)
        rw [free, Option.toList_none, Multiset.coe_nil, add_zero] at hands
        show (work.submitted : Multiset Item) =
          rest + inHands (Function.update work.held worker (some item)) + work.finished
        rw [conserved, first, hands, ← Multiset.cons_coe, ← Multiset.singleton_add,
          Option.toList_some, Multiset.coe_singleton]
        abel
      · cases taken
  | finish worker =>
      simp only [Workload.step] at taken
      split at taken
      · rename_i item holds
        cases taken
        have hands := inHands_update work.held worker none
        rw [holds, Option.toList_none, Multiset.coe_nil, add_zero] at hands
        show (work.submitted : Multiset Item) = work.waiting +
          inHands (Function.update work.held worker none) + (work.finished ++ [item] : List Item)
        rw [conserved, ← hands, ← Multiset.coe_add, Option.toList_some]
        abel
      · cases taken

/-- In every reachable state no item is lost and none is made up. -/
theorem conserved_reachable {work : Workload Item Worker}
    (reached : (machine Item Worker).Reachable work) : work.Conserved := by
  apply reached.invariant
  · simp [Conserved, machine, inHands]
  · intro state move next _ conserved taken
    exact conserved.step taken

end Conservation

end Workload

end CSE550.Lib
