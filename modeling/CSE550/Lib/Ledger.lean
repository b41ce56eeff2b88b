import CSE550.Lib.Lists
import CSE550.Lib.Machine
import Mathlib.Logic.Function.Basic
import Mathlib.Data.Option.Basic

/-!
Owns the replicated service as an abstract machine: one log that only grows at
its end, and replicas that apply its entries in order. A replica appends an
entry only when it has applied the whole log and its state admits the entry.

The entries, the states and the service are arbitrary. How replicas come to
agree on the log is not said here.
-/

namespace CSE550.Lib

/-- A deterministic service: its initial state, the effect of an entry
(undefined where the entry cannot be applied), and the entries a state admits. -/
structure Service (State Entry : Type) where
  init : State
  apply : State → Entry → Option State
  admits : State → Entry → Prop

namespace Service

variable {State Entry : Type} (service : Service State Entry)

/-- The state after a log, if all of it can be applied. -/
def replay (log : List Entry) : Option State := log.foldlM service.apply service.init

@[simp] theorem replay_concat (log : List Entry) (entry : Entry) :
    service.replay (log ++ [entry]) =
      (service.replay log).bind fun state => service.apply state entry := by
  simp [replay, List.foldlM_append]

variable {service}

/-- A log that cannot be applied has no extension that can. -/
theorem replay_append_of_none {log : List Entry} (fails : service.replay log = none)
    (more : List Entry) : service.replay (log ++ more) = none := by
  induction more using List.reverseRecOn with
  | nil => rwa [List.append_nil]
  | append_singleton more entry inductionHypothesis =>
      rw [← List.append_assoc, replay_concat, inductionHypothesis, Option.bind_none]

theorem replay_take_succ {log : List Entry} {position : ℕ} {entry : Entry} {state : State}
    (found : log[position]? = some entry)
    (before : service.replay (log.take position) = some state) :
    service.replay (log.take (position + 1)) = service.apply state entry := by
  rw [List.take_add_one, found, Option.toList_some, replay_concat, before, Option.bind_some]

end Service

/-- The log, and how many of its entries each replica has applied. -/
structure Ledger (Entry : Type) where
  log : List Entry
  position : ℕ → ℕ

namespace Ledger

variable {State Entry : Type} (service : Service State Entry)

inductive Action (Entry : Type) where
  /-- A replica that has applied the whole log appends an entry. -/
  | append (replica : ℕ) (entry : Entry)
  /-- A replica applies its next entry. -/
  | apply (replica : ℕ)

/-- The state of the replica admits the entry. -/
def Admitted (log : List Entry) (entry : Entry) : Prop :=
  ∃ state, service.replay log = some state ∧ service.admits state entry

open Classical in
/-- The replicated service as a machine. -/
noncomputable def machine : Machine (Ledger Entry) (Action Entry) where
  init := ⟨[], fun _ => 0⟩
  step
    | ledger, .append replica entry =>
        if ledger.position replica = ledger.log.length ∧ Admitted service ledger.log entry then
          some { ledger with log := ledger.log ++ [entry] }
        else none
    | ledger, .apply replica =>
        if ledger.position replica < ledger.log.length ∧
            (service.replay (ledger.log.take (ledger.position replica + 1))).isSome = true then
          some { ledger with
            position :=
              Function.update ledger.position replica (ledger.position replica + 1) }
        else none

variable {service}

theorem append_step {ledger : Ledger Entry} {replica : ℕ} {entry : Entry}
    (caughtUp : ledger.position replica = ledger.log.length)
    (admitted : Admitted service ledger.log entry) :
    (machine service).step ledger (.append replica entry) =
      some { ledger with log := ledger.log ++ [entry] } :=
  if_pos ⟨caughtUp, admitted⟩

theorem apply_step {ledger : Ledger Entry} {replica : ℕ}
    (behind : ledger.position replica < ledger.log.length)
    (applied : (service.replay (ledger.log.take (ledger.position replica + 1))).isSome = true) :
    (machine service).step ledger (.apply replica) = some { ledger with
      position := Function.update ledger.position replica (ledger.position replica + 1) } :=
  if_pos ⟨behind, applied⟩

/-- What holds of every ledger the machine reaches. -/
structure Sound (service : Service State Entry) (ledger : Ledger Entry) : Prop where
  bounded : ∀ replica, ledger.position replica ≤ ledger.log.length
  applied : ∀ replica,
    (service.replay (ledger.log.take (ledger.position replica))).isSome = true
  admitted : ∀ index entry, ledger.log[index]? = some entry →
    Admitted service (ledger.log.take index) entry

theorem Sound.append {ledger : Ledger Entry} (sound : Sound service ledger) {entry : Entry}
    (admitted : Admitted service ledger.log entry) :
    Sound service { ledger with log := ledger.log ++ [entry] } where
  bounded := fun replica => by
    simpa using Nat.le_trans (sound.bounded replica) (Nat.le_succ _)
  applied := fun replica => by
    rw [List.take_append_of_le_length (sound.bounded replica)]
    exact sound.applied replica
  admitted := by
    intro index other found
    rcases getElem?_concat_cases found with ⟨inside, old⟩ | ⟨rfl, rfl⟩
    · rw [List.take_append_of_le_length (Nat.le_of_lt inside)]
      exact sound.admitted index other old
    · simpa using admitted

theorem Sound.apply {ledger : Ledger Entry} (sound : Sound service ledger) {replica : ℕ}
    (behind : ledger.position replica < ledger.log.length)
    (applied : (service.replay (ledger.log.take (ledger.position replica + 1))).isSome = true) :
    Sound service { ledger with
      position := Function.update ledger.position replica (ledger.position replica + 1) } where
  bounded := by
    intro other
    by_cases same : other = replica
    · subst same
      simpa using Nat.succ_le_of_lt behind
    · simpa [same] using sound.bounded other
  applied := by
    intro other
    by_cases same : other = replica
    · subst same
      simpa using applied
    · simpa [same] using sound.applied other
  admitted := sound.admitted

theorem sound_reachable {ledger : Ledger Entry}
    (reached : (machine service).Reachable ledger) : Sound service ledger := by
  refine reached.invariant ?_ ?_
  · exact ⟨fun _ => Nat.le_refl 0, fun _ => rfl, by simp [machine]⟩
  · intro state action next _ sound taken
    cases action with
    | append replica entry =>
        simp only [machine, Option.ite_none_right_eq_some, Option.some.injEq] at taken
        obtain ⟨⟨_, admitted⟩, rfl⟩ := taken
        exact sound.append admitted
    | apply replica =>
        simp only [machine, Option.ite_none_right_eq_some, Option.some.injEq] at taken
        obtain ⟨⟨behind, applied⟩, rfl⟩ := taken
        exact sound.apply behind applied

end Ledger

end CSE550.Lib
