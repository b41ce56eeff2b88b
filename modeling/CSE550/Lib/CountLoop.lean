import Mathlib.Data.Nat.Find
import Mathlib.Order.Basic

/-!
Owns the loop that runs until a count no longer changes: with counts that never
fall and stay under a bound it ends, after the first round that leaves the count
as it was.

Does not own what the rounds compute.
-/

namespace CSE550.Lib

variable {State : Type}

/-- `while old_count != new_count`, each round followed by a new count; `none` when
the fuel does not suffice. -/
def countLoop (body : ℕ → State → State) (count : State → ℕ) :
    ℕ → ℕ → ℕ → ℕ → State → Option State
  | 0, _, _, _, _ => none
  | fuel + 1, round, oldCount, newCount, state =>
      if oldCount = newCount then some state
      else
        countLoop body count fuel (round + 1) newCount (count (body round state))
          (body round state)

/-- The state after a number of rounds. -/
def afterRounds (body : ℕ → State → State) (start : State) : ℕ → State
  | 0 => start
  | round + 1 => body round (afterRounds body start round)

/-- `old_count` at the test before a round. -/
def oldCount (body : ℕ → State → State) (count : State → ℕ) (start : State) : ℕ → ℕ
  | 0 => 0
  | round + 1 => count (afterRounds body start round)

/-- Numbers that never fall and stay under a bound repeat. -/
theorem exists_repeat {numbers : ℕ → ℕ} {bound : ℕ}
    (monotone : ∀ index, numbers index ≤ numbers (index + 1))
    (bounded : ∀ index, numbers index ≤ bound) :
    ∃ index, numbers index = numbers (index + 1) := by
  by_contra none
  rw [not_exists] at none
  have grows : ∀ index, index ≤ numbers index := by
    intro index
    induction index with
    | zero => exact Nat.zero_le _
    | succ index inductionHypothesis =>
        have step := monotone index
        have change := none index
        omega
  have above := grows (bound + 1)
  have below := bounded (bound + 1)
  omega

variable {body : ℕ → State → State} {count : State → ℕ} {start : State}

/-- The loop stops at the first test that finds the counts equal. -/
theorem countLoop_eq {last : ℕ}
    (stable : oldCount body count start last = count (afterRounds body start last))
    (before : ∀ round < last,
      oldCount body count start round ≠ count (afterRounds body start round))
    {round fuel : ℕ} (reached : round ≤ last) (enough : last - round < fuel) :
    countLoop body count fuel round (oldCount body count start round)
        (count (afterRounds body start round)) (afterRounds body start round) =
      some (afterRounds body start last) := by
  induction fuel generalizing round with
  | zero => exact absurd enough (Nat.not_lt_zero _)
  | succ fuel inductionHypothesis =>
      rw [countLoop]
      by_cases done : round = last
      · subst done
        rw [if_pos stable]
      · have earlier : round < last := by omega
        rw [if_neg (before round earlier)]
        exact @inductionHypothesis (round + 1) (by omega) (by omega)

/-- With counts that never fall and are bounded, the loop ends. -/
theorem countLoop_ends {bound : ℕ}
    (monotone : ∀ round,
      count (afterRounds body start round) ≤ count (afterRounds body start (round + 1)))
    (bounded : ∀ round, count (afterRounds body start round) ≤ bound) :
    ∃ last, oldCount body count start last = count (afterRounds body start last) ∧
      ∀ fuel, last < fuel →
        countLoop body count fuel 0 0 (count start) start = some (afterRounds body start last) := by
  classical
  have repeats : ∃ round, oldCount body count start round =
      count (afterRounds body start round) := by
    apply @exists_repeat (oldCount body count start) bound
    · intro round
      cases round with
      | zero => exact Nat.zero_le _
      | succ round => exact monotone round
    · intro round
      cases round with
      | zero => exact Nat.zero_le _
      | succ round => exact bounded round
  refine ⟨Nat.find repeats, Nat.find_spec repeats, fun fuel enough => ?_⟩
  exact @countLoop_eq _ body count start _ (Nat.find_spec repeats)
    (fun round earlier => Nat.find_min repeats earlier) 0 fuel (Nat.zero_le _) enough

end CSE550.Lib
