import Mathlib.Data.Finset.Card

/-!
Owns counting of voters: "at least `count` of the voters satisfy a property",
the way such a count grows by one fresh voter at a time, and the intersection
of two majorities.

The voters are an arbitrary finite set; nothing here names a program.
-/

namespace CSE550.Lib

variable {Voter : Type}

/-- At least `count` of the voters satisfy `property`. -/
def AtLeast (voters : Finset Voter) (count : ℕ) (property : Voter → Prop) : Prop :=
  ∃ chosen ⊆ voters, count ≤ chosen.card ∧ ∀ voter ∈ chosen, property voter

/-- More than half of the voters satisfy `property`. -/
def Majority (voters : Finset Voter) (property : Voter → Prop) : Prop :=
  AtLeast voters (voters.card / 2 + 1) property

namespace AtLeast

variable {voters : Finset Voter} {count : ℕ} {property wider : Voter → Prop}

theorem zero : AtLeast voters 0 property := ⟨∅, by simp, by simp, by simp⟩

theorem mono (counted : AtLeast voters count property)
    (implies : ∀ voter ∈ voters, property voter → wider voter) : AtLeast voters count wider := by
  obtain ⟨chosen, inside, enough, all⟩ := counted
  exact ⟨chosen, inside, enough, fun voter member =>
    implies voter (inside member) (all voter member)⟩

theorem fewer {less : ℕ} (counted : AtLeast voters count property) (le : less ≤ count) :
    AtLeast voters less property := by
  obtain ⟨chosen, inside, enough, all⟩ := counted
  exact ⟨chosen, inside, le.trans enough, all⟩

/-- A voter that did not satisfy the old property raises the count by one. -/
theorem succ [DecidableEq Voter] (counted : AtLeast voters count property)
    (implies : ∀ voter ∈ voters, property voter → wider voter) {fresh : Voter}
    (isVoter : fresh ∈ voters) (new : wider fresh) (notOld : ¬ property fresh) :
    AtLeast voters (count + 1) wider := by
  obtain ⟨chosen, inside, enough, all⟩ := counted
  have outside : fresh ∉ chosen := fun member => notOld (all fresh member)
  refine ⟨insert fresh chosen, Finset.insert_subset isVoter inside, ?_, ?_⟩
  · rw [Finset.card_insert_of_notMem outside]
    exact Nat.succ_le_succ enough
  · intro voter member
    rcases Finset.mem_insert.mp member with same | old
    · exact same ▸ new
    · exact implies voter (inside old) (all voter old)

/-- Two counts that together exceed the number of voters share a voter. -/
theorem intersect [DecidableEq Voter] {other : ℕ} {second : Voter → Prop}
    (left : AtLeast voters count property) (right : AtLeast voters other second)
    (exceed : voters.card < count + other) :
    ∃ voter ∈ voters, property voter ∧ second voter := by
  obtain ⟨chosen, inside, enough, all⟩ := left
  obtain ⟨picked, pickedInside, pickedEnough, pickedAll⟩ := right
  have union : (chosen ∪ picked).card ≤ voters.card :=
    Finset.card_le_card (Finset.union_subset inside pickedInside)
  have sum := Finset.card_union_add_card_inter chosen picked
  have positive : 0 < (chosen ∩ picked).card := by omega
  obtain ⟨voter, member⟩ := Finset.card_pos.mp positive
  obtain ⟨inChosen, inPicked⟩ := Finset.mem_inter.mp member
  exact ⟨voter, inside inChosen, all voter inChosen, pickedAll voter inPicked⟩

end AtLeast

/-- Two majorities share a voter. -/
theorem Majority.intersect [DecidableEq Voter] {voters : Finset Voter}
    {first second : Voter → Prop} (left : Majority voters first)
    (right : Majority voters second) : ∃ voter ∈ voters, first voter ∧ second voter :=
  AtLeast.intersect left right (by omega)

end CSE550.Lib
