import Mathlib.Data.Set.Finite.Lemmas

/-!
Owns owners that wait for resources of each other: sets of owners each of which waits for
another one, and the ranks of resources that rule them out.

What an owner holds and what it wants are arbitrary relations.
-/

namespace CSE550.Lib

variable {Owner Resource Rank : Type} {holds wants : Owner → Resource → Prop}
  {owners : Set Owner}

/-- The owner wants a resource that another one of the owners holds. -/
def WaitsIn (holds wants : Owner → Resource → Prop) (owners : Set Owner) (owner : Owner) : Prop :=
  ∃ resource, wants owner resource ∧ ∃ other ∈ owners, other ≠ owner ∧ holds other resource

/-- Some owners, each of which waits for another one of them. -/
structure Deadlocked (holds wants : Owner → Resource → Prop) (owners : Set Owner) : Prop where
  nonempty : owners.Nonempty
  waits : ∀ owner ∈ owners, WaitsIn holds wants owners owner

/-- Where owners want only what ranks above all they hold, none of finitely many waits for
another one: the one that wants the highest rank would have to hold more. -/
theorem not_deadlocked_of_rank [LinearOrder Rank] (rank : Resource → Rank) (finite : owners.Finite)
    (above : ∀ owner ∈ owners, ∀ wanted held, wants owner wanted → holds owner held →
      rank held < rank wanted) : ¬ Deadlocked holds wants owners := by
  intro deadlocked
  obtain ⟨start, isStart⟩ := deadlocked.nonempty
  obtain ⟨something, _⟩ := deadlocked.waits start isStart
  have : Nonempty Resource := ⟨something⟩
  have : Nonempty Owner := ⟨start⟩
  choose! wanted isWanted holder inside _ isHeld using deadlocked.waits
  obtain ⟨highest, member, isHighest⟩ :=
    Set.exists_max_image owners (fun owner => rank (wanted owner)) finite deadlocked.nonempty
  have next := inside highest member
  have higher := above (holder highest) next (wanted (holder highest)) (wanted highest)
    (isWanted _ next) (isHeld highest member)
  exact absurd (isHighest _ next) (not_le.mpr higher)

/-- One of finitely many owners waits for none of them. -/
theorem exists_not_waitsIn [LinearOrder Rank] (rank : Resource → Rank) (finite : owners.Finite)
    (nonempty : owners.Nonempty)
    (above : ∀ owner ∈ owners, ∀ wanted held, wants owner wanted → holds owner held →
      rank held < rank wanted) : ∃ owner ∈ owners, ¬ WaitsIn holds wants owners owner := by
  by_contra all
  push Not at all
  exact not_deadlocked_of_rank rank finite above ⟨nonempty, all⟩

end CSE550.Lib
