import Mathlib.Data.Nat.Find
import Mathlib.Order.Basic

/-!
Owns walks in a directed graph by their number of edges, and the length of a
shortest walk.

Does not own any way to find one.
-/

namespace CSE550.Lib

variable {Vertex : Type} {edge : Vertex → Vertex → Prop} {source target : Vertex}

/-- A walk of a number of edges; vertices and edges may repeat. -/
inductive Walk (edge : Vertex → Vertex → Prop) (source : Vertex) : Vertex → ℕ → Prop
  | stay : Walk edge source source 0
  | step {middle target : Vertex} {length : ℕ} (walk : Walk edge source middle length)
      (last : edge middle target) : Walk edge source target (length + 1)

/-- Some walk leads to the target. -/
def Reaches (edge : Vertex → Vertex → Prop) (source target : Vertex) : Prop :=
  ∃ length, Walk edge source target length

/-- The number of edges of a shortest walk. -/
structure Shortest (edge : Vertex → Vertex → Prop) (source target : Vertex) (length : ℕ) :
    Prop where
  walk : Walk edge source target length
  least : ∀ other, Walk edge source target other → length ≤ other

theorem Walk.succ_iff {length : ℕ} : Walk edge source target (length + 1) ↔
    ∃ middle, Walk edge source middle length ∧ edge middle target := by
  constructor
  · intro walk
    cases walk with
    | step walk last => exact ⟨_, walk, last⟩
  · rintro ⟨middle, walk, last⟩
    exact .step walk last

theorem Walk.zero_iff : Walk edge source target 0 ↔ source = target := by
  constructor
  · intro walk
    cases walk with
    | stay => rfl
  · rintro rfl
    exact .stay

theorem Reaches.exists_shortest (reaches : Reaches edge source target) :
    ∃ length, Shortest edge source target length := by
  classical
  exact ⟨Nat.find reaches, Nat.find_spec reaches, fun _ walk => Nat.find_min' reaches walk⟩

theorem Shortest.reaches {length : ℕ} (shortest : Shortest edge source target length) :
    Reaches edge source target :=
  ⟨length, shortest.walk⟩

theorem Shortest.unique {length other : ℕ} (left : Shortest edge source target length)
    (right : Shortest edge source target other) : length = other :=
  le_antisymm (left.least other right.walk) (right.least length left.walk)

theorem shortest_self (source : Vertex) : Shortest edge source source 0 :=
  ⟨.stay, fun _ _ => Nat.zero_le _⟩

/-- A shortest walk without its last edge is a shortest walk. -/
theorem Shortest.init {length : ℕ} (shortest : Shortest edge source target (length + 1)) :
    ∃ middle, Shortest edge source middle length ∧ edge middle target := by
  rcases Walk.succ_iff.mp shortest.walk with ⟨middle, walk, last⟩
  refine ⟨middle, ⟨walk, fun other shorter => ?_⟩, last⟩
  have bound := shortest.least (other + 1) (.step shorter last)
  omega

/-- A shortest walk passes a vertex at every smaller distance. -/
theorem Shortest.exists_at {length : ℕ} (shortest : Shortest edge source target length)
    {distance : ℕ} (within : distance ≤ length) :
    ∃ middle, Shortest edge source middle distance := by
  induction length generalizing target with
  | zero =>
      obtain rfl : distance = 0 := by omega
      exact ⟨target, shortest⟩
  | succ length inductionHypothesis =>
      by_cases whole : distance = length + 1
      · subst whole
        exact ⟨target, shortest⟩
      · rcases shortest.init with ⟨middle, earlier, _⟩
        exact inductionHypothesis earlier (by omega)

end CSE550.Lib
