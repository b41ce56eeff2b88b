import CSE550.Citations.Distances
import Mathlib.Data.Prod.Lex

/-!
Owns the second part of both jobs: from the distance rows and the papers to the
lowest common ancestors, as the two files have it line for line.

The jobs hand it rows of different shape, and nothing checks the shape before a
row meets a paper with an equal key. So the rows are values of the scripting
language here.
-/

namespace CSE550.Citations

open CSE550.Lib CSE550.Lib.Rdd

/-- A value in a row: an integer or a tuple, never equal to each other. -/
inductive Value where
  | int (number : ℕ)
  | pair (first second : Value)
deriving DecidableEq

/-- An ancestor in the output: the paper, the larger distance and the year. -/
abbrev Ancestor := ℕ × (ℕ × ℕ)

/-! ### The code -/

/-- `lambda (v, ((s, d), y)): (v, (s, d, y))`; `none` where the parameter does not
unpack. Every key is that of a paper, an integer. -/
def unpack : Value × (Value × Value) → Option (ℕ × (ℕ × (ℕ × ℕ)))
  | (.int v, (.pair (.int s) (.int d), .int y)) => some (v, (s, (d, y)))
  | _ => none

/-- The rows of `papers`, with the year as the entry. -/
def paperRows (papers : List (ℕ × ℕ)) : List (Value × Value) :=
  papers.map fun (paper, year) => (.int paper, .int year)

/-- `pd`. -/
def withYears (distances : List (Value × Value)) (papers : List (ℕ × ℕ)) :
    Option (List (ℕ × (ℕ × (ℕ × ℕ)))) :=
  tryMap unpack (join distances (paperRows papers))

/-- `accestors`. -/
def accestors (pd : List (ℕ × (ℕ × (ℕ × ℕ)))) :
    List (ℕ × ((ℕ × (ℕ × ℕ)) × (ℕ × (ℕ × ℕ)))) :=
  (join pd pd).filter fun (_, ((s1, _), (s2, _))) => s1 < s2

/-- `transform_accestors`; `none` where its assertion fails. -/
def transformAccestors :
    ℕ × ((ℕ × (ℕ × ℕ)) × (ℕ × (ℕ × ℕ))) → Option ((ℕ × ℕ) × Ancestor)
  | (v, ((s1, (d1, y1)), (s2, (d2, y2)))) =>
      if y1 = y2 then some ((s1, s2), (v, (max d1 d2, y1))) else none

/-- `compare_accestors`. -/
def compareAccestors (v1 v2 : Ancestor) : Ancestor :=
  let (a1, (d1, y1)) := v1
  let (a2, (d2, y2)) := v2
  if d1 ≠ d2 then if d1 < d2 then v1 else v2
  else if y1 ≠ y2 then if y1 < y2 then v1 else v2
  else if a1 < a2 then v1 else v2

/-- The rows that are written; `none` where the job fails. -/
def lowest (schedule : Schedule (ℕ × ℕ) Ancestor) (distances : List (Value × Value))
    (papers : List (ℕ × ℕ)) : Option (List ((ℕ × ℕ) × Ancestor)) :=
  (withYears distances papers).bind fun pd =>
    (tryMap transformAccestors (accestors pd)).map (reduceByKey compareAccestors schedule)

/-! ### What is asked for -/

/-- No paper is listed with two years. -/
def OneYear (papers : List (ℕ × ℕ)) : Prop :=
  ∀ paper year other, (paper, year) ∈ papers → (paper, other) ∈ papers → year = other

/-- Distance first, then year, then paper. -/
def cost (ancestor : Ancestor) : ℕ ×ₗ ℕ ×ₗ ℕ :=
  toLex (ancestor.2.1, toLex (ancestor.2.2, ancestor.1))

/-- A paper with its year to which both seeds lead, and the larger of the lengths
of the shortest citation paths to it. -/
def CommonAncestor (edges papers : List (ℕ × ℕ)) (s1 s2 : ℕ) : Ancestor → Prop
  | (paper, (distance, year)) => ∃ d1 d2, Shortest (Cites edges) s1 paper d1 ∧
      Shortest (Cites edges) s2 paper d2 ∧ distance = max d1 d2 ∧ (paper, year) ∈ papers

/-- One row for each pair of seeds with a common ancestor: the lowest. -/
structure LowestAncestors (edges papers : List (ℕ × ℕ)) (seeds : ℕ)
    (rows : List ((ℕ × ℕ) × Ancestor)) : Prop where
  once : (rows.map Prod.fst).Nodup
  pairs : ∀ s1 s2, (s1, s2) ∈ rows.map Prod.fst ↔
    s1 < s2 ∧ s2 < seeds ∧ ∃ ancestor, CommonAncestor edges papers s1 s2 ancestor
  least : ∀ s1 s2 ancestor, ((s1, s2), ancestor) ∈ rows →
    CommonAncestor edges papers s1 s2 ancestor ∧
      ∀ other, CommonAncestor edges papers s1 s2 other → cost ancestor ≤ cost other

/-! ### The reduction -/

theorem cost_le_iff (left right : Ancestor) : cost left ≤ cost right ↔
    left.2.1 < right.2.1 ∨ left.2.1 = right.2.1 ∧
      (left.2.2 < right.2.2 ∨ left.2.2 = right.2.2 ∧ left.1 ≤ right.1) := by
  simp only [cost, Prod.Lex.toLex_le_toLex]

/-- Ties are broken the same way in every order. -/
theorem selects_compareAccestors : Selects cost compareAccestors where
  one := fun left right => by
    simp only [compareAccestors]
    split_ifs <;> simp
  le_left := fun ⟨a1, d1, y1⟩ ⟨a2, d2, y2⟩ => by
    rw [cost_le_iff, compareAccestors]
    split_ifs <;> dsimp only <;> omega
  le_right := fun ⟨a1, d1, y1⟩ ⟨a2, d2, y2⟩ => by
    rw [cost_le_iff, compareAccestors]
    split_ifs <;> dsimp only <;> omega

/-! ### The joins -/

variable {edges papers : List (ℕ × ℕ)} {seeds : ℕ} {rows : List DistanceRow}

/-- The rows of `lca.py`, (vertex, (seed, distance)). -/
def vertexRows (rows : List DistanceRow) : List (Value × Value) :=
  rows.map fun ((vertex, seed), distance) => (.int vertex, .pair (.int seed) (.int distance))

/-- Rows of the expected shape unpack, each with the year of its paper. -/
theorem withYears_vertexRows (rows : List DistanceRow) (papers : List (ℕ × ℕ)) :
    ∃ pd, withYears (vertexRows rows) papers = some pd ∧ ∀ vertex seed distance year,
      (vertex, (seed, (distance, year))) ∈ pd ↔
        ((vertex, seed), distance) ∈ rows ∧ (vertex, year) ∈ papers := by
  have inJoin (key first second : Value) :
      (key, (first, second)) ∈ join (vertexRows rows) (paperRows papers) ↔
        ∃ vertex seed distance year, ((vertex, seed), distance) ∈ rows ∧ (vertex, year) ∈ papers ∧
          key = .int vertex ∧ first = .pair (.int seed) (.int distance) ∧ second = .int year := by
    rw [mem_join, vertexRows, paperRows, List.mem_map, List.mem_map]
    constructor
    · rintro ⟨⟨⟨⟨vertex, seed⟩, distance⟩, inRows, same⟩, ⟨⟨paper, year⟩, inPapers, equal⟩⟩
      cases same
      cases equal
      exact ⟨vertex, seed, distance, year, inRows, inPapers, rfl, rfl, rfl⟩
    · rintro ⟨vertex, seed, distance, year, inRows, inPapers, rfl, rfl, rfl⟩
      exact ⟨⟨_, inRows, rfl⟩, ⟨_, inPapers, rfl⟩⟩
  have total : ∀ row ∈ join (vertexRows rows) (paperRows papers), ∃ result,
      unpack row = some result := by
    rintro ⟨key, first, second⟩ member
    rcases (inJoin key first second).mp member with
      ⟨vertex, seed, distance, year, _, _, rfl, rfl, rfl⟩
    exact ⟨_, rfl⟩
  rcases tryMap_eq_some total with ⟨pd, mapped, members⟩
  refine ⟨pd, mapped, fun vertex seed distance year => ?_⟩
  rw [members]
  constructor
  · rintro ⟨⟨key, first, second⟩, member, unpacked⟩
    rcases (inJoin key first second).mp member with
      ⟨vertex', seed', distance', year', inRows, inPapers, rfl, rfl, rfl⟩
    cases unpacked
    exact ⟨inRows, inPapers⟩
  · rintro ⟨inRows, inPapers⟩
    exact ⟨_, (inJoin _ _ _).mpr
      ⟨vertex, seed, distance, year, inRows, inPapers, rfl, rfl, rfl⟩, rfl⟩

/-- The pairs of seeds at a paper, with the larger distance. -/
theorem tryMap_transformAccestors {pd : List (ℕ × (ℕ × (ℕ × ℕ)))} (exact : Exact edges seeds rows)
    (oneYear : OneYear papers)
    (inPd : ∀ vertex seed distance year, (vertex, (seed, (distance, year))) ∈ pd ↔
      ((vertex, seed), distance) ∈ rows ∧ (vertex, year) ∈ papers) :
    ∃ pairs, tryMap transformAccestors (accestors pd) = some pairs ∧ ∀ s1 s2 ancestor,
      ((s1, s2), ancestor) ∈ pairs ↔
        s1 < s2 ∧ s2 < seeds ∧ CommonAncestor edges papers s1 s2 ancestor := by
  have inAccestors (v s1 d1 y1 s2 d2 y2 : ℕ) :
      (v, ((s1, (d1, y1)), (s2, (d2, y2)))) ∈ accestors pd ↔
        ((((v, s1), d1) ∈ rows ∧ (v, y1) ∈ papers) ∧ ((v, s2), d2) ∈ rows ∧ (v, y2) ∈ papers) ∧
          s1 < s2 := by
    simp only [accestors, List.mem_filter, mem_join, inPd, decide_eq_true_eq]
  have total : ∀ row ∈ accestors pd, ∃ result, transformAccestors row = some result := by
    rintro ⟨v, ⟨s1, d1, y1⟩, ⟨s2, d2, y2⟩⟩ member
    rcases (inAccestors v s1 d1 y1 s2 d2 y2).mp member with ⟨⟨left, right⟩, _⟩
    exact ⟨_, if_pos (oneYear v y1 y2 left.2 right.2)⟩
  rcases tryMap_eq_some total with ⟨pairs, mapped, members⟩
  refine ⟨pairs, mapped, fun s1 s2 ancestor => ?_⟩
  rcases ancestor with ⟨paper, distance, year⟩
  rw [members]
  constructor
  · rintro ⟨⟨v, ⟨t1, d1, y1⟩, ⟨t2, d2, y2⟩⟩, member, transformed⟩
    rcases (inAccestors v t1 d1 y1 t2 d2 y2).mp member with ⟨⟨left, right⟩, less⟩
    rw [transformAccestors, if_pos (oneYear v y1 y2 left.2 right.2)] at transformed
    cases transformed
    rcases (exact.mem_iff _ _ _).mp left.1 with ⟨_, leftShortest⟩
    rcases (exact.mem_iff _ _ _).mp right.1 with ⟨isSeed, rightShortest⟩
    exact ⟨less, isSeed, d1, d2, leftShortest, rightShortest, rfl, left.2⟩
  · rintro ⟨less, isSeed, d1, d2, leftShortest, rightShortest, rfl, inPapers⟩
    have left := (exact.mem_iff paper s1 d1).mpr ⟨by omega, leftShortest⟩
    have right := (exact.mem_iff paper s2 d2).mpr ⟨isSeed, rightShortest⟩
    exact ⟨_, (inAccestors paper s1 d1 year s2 d2 year).mpr
      ⟨⟨⟨left, inPapers⟩, right, inPapers⟩, less⟩, if_pos rfl⟩

/-- From exact distances the second part finds the lowest common ancestors. -/
theorem lowest_vertexRows (schedule : Schedule (ℕ × ℕ) Ancestor) (exact : Exact edges seeds rows)
    (oneYear : OneYear papers) :
    ∃ output, lowest schedule (vertexRows rows) papers = some output ∧
      LowestAncestors edges papers seeds output := by
  rcases withYears_vertexRows rows papers with ⟨pd, years, inPd⟩
  rcases tryMap_transformAccestors exact oneYear inPd with ⟨pairs, transformed, members⟩
  refine ⟨reduceByKey compareAccestors schedule pairs, by simp [lowest, years, transformed],
    nodup_reduceByKey schedule pairs, fun s1 s2 => ?_, fun s1 s2 ancestor member => ?_⟩
  · constructor
    · intro inKeys
      rcases List.mem_map.mp inKeys with ⟨⟨key, ancestor⟩, member, rfl⟩
      have kept := (members s1 s2 ancestor).mp
        (selects_compareAccestors.mem_reduceByKey member).1
      exact ⟨kept.1, kept.2.1, ancestor, kept.2.2⟩
    · rintro ⟨less, isSeed, ancestor, common⟩
      rcases @exists_mem_reduceByKey _ _ _ compareAccestors schedule _ _ _
        ((members s1 s2 ancestor).mpr ⟨less, isSeed, common⟩) with ⟨least, member⟩
      exact List.mem_map.mpr ⟨_, member, rfl⟩
  · rcases selects_compareAccestors.mem_reduceByKey member with ⟨inPairs, minimal⟩
    rcases (members s1 s2 ancestor).mp inPairs with ⟨less, isSeed, common⟩
    exact ⟨common, fun other otherCommon =>
      minimal other ((members s1 s2 other).mpr ⟨less, isSeed, otherCommon⟩)⟩

end CSE550.Citations
