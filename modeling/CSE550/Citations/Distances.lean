import CSE550.Lib.CountLoop
import CSE550.Lib.Rdd
import CSE550.Lib.Walks
import Mathlib.Data.List.Perm.Subperm
import Mathlib.Data.List.ProdSigma
import Mathlib.Data.List.Range

/-!
Owns what the distance loops of both jobs keep: after a number of rounds there is
one row for each seed and each vertex within that many citations, with the length
of a shortest citation path. A loop that keeps this ends, with all of them.

Does not own the rounds of either job.
-/

namespace CSE550.Citations

open CSE550.Lib CSE550.Lib.Rdd

/-- A row of distances: (vertex, seed) and the distance from the seed. -/
abbrev DistanceRow := (ℕ × ℕ) × ℕ

/-- The first paper cites the second. -/
def Cites (edges : List (ℕ × ℕ)) (citing cited : ℕ) : Prop := (citing, cited) ∈ edges

/-- `lambda a, b: a if a < b else b`. -/
def shorter (left right : ℕ) : ℕ := if left < right then left else right

theorem selects_shorter : Selects (fun distance : ℕ => distance) shorter where
  one := fun left right => by
    unfold shorter
    split <;> simp
  le_left := fun left right => by
    unfold shorter
    split <;> omega
  le_right := fun left right => by
    unfold shorter
    split <;> omega

/-- One row for each seed and each vertex within a number of citations. -/
structure ExactTo (edges : List (ℕ × ℕ)) (seeds round : ℕ) (rows : List DistanceRow) : Prop where
  once : (rows.map Prod.fst).Nodup
  mem_iff : ∀ vertex seed distance, ((vertex, seed), distance) ∈ rows ↔
    seed < seeds ∧ Shortest (Cites edges) seed vertex distance ∧ distance ≤ round

/-- One row for each seed and each vertex it reaches. -/
structure Exact (edges : List (ℕ × ℕ)) (seeds : ℕ) (rows : List DistanceRow) : Prop where
  once : (rows.map Prod.fst).Nodup
  mem_iff : ∀ vertex seed distance, ((vertex, seed), distance) ∈ rows ↔
    seed < seeds ∧ Shortest (Cites edges) seed vertex distance

variable {edges : List (ℕ × ℕ)} {seeds round : ℕ} {rows later : List DistanceRow}

/-- A seed and a vertex it reaches have one row. -/
theorem Exact.exists_filter (exact : Exact edges seeds rows) {seed vertex : ℕ}
    (isSeed : seed < seeds) (reaches : Reaches (Cites edges) seed vertex) :
    ∃ distance, Shortest (Cites edges) seed vertex distance ∧
      (rows.filter fun row => row.1 = (vertex, seed)) = [((vertex, seed), distance)] := by
  rcases reaches.exists_shortest with ⟨distance, isShortest⟩
  have member := (exact.mem_iff vertex seed distance).mpr ⟨isSeed, isShortest⟩
  exact ⟨distance, isShortest, filter_key_of_nodup exact.once member⟩

/-- Every row is one of a seed and a vertex it reaches. -/
theorem Exact.reaches (exact : Exact edges seeds rows) {vertex seed distance : ℕ}
    (member : ((vertex, seed), distance) ∈ rows) :
    seed < seeds ∧ Reaches (Cites edges) seed vertex := by
  rcases (exact.mem_iff vertex seed distance).mp member with ⟨isSeed, isShortest⟩
  exact ⟨isSeed, isShortest.reaches⟩

/-- Reducing rows of walks that include all shortest ones. -/
theorem exactTo_reduceByKey (schedule : Schedule (ℕ × ℕ) ℕ)
    (sound : ∀ vertex seed distance, ((vertex, seed), distance) ∈ rows →
      seed < seeds ∧ Walk (Cites edges) seed vertex distance ∧ distance ≤ round)
    (complete : ∀ vertex seed distance, seed < seeds →
      Shortest (Cites edges) seed vertex distance → distance ≤ round →
        ((vertex, seed), distance) ∈ rows) :
    ExactTo edges seeds round (reduceByKey shorter schedule rows) := by
  have least : ∀ vertex seed distance,
      ((vertex, seed), distance) ∈ reduceByKey shorter schedule rows →
        seed < seeds ∧ Shortest (Cites edges) seed vertex distance ∧ distance ≤ round := by
    intro vertex seed distance member
    rcases selects_shorter.mem_reduceByKey member with ⟨inRows, minimal⟩
    rcases sound vertex seed distance inRows with ⟨isSeed, walk, within⟩
    rcases Reaches.exists_shortest ⟨distance, walk⟩ with ⟨shortest, isShortest⟩
    have below := isShortest.least distance walk
    have above := minimal shortest (complete vertex seed shortest isSeed isShortest (by omega))
    obtain rfl : shortest = distance := by omega
    exact ⟨isSeed, isShortest, within⟩
  refine ⟨nodup_reduceByKey schedule rows, fun vertex seed distance =>
    ⟨least vertex seed distance, ?_⟩⟩
  rintro ⟨isSeed, isShortest, within⟩
  rcases @exists_mem_reduceByKey _ _ _ shorter schedule _ _ _
    (complete vertex seed distance isSeed isShortest within) with ⟨other, member⟩
  rwa [isShortest.unique (least vertex seed other member).2.1]

/-! ### Counting rows -/

theorem ExactTo.key_iff (exact : ExactTo edges seeds round rows) {vertex seed : ℕ} :
    (vertex, seed) ∈ rows.map Prod.fst ↔
      seed < seeds ∧ ∃ distance, Shortest (Cites edges) seed vertex distance ∧
        distance ≤ round := by
  constructor
  · intro member
    rcases List.mem_map.mp member with ⟨⟨key, distance⟩, inRows, rfl⟩
    rcases (exact.mem_iff vertex seed distance).mp inRows with ⟨isSeed, isShortest, within⟩
    exact ⟨isSeed, distance, isShortest, within⟩
  · rintro ⟨isSeed, distance, isShortest, within⟩
    exact List.mem_map.mpr
      ⟨_, (exact.mem_iff vertex seed distance).mpr ⟨isSeed, isShortest, within⟩, rfl⟩

theorem ExactTo.subperm (exact : ExactTo edges seeds round rows)
    (next : ExactTo edges seeds (round + 1) later) :
    (rows.map Prod.fst).Subperm (later.map Prod.fst) := by
  apply exact.once.subperm
  rintro ⟨vertex, seed⟩ member
  rcases exact.key_iff.mp member with ⟨isSeed, distance, isShortest, within⟩
  exact next.key_iff.mpr ⟨isSeed, distance, isShortest, by omega⟩

/-- No row is lost in a round. -/
theorem ExactTo.length_le (exact : ExactTo edges seeds round rows)
    (next : ExactTo edges seeds (round + 1) later) : rows.length ≤ later.length := by
  have bound := (exact.subperm next).length_le
  rwa [List.length_map, List.length_map] at bound

/-- When a round adds no row, no vertex is further away. -/
theorem ExactTo.within_of_length_eq (exact : ExactTo edges seeds round rows)
    (next : ExactTo edges seeds (round + 1) later) (same : rows.length = later.length)
    {vertex seed distance : ℕ} (isSeed : seed < seeds)
    (isShortest : Shortest (Cites edges) seed vertex distance) : distance ≤ round := by
  by_contra beyond
  rcases isShortest.exists_at (show round + 1 ≤ distance by omega) with ⟨middle, atNext⟩
  have perm : (rows.map Prod.fst).Perm (later.map Prod.fst) :=
    (exact.subperm next).perm_of_length_le (by rw [List.length_map, List.length_map, same])
  have inNext : (middle, seed) ∈ later.map Prod.fst :=
    next.key_iff.mpr ⟨isSeed, round + 1, atNext, le_refl _⟩
  rcases exact.key_iff.mp (perm.mem_iff.mpr inNext) with ⟨_, other, otherShortest, within⟩
  have equal := atNext.unique otherShortest
  omega

/-- The keys a row can have. -/
def candidates (edges : List (ℕ × ℕ)) (seeds : ℕ) : List (ℕ × ℕ) :=
  (List.range seeds ++ edges.map Prod.snd) ×ˢ List.range seeds

theorem ExactTo.length_le_candidates (exact : ExactTo edges seeds round rows) :
    rows.length ≤ (candidates edges seeds).length := by
  have sub : (rows.map Prod.fst).Subperm (candidates edges seeds) := by
    apply exact.once.subperm
    rintro ⟨vertex, seed⟩ member
    rcases exact.key_iff.mp member with ⟨isSeed, distance, isShortest, _⟩
    rw [candidates, List.mem_product, List.mem_append]
    refine ⟨?_, List.mem_range.mpr isSeed⟩
    cases distance with
    | zero =>
        rw [← Walk.zero_iff.mp isShortest.walk]
        exact .inl (List.mem_range.mpr isSeed)
    | succ distance =>
        rcases Walk.succ_iff.mp isShortest.walk with ⟨middle, _, last⟩
        exact .inr (List.mem_map.mpr ⟨(middle, vertex), last, rfl⟩)
  have bound := sub.length_le
  rwa [List.length_map] at bound

/-! ### The loop -/

/-- The first row of each seed. -/
theorem exactTo_zero (edges : List (ℕ × ℕ)) (seeds : ℕ) :
    ExactTo edges seeds 0 ((List.range seeds).map fun seed => ((seed, seed), 0)) := by
  constructor
  · rw [List.map_map]
    exact List.nodup_range.map fun left right same => (Prod.mk.inj same).1
  · intro vertex seed distance
    rw [List.mem_map]
    constructor
    · rintro ⟨other, inRange, same⟩
      cases same
      exact ⟨List.mem_range.mp inRange, shortest_self vertex, le_refl _⟩
    · rintro ⟨isSeed, isShortest, within⟩
      obtain rfl : distance = 0 := by omega
      obtain rfl := Walk.zero_iff.mp isShortest.walk
      exact ⟨seed, List.mem_range.mpr isSeed, rfl⟩

/-- A loop whose rounds keep the rows exact ends with all of them. -/
theorem countLoop_exact {State : Type} {body : ℕ → State → State} {start : State}
    {count : State → ℕ} {rowsOf : State → List DistanceRow}
    (counted : ∀ state, count state = (rowsOf state).length)
    (exact : ∀ round, ExactTo edges seeds round (rowsOf (afterRounds body start round))) :
    ∃ bound state, Exact edges seeds (rowsOf state) ∧
      ∀ fuel, bound < fuel → countLoop body count fuel 0 0 (count start) start = some state := by
  have ends := @countLoop_ends _ body count start (candidates edges seeds).length
    (fun round => by
      rw [counted, counted]
      exact (exact round).length_le (exact (round + 1)))
    (fun round => by
      rw [counted]
      exact (exact round).length_le_candidates)
  rcases ends with ⟨last, stable, loop⟩
  refine ⟨last, _, ⟨(exact last).once, fun vertex seed distance => ?_⟩, loop⟩
  rw [(exact last).mem_iff]
  refine and_congr_right fun isSeed => and_iff_left_of_imp fun isShortest => ?_
  cases last with
  | zero =>
      -- no test was passed, so there is no seed
      rw [oldCount, counted, eq_comm, List.length_eq_zero_iff] at stable
      have inRows := ((exact 0).mem_iff seed seed 0).mpr ⟨isSeed, shortest_self seed, le_refl _⟩
      rw [stable] at inRows
      cases inRows
  | succ last =>
      rw [oldCount, counted, counted] at stable
      have within := (exact last).within_of_length_eq (exact (last + 1)) stable isSeed isShortest
      omega

end CSE550.Citations
