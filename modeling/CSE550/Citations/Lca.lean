import CSE550.Citations.Ancestors

/-!
Owns `lca.py`: its loop relaxes all distance rows in every round, and its output
is the lowest common ancestor of every pair of seeds.

The parameters of the job are the citation edges, the papers and the number of
seeds; a schedule for each reduction; and fuel for the loop.
-/

namespace CSE550.Citations

open CSE550.Lib CSE550.Lib.Rdd

/-- A row of `distances`: (vertex, (seed, distance)). -/
abbrev VertexRow := ℕ × (ℕ × ℕ)

/-- `dist_seed_pairs`. -/
def distSeedPairs (distances : List VertexRow) : List DistanceRow :=
  distances.map fun (v, (s, d)) => ((v, s), d)

/-- `next_step`. -/
def nextStep (edges : List (ℕ × ℕ)) (distances : List VertexRow) : List DistanceRow :=
  (join distances edges).map fun (_, ((s, d), v2)) => ((v2, s), d + 1)

/-- One round of the loop. -/
def relax (edges : List (ℕ × ℕ)) (schedule : Schedule (ℕ × ℕ) ℕ) (distances : List VertexRow) :
    List VertexRow :=
  (reduceByKey shorter schedule (nextStep edges distances ++ distSeedPairs distances)).map
    fun ((v, s), d) => (v, (s, d))

/-- `distances` before the loop. -/
def seedRows (seeds : ℕ) : List VertexRow := (List.range seeds).map fun x => (x, (x, 0))

/-- `distances` after the loop; `none` when the fuel does not suffice. -/
def distancesOf (fuel : ℕ) (schedules : ℕ → Schedule (ℕ × ℕ) ℕ) (edges : List (ℕ × ℕ))
    (seeds : ℕ) : Option (List VertexRow) :=
  countLoop (fun round => relax edges (schedules round)) List.length fuel 0 0 seeds
    (seedRows seeds)

/-- The rows `lca.py` writes; `none` when the fuel does not suffice or the job fails. -/
def lca (fuel : ℕ) (schedules : ℕ → Schedule (ℕ × ℕ) ℕ) (schedule : Schedule (ℕ × ℕ) Ancestor)
    (edges papers : List (ℕ × ℕ)) (seeds : ℕ) : Option (List ((ℕ × ℕ) × Ancestor)) :=
  (distancesOf fuel schedules edges seeds).bind fun distances =>
    lowest schedule
      (distances.map fun (v, (s, d)) => (.int v, .pair (.int s) (.int d))) papers

/-! ### The loop -/

variable {edges : List (ℕ × ℕ)} {seeds round : ℕ} {distances : List VertexRow}

@[simp] theorem mem_distSeedPairs {vertex seed distance : ℕ} :
    ((vertex, seed), distance) ∈ distSeedPairs distances ↔
      (vertex, (seed, distance)) ∈ distances := by
  simp [distSeedPairs]

theorem distSeedPairs_injective : Function.Injective distSeedPairs := by
  apply List.map_injective_iff.mpr
  rintro ⟨v, s, d⟩ ⟨_, _, _⟩ same
  cases same
  rfl

theorem mem_nextStep {vertex seed distance : ℕ} :
    ((vertex, seed), distance) ∈ nextStep edges distances ↔ ∃ middle before,
      (middle, (seed, before)) ∈ distances ∧ Cites edges middle vertex ∧
        distance = before + 1 := by
  rw [nextStep, List.mem_map]
  constructor
  · rintro ⟨⟨middle, ⟨other, before⟩, target⟩, member, same⟩
    cases same
    rcases mem_join.mp member with ⟨inDistances, inEdges⟩
    exact ⟨middle, before, inDistances, inEdges, rfl⟩
  · rintro ⟨middle, before, inDistances, inEdges, rfl⟩
    exact ⟨(middle, ((seed, before), vertex)), mem_join.mpr ⟨inDistances, inEdges⟩, rfl⟩

theorem distSeedPairs_relax (schedule : Schedule (ℕ × ℕ) ℕ) :
    distSeedPairs (relax edges schedule distances) =
      reduceByKey shorter schedule (nextStep edges distances ++ distSeedPairs distances) := by
  rw [relax, distSeedPairs, List.map_map]
  exact List.map_id _

/-- A round looks one citation further. -/
theorem exactTo_relax (schedule : Schedule (ℕ × ℕ) ℕ)
    (exact : ExactTo edges seeds round (distSeedPairs distances)) :
    ExactTo edges seeds (round + 1) (distSeedPairs (relax edges schedule distances)) := by
  have known (vertex seed distance : ℕ) : (vertex, (seed, distance)) ∈ distances ↔
      seed < seeds ∧ Shortest (Cites edges) seed vertex distance ∧ distance ≤ round := by
    rw [← mem_distSeedPairs, exact.mem_iff]
  rw [distSeedPairs_relax]
  apply exactTo_reduceByKey
  · intro vertex seed distance member
    rcases List.mem_append.mp member with isNext | isOld
    · rcases mem_nextStep.mp isNext with ⟨middle, before, inDistances, last, rfl⟩
      rcases (known _ _ _).mp inDistances with ⟨isSeed, isShortest, within⟩
      exact ⟨isSeed, .step isShortest.walk last, by omega⟩
    · rcases (exact.mem_iff _ _ _).mp isOld with ⟨isSeed, isShortest, within⟩
      exact ⟨isSeed, isShortest.walk, by omega⟩
  · intro vertex seed distance isSeed isShortest within
    apply List.mem_append.mpr
    by_cases old : distance ≤ round
    · exact .inr ((exact.mem_iff _ _ _).mpr ⟨isSeed, isShortest, old⟩)
    · obtain rfl : distance = round + 1 := by omega
      rcases isShortest.init with ⟨middle, before, last⟩
      have inDistances := (known middle seed round).mpr ⟨isSeed, before, le_refl _⟩
      exact .inl (mem_nextStep.mpr ⟨middle, round, inDistances, last, rfl⟩)

theorem exactTo_afterRounds (schedules : ℕ → Schedule (ℕ × ℕ) ℕ) (edges : List (ℕ × ℕ))
    (seeds round : ℕ) :
    ExactTo edges seeds round (distSeedPairs
      (afterRounds (fun round => relax edges (schedules round)) (seedRows seeds) round)) := by
  induction round with
  | zero =>
      have start := exactTo_zero edges seeds
      rwa [afterRounds, show distSeedPairs (seedRows seeds) =
        (List.range seeds).map fun seed => ((seed, seed), 0) from List.map_map]
  | succ round inductionHypothesis => exact exactTo_relax _ inductionHypothesis

/-- The loop ends with the distances of all vertices the seeds reach. -/
theorem exists_distancesOf (schedules : ℕ → Schedule (ℕ × ℕ) ℕ) (edges : List (ℕ × ℕ))
    (seeds : ℕ) : ∃ bound distances, Exact edges seeds (distSeedPairs distances) ∧
      ∀ fuel, bound < fuel → distancesOf fuel schedules edges seeds = some distances := by
  have counted : ∀ distances : List VertexRow,
      distances.length = (distSeedPairs distances).length := fun distances => by
    rw [distSeedPairs, List.length_map]
  have start : (seedRows seeds).length = seeds := by
    rw [seedRows, List.length_map, List.length_range]
  have ends := countLoop_exact counted (exactTo_afterRounds schedules edges seeds)
  rwa [start] at ends

/-- For every schedule the loop of `lca.py` ends, and `distances` then has one row
for each seed and each vertex it reaches, with the length of a shortest path. -/
theorem lca_distances_exact (edges : List (ℕ × ℕ)) (seeds : ℕ)
    (schedules : ℕ → Schedule (ℕ × ℕ) ℕ) :
    ∃ bound distances,
      (∀ fuel, bound < fuel → distancesOf fuel schedules edges seeds = some distances) ∧
      (∀ seed vertex, seed < seeds → Reaches (Cites edges) seed vertex →
        ∃ distance, Shortest (Cites edges) seed vertex distance ∧
          (distances.filter fun (v, (s, _)) => (v, s) = (vertex, seed)) =
            [(vertex, (seed, distance))]) ∧
      ∀ vertex seed distance, (vertex, (seed, distance)) ∈ distances →
        seed < seeds ∧ Reaches (Cites edges) seed vertex := by
  rcases exists_distancesOf schedules edges seeds with ⟨bound, distances, exact, loop⟩
  refine ⟨bound, distances, loop, fun seed vertex isSeed reaches => ?_, ?_⟩
  · rcases exact.exists_filter isSeed reaches with ⟨distance, isShortest, alone⟩
    refine ⟨distance, isShortest, distSeedPairs_injective ?_⟩
    rw [distSeedPairs, List.filter_map] at alone
    exact alone
  · intro vertex seed distance member
    exact exact.reaches (mem_distSeedPairs.mpr member)

/-! ### The job -/

/-- After the loop the second part reads its rows. -/
theorem lca_of_distancesOf {fuel : ℕ} {schedules : ℕ → Schedule (ℕ × ℕ) ℕ}
    {schedule : Schedule (ℕ × ℕ) Ancestor} {papers : List (ℕ × ℕ)}
    (loop : distancesOf fuel schedules edges seeds = some distances) :
    lca fuel schedules schedule edges papers seeds =
      lowest schedule (vertexRows (distSeedPairs distances)) papers := by
  have shape : vertexRows (distSeedPairs distances) =
      distances.map fun (v, (s, d)) => (.int v, .pair (.int s) (.int d)) := List.map_map
  rw [lca, loop, Option.bind_some, shape]

/-- For every schedule, `lca.py` ends and writes the lowest common ancestor of
each pair of seeds that has one listed in the papers. -/
theorem lca_writes_lowest (edges papers : List (ℕ × ℕ)) (seeds : ℕ) (oneYear : OneYear papers)
    (schedules : ℕ → Schedule (ℕ × ℕ) ℕ) (schedule : Schedule (ℕ × ℕ) Ancestor) :
    ∃ bound rows, LowestAncestors edges papers seeds rows ∧
      ∀ fuel, bound < fuel → lca fuel schedules schedule edges papers seeds = some rows := by
  rcases exists_distancesOf schedules edges seeds with ⟨bound, distances, exact, loop⟩
  rcases lowest_vertexRows schedule exact oneYear with ⟨rows, found, isLowest⟩
  refine ⟨bound, rows, isLowest, fun fuel enough => ?_⟩
  rw [lca_of_distancesOf (loop fuel enough), found]

/-- Two papers that both cite a third, listed twice with its year. -/
theorem lca_writes_lowest_shared :
    ∃ bound rows, LowestAncestors [(0, 2), (1, 2), (1, 2)] [(2, 1990), (2, 1990)] 2 rows ∧
      ∀ fuel, bound < fuel →
        lca fuel (fun _ => .inOrder) .inOrder [(0, 2), (1, 2), (1, 2)] [(2, 1990), (2, 1990)] 2 =
          some rows := by
  apply lca_writes_lowest
  intro paper year other first second
  simp only [List.mem_cons, Prod.mk.injEq, List.not_mem_nil, or_false, or_self] at first second
  rw [first.2, second.2]

example : lca 4 (fun _ => .inOrder) .inOrder [(0, 2), (1, 2), (1, 0)] [(2, 1990), (0, 2001)] 2 =
    some [((0, 1), (2, (1, 1990)))] := by
  decide

end CSE550.Citations
