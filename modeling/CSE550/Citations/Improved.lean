import CSE550.Citations.Lca

/-!
Owns `lca_improved.py`: its loop extends the walks of the last round only, and
keeps the distance rows in the shape ((vertex, seed), distance).

The loop ends with the same distances. The second part of the job was written
for the other shape: no tuple equals the id of a paper, so the job writes nothing.
-/

namespace CSE550.Citations

open CSE550.Lib CSE550.Lib.Rdd

/-- What a round changes. -/
structure Frontier where
  distances : List DistanceRow
  lastStep : List VertexRow

/-- `next_step`. -/
def extendStep (edges : List (ℕ × ℕ)) (lastStep : List VertexRow) : List VertexRow :=
  (join lastStep edges).map fun (_, ((s, d), v2)) => (v2, (s, d + 1))

/-- One round of the loop. -/
def advance (edges : List (ℕ × ℕ)) (schedule : Schedule (ℕ × ℕ) ℕ) (bfsRound : ℕ)
    (frontier : Frontier) : Frontier where
  distances := reduceByKey shorter schedule
    (frontier.distances ++ distSeedPairs (extendStep edges frontier.lastStep))
  lastStep := (extendStep edges frontier.lastStep).filter fun (_, (_, d)) => d = bfsRound

/-- `distances` and `last_step` before the loop. -/
def firstFrontier (seeds : ℕ) : Frontier where
  distances := (List.range seeds).map fun x => ((x, x), 0)
  lastStep := ((List.range seeds).map fun x => ((x, x), 0)).map fun ((x, y), d) => (x, (y, d))

/-- The loop; `bfs_round` is one more than the number of rounds done. -/
def frontierOf (fuel : ℕ) (schedules : ℕ → Schedule (ℕ × ℕ) ℕ) (edges : List (ℕ × ℕ))
    (seeds : ℕ) : Option Frontier :=
  countLoop (fun round => advance edges (schedules round) (round + 1))
    (fun frontier => frontier.distances.length) fuel 0 0 seeds (firstFrontier seeds)

/-- The rows `lca_improved.py` writes; `none` when the fuel does not suffice or
the job fails. -/
def lcaImproved (fuel : ℕ) (schedules : ℕ → Schedule (ℕ × ℕ) ℕ)
    (schedule : Schedule (ℕ × ℕ) Ancestor) (edges papers : List (ℕ × ℕ)) (seeds : ℕ) :
    Option (List ((ℕ × ℕ) × Ancestor)) :=
  (frontierOf fuel schedules edges seeds).bind fun frontier =>
    lowest schedule
      (frontier.distances.map fun ((v, s), d) => (.pair (.int v) (.int s), .int d)) papers

/-! ### The loop -/

variable {edges : List (ℕ × ℕ)} {seeds round : ℕ} {frontier : Frontier}

theorem mem_extendStep {lastStep : List VertexRow} {vertex seed distance : ℕ} :
    (vertex, (seed, distance)) ∈ extendStep edges lastStep ↔ ∃ middle before,
      (middle, (seed, before)) ∈ lastStep ∧ Cites edges middle vertex ∧
        distance = before + 1 := by
  rw [extendStep, List.mem_map]
  constructor
  · rintro ⟨⟨middle, ⟨other, before⟩, target⟩, member, same⟩
    cases same
    rcases mem_join.mp member with ⟨inLast, inEdges⟩
    exact ⟨middle, before, inLast, inEdges, rfl⟩
  · rintro ⟨middle, before, inLast, inEdges, rfl⟩
    exact ⟨(middle, ((seed, before), vertex)), mem_join.mpr ⟨inLast, inEdges⟩, rfl⟩

/-- The distances so far, and the walks of that many citations. -/
structure Front (edges : List (ℕ × ℕ)) (seeds round : ℕ) (frontier : Frontier) : Prop where
  exact : ExactTo edges seeds round frontier.distances
  walks : ∀ vertex seed distance, (vertex, (seed, distance)) ∈ frontier.lastStep ↔
    seed < seeds ∧ Walk (Cites edges) seed vertex distance ∧ distance = round

/-- The next step has the walks that are one citation longer. -/
theorem Front.mem_extendStep_iff (front : Front edges seeds round frontier)
    {vertex seed distance : ℕ} :
    (vertex, (seed, distance)) ∈ extendStep edges frontier.lastStep ↔
      seed < seeds ∧ Walk (Cites edges) seed vertex distance ∧ distance = round + 1 := by
  rw [mem_extendStep]
  constructor
  · rintro ⟨middle, before, inLast, last, rfl⟩
    rcases (front.walks _ _ _).mp inLast with ⟨isSeed, walk, rfl⟩
    exact ⟨isSeed, .step walk last, rfl⟩
  · rintro ⟨isSeed, walk, rfl⟩
    rcases Walk.succ_iff.mp walk with ⟨middle, shorterWalk, last⟩
    exact ⟨middle, round, (front.walks _ _ _).mpr ⟨isSeed, shorterWalk, rfl⟩, last, rfl⟩

/-- A round looks one citation further. -/
theorem Front.advance (front : Front edges seeds round frontier)
    (schedule : Schedule (ℕ × ℕ) ℕ) :
    Front edges seeds (round + 1) (advance edges schedule (round + 1) frontier) := by
  constructor
  · apply exactTo_reduceByKey
    · intro vertex seed distance member
      rcases List.mem_append.mp member with isOld | isNext
      · rcases (front.exact.mem_iff _ _ _).mp isOld with ⟨isSeed, isShortest, within⟩
        exact ⟨isSeed, isShortest.walk, by omega⟩
      · rw [mem_distSeedPairs, front.mem_extendStep_iff] at isNext
        exact ⟨isNext.1, isNext.2.1, by omega⟩
    · intro vertex seed distance isSeed isShortest within
      apply List.mem_append.mpr
      by_cases old : distance ≤ round
      · exact .inl ((front.exact.mem_iff _ _ _).mpr ⟨isSeed, isShortest, old⟩)
      · right
        rw [mem_distSeedPairs, front.mem_extendStep_iff]
        exact ⟨isSeed, isShortest.walk, by omega⟩
  · intro vertex seed distance
    simp only [Citations.advance, List.mem_filter, front.mem_extendStep_iff, decide_eq_true_eq]
    constructor
    · exact fun both => both.1
    · exact fun walk => ⟨walk, walk.2.2⟩

theorem front_afterRounds (schedules : ℕ → Schedule (ℕ × ℕ) ℕ) (edges : List (ℕ × ℕ))
    (seeds round : ℕ) : Front edges seeds round
      (afterRounds (fun round => advance edges (schedules round) (round + 1))
        (firstFrontier seeds) round) := by
  induction round with
  | zero =>
      refine ⟨exactTo_zero edges seeds, fun vertex seed distance => ?_⟩
      rw [afterRounds, firstFrontier, List.map_map, List.mem_map]
      constructor
      · rintro ⟨other, inRange, same⟩
        cases same
        exact ⟨List.mem_range.mp inRange, .stay, rfl⟩
      · rintro ⟨isSeed, walk, rfl⟩
        obtain rfl := Walk.zero_iff.mp walk
        exact ⟨seed, List.mem_range.mpr isSeed, rfl⟩
  | succ round inductionHypothesis => exact inductionHypothesis.advance _

/-- The loop ends with the distances of all vertices the seeds reach. -/
theorem exists_frontierOf (schedules : ℕ → Schedule (ℕ × ℕ) ℕ) (edges : List (ℕ × ℕ))
    (seeds : ℕ) : ∃ bound frontier, Exact edges seeds frontier.distances ∧
      ∀ fuel, bound < fuel → frontierOf fuel schedules edges seeds = some frontier := by
  have start : (firstFrontier seeds).distances.length = seeds := by
    rw [firstFrontier, List.length_map, List.length_range]
  have ends := @countLoop_exact edges seeds _ _ _ (fun frontier => frontier.distances.length)
    Frontier.distances (fun _ => rfl)
    (fun round => (front_afterRounds schedules edges seeds round).exact)
  simp only [start] at ends
  exact ends

/-- For every schedule the loop of `lca_improved.py` ends, and `distances` then has
one entry for each seed and each vertex it reaches, with the length of a shortest
path. -/
theorem improved_distances_exact (edges : List (ℕ × ℕ)) (seeds : ℕ)
    (schedules : ℕ → Schedule (ℕ × ℕ) ℕ) :
    ∃ bound frontier,
      (∀ fuel, bound < fuel → frontierOf fuel schedules edges seeds = some frontier) ∧
      (∀ seed vertex, seed < seeds → Reaches (Cites edges) seed vertex →
        ∃ distance, Shortest (Cites edges) seed vertex distance ∧
          (frontier.distances.filter fun row => row.1 = (vertex, seed)) =
            [((vertex, seed), distance)]) ∧
      ∀ vertex seed distance, ((vertex, seed), distance) ∈ frontier.distances →
        seed < seeds ∧ Reaches (Cites edges) seed vertex := by
  rcases exists_frontierOf schedules edges seeds with ⟨bound, frontier, exact, loop⟩
  refine ⟨bound, frontier, loop, fun seed vertex isSeed reaches => ?_, ?_⟩
  · exact exact.exists_filter isSeed reaches
  · intro vertex seed distance member
    exact exact.reaches member

/-! ### The job -/

/-- No row with a tuple for a key meets a paper. -/
theorem join_paperRows_of_pair {distances : List (Value × Value)} {papers : List (ℕ × ℕ)}
    (pairs : ∀ row ∈ distances, ∃ first second, row.1 = .pair first second) :
    join distances (paperRows papers) = [] := by
  apply List.eq_nil_iff_forall_not_mem.mpr
  rintro ⟨key, first, second⟩ member
  rcases mem_join.mp member with ⟨inDistances, inPapers⟩
  rcases List.mem_map.mp inPapers with ⟨paper, _, same⟩
  rcases pairs _ inDistances with ⟨_, _, isPair⟩
  cases same
  cases isPair

/-- `lca_improved.py` ends and writes nothing. -/
theorem exists_lcaImproved (edges papers : List (ℕ × ℕ)) (seeds : ℕ)
    (schedules : ℕ → Schedule (ℕ × ℕ) ℕ) (schedule : Schedule (ℕ × ℕ) Ancestor) :
    ∃ bound, ∀ fuel, bound < fuel →
      lcaImproved fuel schedules schedule edges papers seeds = some [] := by
  rcases exists_frontierOf schedules edges seeds with ⟨bound, frontier, _, loop⟩
  refine ⟨bound, fun fuel enough => ?_⟩
  have noRow : join (frontier.distances.map fun ((v, s), d) =>
      (Value.pair (.int v) (.int s), Value.int d)) (paperRows papers) = [] := by
    apply join_paperRows_of_pair
    intro row member
    rcases List.mem_map.mp member with ⟨⟨⟨v, s⟩, d⟩, _, rfl⟩
    exact ⟨_, _, rfl⟩
  rw [lcaImproved, loop fuel enough, Option.bind_some, lowest, withYears, noRow]
  rfl

/-- Two seeds lead to a paper that is listed. -/
def SharedAncestor (edges papers : List (ℕ × ℕ)) (seeds : ℕ) : Prop :=
  ∃ s1 s2 paper year, s1 < s2 ∧ s2 < seeds ∧ Reaches (Cites edges) s1 paper ∧
    Reaches (Cites edges) s2 paper ∧ (paper, year) ∈ papers

theorem sharedAncestor_iff {papers : List (ℕ × ℕ)} {rows : List ((ℕ × ℕ) × Ancestor)}
    (isLowest : LowestAncestors edges papers seeds rows) :
    SharedAncestor edges papers seeds ↔ rows ≠ [] := by
  constructor
  · rintro ⟨s1, s2, paper, year, less, isSeed, first, second, inPapers⟩ empty
    rcases first.exists_shortest with ⟨d1, firstShortest⟩
    rcases second.exists_shortest with ⟨d2, secondShortest⟩
    have member := (isLowest.pairs s1 s2).mpr
      ⟨less, isSeed, (paper, (max d1 d2, year)), d1, d2, firstShortest, secondShortest, rfl,
        inPapers⟩
    rw [empty] at member
    cases member
  · intro nonempty
    rcases List.exists_mem_of_ne_nil rows nonempty with ⟨⟨⟨s1, s2⟩, ancestor⟩, member⟩
    rcases (isLowest.pairs s1 s2).mp (List.mem_map.mpr ⟨_, member, rfl⟩) with
      ⟨less, isSeed, ⟨paper, distance, year⟩, d1, d2, first, second, _, inPapers⟩
    exact ⟨s1, s2, paper, year, less, isSeed, first.reaches, second.reaches, inPapers⟩

/-- Both jobs end, and they write the same rows exactly when no two seeds share
an ancestor that is listed in the papers. -/
theorem improved_writes_same_iff (edges papers : List (ℕ × ℕ)) (seeds : ℕ)
    (oneYear : OneYear papers) (schedules improvedSchedules : ℕ → Schedule (ℕ × ℕ) ℕ)
    (schedule improvedSchedule : Schedule (ℕ × ℕ) Ancestor) :
    ∃ bound rows improvedRows,
      (∀ fuel, bound < fuel → lca fuel schedules schedule edges papers seeds = some rows ∧
        lcaImproved fuel improvedSchedules improvedSchedule edges papers seeds =
          some improvedRows) ∧
      ((∀ row, row ∈ improvedRows ↔ row ∈ rows) ↔ ¬ SharedAncestor edges papers seeds) := by
  rcases exists_distancesOf schedules edges seeds with ⟨lcaBound, distances, exact, loop⟩
  rcases lowest_vertexRows schedule exact oneYear with ⟨rows, found, isLowest⟩
  rcases exists_lcaImproved edges papers seeds improvedSchedules improvedSchedule with
    ⟨improvedBound, improved⟩
  refine ⟨max lcaBound improvedBound, rows, [], fun fuel enough => ⟨?_, ?_⟩, ?_⟩
  · rw [lca_of_distancesOf (loop fuel (by omega)), found]
  · exact improved fuel (by omega)
  · rw [sharedAncestor_iff isLowest, not_not, List.eq_nil_iff_forall_not_mem]
    simp only [List.not_mem_nil, false_iff]

/-- Two papers that share no ancestor. -/
theorem improved_writes_same_apart :
    ∃ bound rows improvedRows,
      (∀ fuel, bound < fuel →
        lca fuel (fun _ => .inOrder) .inOrder [(0, 2), (1, 3)] [(2, 1990)] 2 = some rows ∧
        lcaImproved fuel (fun _ => .inOrder) .inOrder [(0, 2), (1, 3)] [(2, 1990)] 2 =
          some improvedRows) ∧
      ((∀ row, row ∈ improvedRows ↔ row ∈ rows) ↔
        ¬ SharedAncestor [(0, 2), (1, 3)] [(2, 1990)] 2) := by
  apply improved_writes_same_iff
  intro paper year other first second
  simp only [List.mem_cons, Prod.mk.injEq, List.not_mem_nil, or_false] at first second
  rw [first.2, second.2]

/-- Paper 1 cites paper 0: `lca.py` writes paper 0 for the pair, `lca_improved.py`
nothing. -/
theorem improved_misses_ancestor :
    ∃ rows improvedRows, OneYear [(0, 2000)] ∧
      lca 4 (fun _ => .inOrder) .inOrder [(1, 0)] [(0, 2000)] 2 = some rows ∧
      lcaImproved 4 (fun _ => .inOrder) .inOrder [(1, 0)] [(0, 2000)] 2 = some improvedRows ∧
      ¬ ∀ row, row ∈ improvedRows ↔ row ∈ rows := by
  refine ⟨[((0, 1), (0, (1, 2000)))], [], ?_, by decide, by decide, fun same => ?_⟩
  · intro paper year other first second
    simp only [List.mem_cons, Prod.mk.injEq, List.not_mem_nil, or_false] at first second
    rw [first.2, second.2]
  · have member := (same ((0, 1), (0, (1, 2000)))).mpr (List.mem_singleton_self _)
    cases member

end CSE550.Citations
