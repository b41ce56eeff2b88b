import CSE550.Lib.Means
import CSE550.Trace.Totals

/-!
Owns the averages that `reduce_usage.py` ends with: means of the reported values,
weighted by the reported numbers of tasks.

The dictionary of each report is gone through in an order of its own.
-/

namespace CSE550.Trace

open CSE550.Lib

variable {numerals : Numerals}

/-- The loop over the reports, with the order of each report's dictionary. -/
def reduceInOrders (numerals : Numerals) (statistics : Table Text Stat) :
    List (Table.Iteration Text × Text) → Option (Table Text Stat)
  | [] => some statistics
  | (iteration, text) :: rest =>
      match mergeReport numerals iteration statistics text with
      | none => none
      | some next => reduceInOrders numerals next rest

/-- With one order for all, this is the loop of the program. -/
theorem reduceInOrders_same (iteration : Table.Iteration Text) (statistics : Table Text Stat)
    (texts : List Text) :
    reduceInOrders numerals statistics (texts.map fun text => (iteration, text)) =
      reduceUsage numerals iteration statistics texts := by
  induction texts generalizing statistics with
  | nil => rfl
  | cons text texts inductionHypothesis =>
      rw [List.map_cons, reduceInOrders, reduceUsage]
      cases mergeReport numerals iteration statistics text with
      | none => rfl
      | some next => exact inductionHypothesis next

/-- The report has the number of tasks and, for the key, the value. -/
def Carries (numerals : Numerals) (key text : Text) (point : ℚ × ℚ) : Prop :=
  ∃ newStats, readReport numerals text = some newStats ∧
    newStats.lookup taskProcessedKey = some (.number point.1) ∧
    newStats.lookup key = some (.number point.2)

/-- The totals hold the number of tasks and the mean of the points so far. -/
structure Averaged (totals : Table Text Stat) (key : Text) (points : List (ℚ × ℚ)) : Prop where
  tasks : runningValue totals taskProcessedKey = .number (Means.totalWeight points)
  value : runningValue totals key = .number (Means.weightedMean points)

section Merge

variable {iteration : Table.Iteration Text} {totals result newStats : Table Text Stat}
  {key text : Text} {points : List (ℚ × ℚ)} {point : ℚ × ℚ}

/-- The loop body makes sure of the number of tasks. -/
theorem lookup_tasks {weight : ℚ}
    (tasks : runningValue totals taskProcessedKey = .number weight) :
    (withTasksKey totals).lookup taskProcessedKey = some (.number weight) := by
  have present : taskProcessedKey ∈ withTasksKey totals := by
    unfold withTasksKey
    split
    · assumption
    · exact (AList.mem_insert _).mpr (.inl rfl)
  rcases Table.mem_iff_lookup.mp present with ⟨stat, found⟩
  rw [runningValue, found, Option.getD_some] at tasks
  rw [found, tasks]

theorem not_isAverage_taskProcessedKey : ¬ IsAverage taskProcessedKey := by decide

/-- One more report adds its tasks, and its value to the mean. -/
theorem Averaged.merge (averaged : Averaged totals key points) (average : IsAverage key)
    (weighty : points = [] ∨ Means.totalWeight points ≠ 0)
    (carries : Carries numerals key text point)
    (merged : mergeReport numerals iteration totals text = some result) :
    Averaged result key (points ++ [point]) ∧ taskProcessedKey ∈ result ∧ key ∈ result := by
  rcases carries with ⟨newStats, read, tasks, value⟩
  have oldTasks := lookup_tasks averaged.tasks
  rcases lookup_mergeReport merged read tasks with ⟨newCount, counted, foundCount⟩
  rcases lookup_mergeReport merged read value with ⟨newMean, meant, foundMean⟩
  have present := Table.mem_of_lookup foundCount
  have running : ((withTasksKey totals).lookup key).getD (.number 0) =
      .number (Means.weightedMean points) := averaged.value
  refine ⟨⟨?_, ?_⟩, present, Table.mem_of_lookup foundMean⟩
  · rw [mergeStat, oldTasks, Option.getD_some] at counted
    simp only [not_isAverage_taskProcessedKey, if_false, Option.some_inj] at counted
    rw [runningValue_of_lookup foundCount present, ← counted, Means.totalWeight_concat]
  · rw [mergeStat, running] at meant
    simp only [average, if_true, oldTasks, tasks, Option.ite_none_left_eq_some,
      Option.some_inj] at meant
    rw [runningValue_of_lookup foundMean present, ← meant.2,
      Means.weightedMean_concat point weighty]

end Merge

/-! ### Kinds of values -/

/-- The keys with dictionaries. -/
def Kinds (dictKeys : Text → Prop) (table : Table Text Stat) : Prop :=
  ∀ key stat, table.lookup key = some stat → ((∃ counts, stat = .dict counts) ↔ dictKeys key)

/-- A key that is a dictionary in one report is one in all of them. -/
def KindsAgree (numerals : Numerals) (texts : List Text) : Prop :=
  ∃ dictKeys : Text → Prop, ∀ text ∈ texts, ∀ newStats, readReport numerals text = some newStats →
    Kinds dictKeys newStats

section Kinds

variable {iteration : Table.Iteration Text} {totals result newStats : Table Text Stat}
  {text : Text} {dictKeys : Text → Prop}

/-- A number and a dictionary never meet, so the kind of a key stays. -/
theorem exists_mergeStat {oldNumTasks : Option Stat} {oldTasks newTasks : ℚ} {key : Text}
    {known : Option Stat} {stat : Stat} (isOld : oldNumTasks = some (.number oldTasks))
    (isNew : newStats.lookup taskProcessedKey = some (.number newTasks))
    (nonzero : oldTasks + newTasks ≠ 0)
    (knownKind : ∀ before ∈ known, (∃ counts, before = .dict counts) ↔ dictKeys key)
    (kind : (∃ counts, stat = .dict counts) ↔ dictKeys key) :
    ∃ merged, mergeStat iteration newStats oldNumTasks key known stat = some merged ∧
      ((∃ counts, merged = .dict counts) ↔ dictKeys key) := by
  cases stat with
  | dict counts =>
      have isDict : dictKeys key := kind.mp ⟨counts, rfl⟩
      have running : ∃ running, known.getD (.dict ∅) = .dict running := by
        cases known with
        | none => exact ⟨∅, rfl⟩
        | some before => exact (knownKind before rfl).mpr isDict
      rcases running with ⟨running, same⟩
      rcases @exists_merge_addItem iteration running counts with ⟨sums, merged⟩
      refine ⟨.dict sums, ?_, iff_of_true ⟨sums, rfl⟩ isDict⟩
      simp [mergeStat, same, merged]
  | number value =>
      have notDict : ¬ dictKeys key := fun isDict => by
        rcases kind.mpr isDict with ⟨counts, same⟩
        cases same
      have running : ∃ running, known.getD (.number 0) = .number running := by
        cases known with
        | none => exact ⟨0, rfl⟩
        | some before =>
            cases before with
            | dict counts => exact absurd ((knownKind _ rfl).mp ⟨counts, rfl⟩) notDict
            | number running => exact ⟨running, rfl⟩
      rcases running with ⟨running, same⟩
      by_cases average : IsAverage key
      · refine ⟨.number ((running * oldTasks + newTasks * value) / (oldTasks + newTasks)), ?_,
          iff_of_false (by simp) notDict⟩
        simp [mergeStat, same, average, isOld, isNew, nonzero]
      · refine ⟨.number (running + value), ?_, iff_of_false (by simp) notDict⟩
        simp [mergeStat, same, average]

/-- A report of the same kinds is merged without an exception. -/
theorem exists_mergeReport {oldTasks newTasks : ℚ} (read : readReport numerals text = some newStats)
    (old : runningValue totals taskProcessedKey = .number oldTasks)
    (new : newStats.lookup taskProcessedKey = some (.number newTasks))
    (nonzero : oldTasks + newTasks ≠ 0) (kinds : Kinds dictKeys totals)
    (newKinds : Kinds dictKeys newStats) :
    ∃ result, mergeReport numerals iteration totals text = some result ∧
      Kinds dictKeys result := by
  have withKey : Kinds dictKeys (withTasksKey totals) := by
    unfold withTasksKey
    split
    · exact kinds
    · intro key stat found
      by_cases same : key = taskProcessedKey
      · subst same
        rw [AList.lookup_insert, Option.some_inj] at found
        rw [← newKinds _ _ new, ← found]
        simp
      · rw [AList.lookup_insert_ne same] at found
        exact kinds key stat found
  have combines : ∀ key stat, newStats.lookup key = some stat →
      ∃ merged, mergeStat iteration newStats ((withTasksKey totals).lookup taskProcessedKey) key
        ((withTasksKey totals).lookup key) stat = some merged ∧
        ((∃ counts, merged = .dict counts) ↔ dictKeys key) := by
    intro key stat found
    refine exists_mergeStat (lookup_tasks old) new nonzero ?_ (newKinds key stat found)
    intro before known
    exact withKey key before known
  rw [mergeReport, read]
  rcases Table.exists_merge (fun key stat found =>
    (combines key stat found).imp fun _ holds => holds.1) with ⟨result, merged⟩
  refine ⟨result, merged, fun key stat found => ?_⟩
  cases inReport : newStats.lookup key with
  | none =>
      rw [Table.lookup_merge_of_none merged inReport] at found
      exact withKey key stat found
  | some added =>
      rcases Table.lookup_merge_of_some merged inReport with ⟨entry, combined, lookup⟩
      rcases combines key added inReport with ⟨other, same, kind⟩
      rw [combined, Option.some_inj] at same
      rw [lookup, Option.some_inj] at found
      rwa [← found, same]

end Kinds

/-! ### The loop over the reports -/

/-- The points so far can be weighed, and the next ones are positive. -/
theorem totalWeight_concat_pos {points : List (ℚ × ℚ)} {point : ℚ × ℚ}
    (weighty : points = [] ∨ 0 < Means.totalWeight points) (positive : 0 < point.1) :
    0 < Means.totalWeight (points ++ [point]) := by
  rw [Means.totalWeight_concat]
  rcases weighty with rfl | before
  · simpa using positive
  · exact add_pos before positive

section Loop

variable {key : Text}

theorem Averaged.reduce (average : IsAverage key) {totals merged : Table Text Stat}
    {before points : List (ℚ × ℚ)} {reports : List (Table.Iteration Text × Text)}
    (averaged : Averaged totals key before)
    (weighty : before = [] ∨ 0 < Means.totalWeight before)
    (carries : List.Forall₂ (fun report point => Carries numerals key report.2 point) reports
      points)
    (positive : ∀ point ∈ points, 0 < point.1)
    (reduced : reduceInOrders numerals totals reports = some merged) :
    Averaged merged key (before ++ points) ∧
      (reports ≠ [] → taskProcessedKey ∈ merged ∧ key ∈ merged) := by
  induction carries generalizing totals before with
  | nil =>
      cases reduced
      rw [List.append_nil]
      exact ⟨averaged, fun some => absurd rfl some⟩
  | @cons report point reports points first rest inductionHypothesis =>
      rcases List.forall_mem_cons.mp positive with ⟨pointPositive, restPositive⟩
      rw [reduceInOrders] at reduced
      cases one : mergeReport numerals report.1 totals report.2 with
      | none => simp [one] at reduced
      | some next =>
          rw [one] at reduced
          rcases averaged.merge average (weighty.imp_right ne_of_gt) first one with
            ⟨nextAveraged, tasksThere, keyThere⟩
          have later := inductionHypothesis nextAveraged
            (.inr (totalWeight_concat_pos weighty pointPositive)) restPositive reduced
          rw [List.append_assoc, List.singleton_append] at later
          refine ⟨later.1, fun _ => ?_⟩
          cases rest with
          | nil =>
              cases reduced
              exact ⟨tasksThere, keyThere⟩
          | cons _ _ => exact later.2 (List.cons_ne_nil _ _)

theorem exists_reduceInOrders {dictKeys : Text → Prop} (average : IsAverage key)
    {totals : Table Text Stat} {before points : List (ℚ × ℚ)}
    {reports : List (Table.Iteration Text × Text)} (averaged : Averaged totals key before)
    (weighty : before = [] ∨ 0 < Means.totalWeight before)
    (carries : List.Forall₂ (fun report point => Carries numerals key report.2 point) reports
      points)
    (positive : ∀ point ∈ points, 0 < point.1) (kinds : Kinds dictKeys totals)
    (newKinds : ∀ report ∈ reports, ∀ newStats, readReport numerals report.2 = some newStats →
      Kinds dictKeys newStats) :
    ∃ merged, reduceInOrders numerals totals reports = some merged := by
  induction carries generalizing totals before with
  | nil => exact ⟨totals, rfl⟩
  | @cons report point reports points first rest inductionHypothesis =>
      rcases List.forall_mem_cons.mp positive with ⟨pointPositive, restPositive⟩
      rcases List.forall_mem_cons.mp newKinds with ⟨reportKinds, restKinds⟩
      rcases first with ⟨newStats, read, tasks, value⟩
      have weight := totalWeight_concat_pos weighty pointPositive
      rcases @exists_mergeReport numerals report.1 totals newStats report.2 dictKeys _ _ read
        averaged.tasks tasks (by rw [← Means.totalWeight_concat]; exact ne_of_gt weight) kinds
        (reportKinds newStats read) with ⟨next, one, nextKinds⟩
      rcases averaged.merge average (weighty.imp_right ne_of_gt) ⟨newStats, read, tasks, value⟩ one
        with ⟨nextAveraged, _⟩
      rw [reduceInOrders, one]
      exact inductionHypothesis nextAveraged (.inr weight) restPositive nextKinds restKinds

/-- Whatever the orders, the value of an average is the mean of the reported values,
weighted by the reported numbers of tasks; where the kinds of values agree the program
ends with it. -/
theorem merged_averages_weighted (average : IsAverage key)
    {reports : List (Table.Iteration Text × Text)} {points : List (ℚ × ℚ)}
    (nonempty : reports ≠ [])
    (carries : List.Forall₂ (fun report point => Carries numerals key report.2 point) reports
      points)
    (positive : ∀ point ∈ points, 0 < point.1) :
    (∀ merged, reduceInOrders numerals ∅ reports = some merged →
      merged.lookup key = some (.number
        ((points.map fun point => point.1 * point.2).sum / (points.map Prod.fst).sum))) ∧
    (KindsAgree numerals (reports.map Prod.snd) →
      ∃ merged, reduceInOrders numerals ∅ reports = some merged) := by
  have start : Averaged ∅ key [] := by
    refine ⟨?_, ?_⟩
    · rw [runningValue_empty]
      simp
    · rw [runningValue_empty]
      simp
  refine ⟨fun merged reduced => ?_, fun agree => ?_⟩
  · rcases start.reduce average (.inl rfl) carries positive reduced with ⟨averaged, there⟩
    rcases there nonempty with ⟨tasksThere, keyThere⟩
    rcases Table.mem_iff_lookup.mp keyThere with ⟨stat, found⟩
    have value := averaged.value
    rw [runningValue_of_lookup found tasksThere, List.nil_append] at value
    rw [found, value]
    rfl
  · rcases agree with ⟨dictKeys, kinds⟩
    have none : Kinds dictKeys ∅ := fun _ _ found => by simp at found
    exact exists_reduceInOrders average start (.inl rfl) carries positive none
      fun report member => kinds report.2 (List.mem_map_of_mem member)

end Loop

/-- The order opposite to the one in which the entries are kept. -/
def backwards : Table.Iteration Text where
  items := fun table => table.pairs.reverse
  perm := fun table => table.pairs.reverse_perm

/-- The number of tasks is the first value of this report, -/
def tasksFirst : Text := "TOTAL TASKS PROCESSED, 1\n\nAVERAGE DISK SPACE USAGE, 4\n".toList

/-- and the last one of this. -/
def tasksLast : Text := "AVERAGE DISK SPACE USAGE, 2\n\nTOTAL TASKS PROCESSED, 3\n".toList

theorem readReport_tasksFirst : readReport Numerals.decimal tasksFirst = some (Table.insertAll ∅
    [(taskProcessedKey, .number 1), (Histogram.diskSpace.averageName, .number 4)]) := by
  with_unfolding_all rfl

theorem readReport_tasksLast : readReport Numerals.decimal tasksLast = some (Table.insertAll ∅
    [(Histogram.diskSpace.averageName, .number 2), (taskProcessedKey, .number 3)]) := by
  with_unfolding_all rfl

/-- A report of numbers alone has no dictionaries. -/
theorem kinds_of_numbers {rows : List (Text × Stat)}
    (numbers : ∀ row ∈ rows, ∃ value, row.2 = .number value) :
    Kinds (fun _ => False) (Table.insertAll ∅ rows) := by
  intro key stat found
  rcases numbers _ (Table.mem_of_lookup_insertAll found) with ⟨value, same⟩
  have number : stat = .number value := same
  simp [number]

/-- The entries of a table come with the newest first: the first two reports merge their
average before their number of tasks, and the last one after it. -/
theorem merged_averages_weighted_three :
    ∃ merged, reduceInOrders Numerals.decimal ∅
        [(.inOrder, tasksFirst), (backwards, tasksLast), (.inOrder, tasksLast)] = some merged ∧
      merged.lookup Histogram.diskSpace.averageName = some (.number (16 / 7)) := by
  have merges := @merged_averages_weighted Numerals.decimal Histogram.diskSpace.averageName
    (by decide) [(.inOrder, tasksFirst), (backwards, tasksLast), (.inOrder, tasksLast)]
    [(1, 4), (3, 2), (3, 2)] (by simp)
    (.cons ⟨_, readReport_tasksFirst, rfl, rfl⟩ (.cons ⟨_, readReport_tasksLast, rfl, rfl⟩
      (.cons ⟨_, readReport_tasksLast, rfl, rfl⟩ .nil)))
    (by simp)
  have agree : KindsAgree Numerals.decimal [tasksFirst, tasksLast, tasksLast] := by
    refine ⟨fun _ => False, fun text member newStats read => ?_⟩
    simp only [List.mem_cons, List.not_mem_nil, or_false, or_self] at member
    rcases member with rfl | rfl
    · rw [readReport_tasksFirst, Option.some_inj] at read
      rw [← read]
      exact kinds_of_numbers (by simp)
    · rw [readReport_tasksLast, Option.some_inj] at read
      rw [← read]
      exact kinds_of_numbers (by simp)
  rcases merges.2 agree with ⟨merged, reduced⟩
  refine ⟨merged, reduced, ?_⟩
  rw [merges.1 merged reduced]
  norm_num

end CSE550.Trace
