import CSE550.Trace.ReadBack
import Mathlib.Data.Int.Log
import Mathlib.Data.Rat.Floor

/-!
Owns the totals of `usage.py` followed by `reduce_usage.py`, against one pass over
all records.

The counters of `usage.py` run on from file to file, so that the reports hold
running values, and the merge adds these up.
-/

namespace CSE550.Trace

open CSE550.Lib

variable {numerals : Numerals} {iteration : Table.Iteration Text}

/-! ### The states at which reports are written -/

theorem processLines_append (statistics : Statistics) (first second : List Text) :
    processLines numerals statistics (first ++ second) =
      (processLines numerals statistics first).bind fun next =>
        processLines numerals next second := by
  induction first generalizing statistics with
  | nil => rfl
  | cons line first inductionHypothesis =>
      rw [List.cons_append, processLines_cons, processLines_cons]
      cases readLine numerals line with
      | error fault => rfl
      | ok contribution => exact inductionHypothesis _

theorem tasksProcessed_le_add (statistics : Statistics) (contribution : Option Measured) :
    statistics.tasksProcessed ≤ (statistics.add contribution).tasksProcessed := by
  cases contribution with
  | none => exact le_refl _
  | some measured =>
      show statistics.tasksProcessed ≤ statistics.tasksProcessed + 1
      omega

theorem tasksProcessed_le {statistics last : Statistics} {lines : List Text}
    (run : processLines numerals statistics lines = .ok last) :
    statistics.tasksProcessed ≤ last.tasksProcessed := by
  induction lines generalizing statistics with
  | nil =>
      cases run
      exact le_refl _
  | cons line lines inductionHypothesis =>
      rw [processLines_cons] at run
      rcases exists_of_bind run with ⟨contribution, _, run⟩
      exact le_trans (tasksProcessed_le_add statistics contribution) (inductionHypothesis run)

/-- A report is written only when a task was processed. -/
theorem tasksProcessed_ne_zero {statistics : Statistics} {text : Text}
    (written : report numerals statistics = .ok text) : statistics.tasksProcessed ≠ 0 := by
  unfold report at written
  split at written
  · cases written
  · assumption

/-- What a run of `usage.py` goes through: the state at the end of each file. -/
structure Reported (numerals : Numerals) (statistics : Statistics) (files : List Text)
    (states : List Statistics) (reports : List Text) : Prop where
  written : List.Forall₂ (fun state text => report numerals state = .ok text) states reports
  length : states.length = files.length
  last : processLines numerals statistics (files.flatMap Text.lines) =
    .ok (states.getLastD statistics)
  more : ∀ state ∈ states,
    statistics.tasksProcessed ≤ state.tasksProcessed ∧ state.tasksProcessed ≠ 0

theorem exists_reported {statistics : Statistics} {files reports : List Text}
    (run : usage numerals statistics files = .ok reports) :
    ∃ states, Reported numerals statistics files states reports := by
  induction files generalizing statistics reports with
  | nil =>
      cases run
      exact ⟨[], .nil, rfl, rfl, by simp⟩
  | cons file files inductionHypothesis =>
      rcases exists_of_bind run with ⟨next, processed, run⟩
      rcases exists_of_bind run with ⟨text, written, run⟩
      rcases exists_of_bind run with ⟨texts, rest, run⟩
      cases run
      rcases inductionHypothesis rest with ⟨states, reported⟩
      have more := tasksProcessed_le processed
      refine ⟨next :: states, .cons written reported.written, ?_, ?_, ?_⟩
      · rw [List.length_cons, List.length_cons, reported.length]
      · rw [List.flatMap_cons, processLines_append, processed, List.getLastD_cons]
        exact reported.last
      · rw [List.forall_mem_cons]
        refine ⟨⟨more, tasksProcessed_ne_zero written⟩, fun state member => ?_⟩
        have later := reported.more state member
        exact ⟨le_trans more later.1, later.2⟩

/-! ### What one report adds -/

theorem distinct_reportStats (numerals : Numerals) (statistics : Statistics) :
    ((reportStats numerals statistics).map Prod.fst).Nodup := by
  have names : (reportStats numerals statistics).map Prod.fst =
      [taskProcessedKey, "AGGREGATION TASKS".toList, "TASKS IGNORED".toList] ++
        Histogram.all.flatMap fun histogram => [histogram.averageName, histogram.key] := by
    simp only [reportStats, quantityStats, List.map_append, List.map_flatMap, List.map_cons,
      List.map_nil]
  rw [names]
  decide +kernel

theorem lookup_reportStats {statistics : Statistics} {key : Text} {stat : Stat}
    (member : (key, stat) ∈ reportStats numerals statistics) :
    (Table.insertAll ∅ (reportStats numerals statistics)).lookup key = some stat :=
  Table.lookup_insertAll_eq (distinct_reportStats numerals statistics) member

theorem mem_reportStats_key (statistics : Statistics) (histogram : Histogram) :
    (histogram.key, .dict (readDistribution numerals (statistics.distribution histogram))) ∈
      reportStats numerals statistics := by
  apply List.mem_append_right
  rw [List.mem_flatMap]
  refine ⟨histogram, ?_, by simp [quantityStats]⟩
  cases histogram <;> decide

/-- A counter of the loop and the key it is reported under. -/
structure Counter (numerals : Numerals) (key : Text) (count : Statistics → ℤ) : Prop where
  reported : ∀ statistics, (key, .number (count statistics)) ∈ reportStats numerals statistics
  plain : ¬ IsAverage key

theorem counter_tasksProcessed (numerals : Numerals) :
    Counter numerals taskProcessedKey Statistics.tasksProcessed :=
  ⟨fun statistics => by simp [reportStats], by decide⟩

theorem counter_aggregationTasks (numerals : Numerals) :
    Counter numerals "AGGREGATION TASKS".toList Statistics.aggregationTasks :=
  ⟨fun statistics => by simp [reportStats], by decide⟩

theorem counter_discardedTasks (numerals : Numerals) :
    Counter numerals "TASKS IGNORED".toList Statistics.discardedTasks :=
  ⟨fun statistics => by simp [reportStats], by decide⟩

/-- The running value of a counter; a missing one counts from zero. -/
def runningValue (totals : Table Text Stat) (key : Text) : Stat :=
  ((withTasksKey totals).lookup key).getD (.number 0)

variable {totals result : Table Text Stat} {text key : Text} {statistics : Statistics}
  {count : Statistics → ℤ} {before : ℤ}

/-- A value of a report is combined with the running value of its key. -/
theorem lookup_mergeReport {newStats : Table Text Stat} {stat : Stat}
    (merged : mergeReport numerals iteration totals text = some result)
    (read : readReport numerals text = some newStats) (found : newStats.lookup key = some stat) :
    ∃ entry, mergeStat iteration newStats ((withTasksKey totals).lookup taskProcessedKey) key
      ((withTasksKey totals).lookup key) stat = some entry ∧ result.lookup key = some entry := by
  rw [mergeReport, read] at merged
  exact Table.lookup_merge_of_some merged found

theorem lookup_mergeReport_counter (counter : Counter numerals key count)
    (written : report numerals statistics = .ok text)
    (merged : mergeReport numerals iteration totals text = some result)
    (known : runningValue totals key = .number before) :
    result.lookup key = some (.number (before + count statistics : ℤ)) := by
  rcases lookup_mergeReport merged (readReport_report written)
    (lookup_reportStats (counter.reported statistics)) with ⟨stat, combined, found⟩
  rw [mergeStat, show ((withTasksKey totals).lookup key).getD (.number 0) = .number (before : ℚ)
    from known] at combined
  simp only [counter.plain, if_false, Option.some_inj] at combined
  rw [found, ← combined, Int.cast_add]

theorem runningValue_of_lookup {stat : Stat} (found : totals.lookup key = some stat)
    (present : taskProcessedKey ∈ totals) : runningValue totals key = stat := by
  rw [runningValue, withTasksKey, if_pos present, found, Option.getD_some]

/-- After a report, the key of the number of tasks is there. -/
theorem withTasksKey_mergeReport (written : report numerals statistics = .ok text)
    (merged : mergeReport numerals iteration totals text = some result) :
    withTasksKey result = result := by
  rcases lookup_mergeReport merged (readReport_report written)
    (lookup_reportStats ((counter_tasksProcessed numerals).reported statistics)) with
    ⟨stat, _, found⟩
  rw [withTasksKey, if_pos (Table.mem_of_lookup found)]

/-! ### What all reports add -/

/-- A counter summed over the states. -/
def sumOf (count : Statistics → ℤ) : List Statistics → ℤ
  | [] => 0
  | state :: rest => count state + sumOf count rest

/-- The merged value of a counter is the sum of the reported ones. -/
theorem runningValue_reduceUsage (counter : Counter numerals key count) {states : List Statistics}
    {reports : List Text}
    (written : List.Forall₂ (fun state text => report numerals state = .ok text) states reports)
    (merged : reduceUsage numerals iteration totals reports = some result)
    (known : runningValue totals key = .number before) :
    runningValue result key = .number (before + sumOf count states : ℤ) := by
  induction written generalizing totals before with
  | nil =>
      cases merged
      rw [known, sumOf, add_zero]
  | @cons state text states reports first rest inductionHypothesis =>
      rw [reduceUsage] at merged
      cases one : mergeReport numerals iteration totals text with
      | none => simp [one] at merged
      | some next =>
          rw [one] at merged
          have value := lookup_mergeReport_counter counter first one known
          have running : runningValue next key = .number (before + count state : ℤ) := by
            rw [runningValue, withTasksKey_mergeReport first one, value]
            rfl
          rw [inductionHypothesis merged running, sumOf, add_assoc]

theorem runningValue_empty (key : Text) : runningValue ∅ key = .number (0 : ℤ) := by
  unfold runningValue withTasksKey
  rw [if_neg (AList.notMem_empty _)]
  by_cases same : key = taskProcessedKey
  · rw [same, AList.lookup_insert]
    simp
  · rw [AList.lookup_insert_ne same]
    simp

/-- Where every count is positive, the sum exceeds the last count unless it is the only one. -/
theorem last_lt_sumOf {states : List Statistics} {first : Statistics}
    (positive : ∀ state ∈ first :: states, 0 < count state) :
    count (states.getLastD first) ≤ sumOf count (first :: states) ∧
      (states ≠ [] → count (states.getLastD first) < sumOf count (first :: states)) := by
  induction states generalizing first with
  | nil => simp [sumOf]
  | cons second states inductionHypothesis =>
      rw [List.forall_mem_cons] at positive
      have smaller := (inductionHypothesis positive.2).1
      have ahead := positive.1
      rw [List.getLastD_cons, sumOf]
      exact ⟨by omega, fun _ => by omega⟩

/-! ### The histograms of one file -/

/-- The bucket of a line that is counted. -/
def bucketOf (numerals : Numerals) (histogram : Histogram) (line : Text) : Option Bucket :=
  match readLine numerals line with
  | .ok (some measured) => some (measured.bucket histogram)
  | _ => none

/-- The buckets of the records of a file. -/
def bucketsOf (numerals : Numerals) (histogram : Histogram) (file : Text) : List Bucket :=
  (Text.lines file).filterMap (bucketOf numerals histogram)

theorem distribution_add (statistics : Statistics) (measured : Measured) (histogram : Histogram) :
    (statistics.add (some measured)).distribution histogram =
      (statistics.distribution histogram).bump (measured.bucket histogram) := by
  cases histogram <;> rfl

theorem distribution_discard (statistics : Statistics) (histogram : Histogram) :
    (statistics.add none).distribution histogram = statistics.distribution histogram := by
  cases histogram <;> rfl

/-- Every record is counted in its bucket. -/
theorem distribution_processLines {last : Statistics} {lines : List Text}
    (run : processLines numerals statistics lines = .ok last) (histogram : Histogram) :
    last.distribution histogram = (statistics.distribution histogram).tally
      (lines.filterMap (bucketOf numerals histogram)) := by
  induction lines generalizing statistics with
  | nil =>
      cases run
      rfl
  | cons line lines inductionHypothesis =>
      rw [processLines_cons] at run
      rcases exists_of_bind run with ⟨contribution, read, run⟩
      rw [inductionHypothesis run]
      cases contribution with
      | none =>
          have skipped : bucketOf numerals histogram line = none := by rw [bucketOf, read]
          rw [List.filterMap_cons_none skipped, distribution_discard]
      | some measured =>
          have counted : bucketOf numerals histogram line = some (measured.bucket histogram) := by
            rw [bucketOf, read]
          rw [List.filterMap_cons_some counted, distribution_add, Counts.tally_cons]

/-- Buckets that print alike have the same count. -/
def Spread (numerals : Numerals) (distribution : Counts Bucket) : Prop :=
  ∀ left ∈ distribution, ∀ right ∈ distribution,
    numerals.bucketText left = numerals.bucketText right →
      distribution.lookup left = distribution.lookup right

/-- A dictionary has the printed buckets with their counts. -/
def Shows (numerals : Numerals) (counts : Table Text ℚ) (distribution : Counts Bucket) : Prop :=
  ∀ label value, counts.lookup label = some value ↔
    ∃ key count, distribution.lookup key = some count ∧ numerals.bucketText key = label ∧
      value = (count : ℚ)

theorem mem_rows {distribution : Counts Bucket} {label : Text} {value : ℚ} :
    (label, value) ∈ (distribution.keys.insertionSort Bucket.le).map
        (bucketRow numerals distribution) ↔
      ∃ key count, distribution.lookup key = some count ∧ numerals.bucketText key = label ∧
        value = (count : ℚ) := by
  rw [List.mem_map]
  constructor
  · rintro ⟨key, member, same⟩
    rw [List.mem_insertionSort, ← AList.mem_keys] at member
    rcases Table.mem_iff_lookup.mp member with ⟨count, found⟩
    cases same
    exact ⟨key, count, found, rfl, by rw [found, Option.getD_some]⟩
  · rintro ⟨key, count, found, rfl, rfl⟩
    refine ⟨key, ?_, by rw [bucketRow, found, Option.getD_some]⟩
    rw [List.mem_insertionSort, ← AList.mem_keys]
    exact Table.mem_of_lookup found

/-- The parser has all buckets with their counts when those that print alike agree. -/
theorem shows_readDistribution_iff (distribution : Counts Bucket) :
    Shows numerals (readDistribution numerals distribution) distribution ↔
      Spread numerals distribution := by
  constructor
  · intro shown left inLeft right inRight alike
    rcases Table.mem_iff_lookup.mp inLeft with ⟨first, foundLeft⟩
    rcases Table.mem_iff_lookup.mp inRight with ⟨second, foundRight⟩
    have one := (shown _ _).mpr ⟨left, first, foundLeft, rfl, rfl⟩
    have other := (shown _ _).mpr ⟨right, second, foundRight, rfl, rfl⟩
    rw [alike, other, Option.some_inj, Rat.intCast_inj] at one
    rw [foundLeft, foundRight, one]
  · intro spread label value
    rw [← mem_rows]
    constructor
    · exact Table.mem_of_lookup_insertAll
    · intro member
      have written : label ∈ ((distribution.keys.insertionSort Bucket.le).map
          (bucketRow numerals distribution)).map Prod.fst := List.mem_map_of_mem member
      rcases @Table.lookup_insertAll_of_mem _ _ _ ∅ _ _ written with ⟨entry, inside, lookup⟩
      rcases mem_rows.mp member with ⟨key, count, found, rfl, rfl⟩
      rcases mem_rows.mp inside with ⟨other, otherCount, otherFound, alike, rfl⟩
      have same := spread other (Table.mem_of_lookup otherFound) key (Table.mem_of_lookup found)
        alike
      rw [found, otherFound, Option.some_inj] at same
      rw [readDistribution, lookup, same]

/-- Buckets of a file that print alike have as many records. -/
def PrintsApart (numerals : Numerals) (file : Text) : Prop :=
  ∀ histogram, ∀ left ∈ bucketsOf numerals histogram file,
    ∀ right ∈ bucketsOf numerals histogram file,
      numerals.bucketText left = numerals.bucketText right →
        (bucketsOf numerals histogram file).count left =
          (bucketsOf numerals histogram file).count right

theorem spread_iff {last : Statistics} {file : Text}
    (run : processLines numerals {} (Text.lines file) = .ok last) :
    (∀ histogram, Spread numerals (last.distribution histogram)) ↔ PrintsApart numerals file := by
  refine forall_congr' fun histogram => ?_
  have tallied : last.distribution histogram =
      Counts.tally ∅ (bucketsOf numerals histogram file) := by
    rw [distribution_processLines run, bucketsOf]
    cases histogram <;> rfl
  have member (key : Bucket) : key ∈ last.distribution histogram ↔
      key ∈ bucketsOf numerals histogram file := by
    rw [tallied, Counts.mem_tally, or_iff_left (AList.notMem_empty key)]
  have lookup {key : Bucket} (inside : key ∈ bucketsOf numerals histogram file) :
      (last.distribution histogram).lookup key =
        some ((bucketsOf numerals histogram file).count key : ℤ) := by
    rw [tallied, Counts.lookup_tally_of_mem _ inside, AList.lookup_empty, Option.getD_none,
      zero_add]
  simp only [Spread, member]
  refine forall₂_congr fun left inLeft => forall₃_congr fun right inRight alike => ?_
  rw [lookup inLeft, lookup inRight, Option.some_inj, Int.natCast_inj]

/-! ### Merging the first report -/

theorem lookup_withTasksKey_empty {key : Text} (other : key ≠ taskProcessedKey) :
    (withTasksKey ∅).lookup key = none := by
  rw [withTasksKey, if_neg (AList.notMem_empty _), AList.lookup_insert_ne other, AList.lookup_empty]

theorem key_ne_taskProcessedKey (histogram : Histogram) : histogram.key ≠ taskProcessedKey := by
  cases histogram <;> decide

/-- Items added to an empty dictionary. -/
theorem exists_merge_addItem (running counts : Table Text ℚ) :
    ∃ sums, running.merge iteration addItem counts = some sums :=
  Table.exists_merge fun _ _ _ => ⟨_, rfl⟩

theorem lookup_merge_addItem {counts sums : Table Text ℚ}
    (merged : Table.merge iteration addItem ∅ counts = some sums) (label : Text) :
    sums.lookup label = counts.lookup label := by
  cases found : counts.lookup label with
  | none => rw [Table.lookup_merge_of_none merged found, AList.lookup_empty]
  | some value =>
      rcases Table.lookup_merge_of_some merged found with ⟨sum, combined, lookup⟩
      rw [lookup, ← combined, AList.lookup_empty]
      rfl

theorem mergeStat_new_dict {newStats : Table Text Stat} {oldNumTasks : Option Stat} {key : Text}
    (counts : Table Text ℚ) :
    mergeStat iteration newStats oldNumTasks key none (.dict counts) =
      (Table.merge iteration addItem ∅ counts).map .dict := rfl

/-- The first report is merged without an exception. -/
theorem exists_mergeReport_empty (written : report numerals statistics = .ok text) :
    ∃ result, mergeReport numerals iteration ∅ text = some result := by
  have tasks : (statistics.tasksProcessed : ℚ) ≠ 0 := by
    rw [Ne, Rat.intCast_eq_zero_iff]
    exact tasksProcessed_ne_zero written
  have newTasks := lookup_reportStats ((counter_tasksProcessed numerals).reported statistics)
  have oldTasks : (withTasksKey ∅).lookup taskProcessedKey = some (.number 0) := by
    rw [withTasksKey, if_neg (AList.notMem_empty _), AList.lookup_insert]
  rw [mergeReport, readReport_report written]
  refine Table.exists_merge fun key stat found => ?_
  cases stat with
  | number value =>
      have known := runningValue_empty key
      unfold runningValue at known
      unfold mergeStat
      rw [known]
      by_cases average : IsAverage key
      · simp [average, oldTasks, newTasks, tasks]
      · simp [average]
  | dict counts =>
      have member := Table.mem_of_lookup_insertAll found
      simp only [reportStats, quantityStats, List.mem_append, List.mem_cons, List.mem_flatMap,
        List.not_mem_nil, or_false, Prod.mk.injEq, reduceCtorEq, and_false, false_or] at member
      rcases member with ⟨histogram, _, rfl, _⟩
      rcases @exists_merge_addItem iteration ∅ counts with ⟨sums, merged⟩
      rw [lookup_withTasksKey_empty (key_ne_taskProcessedKey histogram), mergeStat_new_dict, merged]
      exact ⟨_, rfl⟩

theorem lookup_mergeReport_key (written : report numerals statistics = .ok text)
    (merged : mergeReport numerals iteration ∅ text = some result) (histogram : Histogram) :
    ∃ counts, result.lookup histogram.key = some (.dict counts) ∧
      ∀ label, counts.lookup label =
        (readDistribution numerals (statistics.distribution histogram)).lookup label := by
  rcases lookup_mergeReport merged (readReport_report written)
    (lookup_reportStats (mem_reportStats_key statistics histogram)) with ⟨stat, combined, found⟩
  rcases @exists_merge_addItem iteration ∅
    (readDistribution numerals (statistics.distribution histogram)) with ⟨sums, added⟩
  rw [lookup_withTasksKey_empty (key_ne_taskProcessedKey histogram), mergeStat_new_dict, added,
    Option.map_some, Option.some_inj] at combined
  exact ⟨sums, by rw [found, ← combined], lookup_merge_addItem added⟩

/-! ### Agreement with one pass -/

/-- The merged values are those of one pass over all records. -/
structure Agrees (numerals : Numerals) (merged : Table Text Stat) (total : Statistics) : Prop where
  tasksProcessed : merged.lookup "TOTAL TASKS PROCESSED".toList =
    some (.number total.tasksProcessed)
  aggregationTasks : merged.lookup "AGGREGATION TASKS".toList =
    some (.number total.aggregationTasks)
  tasksIgnored : merged.lookup "TASKS IGNORED".toList = some (.number total.discardedTasks)
  buckets : ∀ histogram, ∃ counts, merged.lookup histogram.key = some (.dict counts) ∧
    Shows numerals counts (total.distribution histogram)

theorem agrees_one_report_iff (written : report numerals statistics = .ok text)
    (merged : mergeReport numerals iteration ∅ text = some result) :
    Agrees numerals result statistics ↔
      ∀ histogram, Spread numerals (statistics.distribution histogram) := by
  have counted {key : Text} {count : Statistics → ℤ} (counter : Counter numerals key count) :
      result.lookup key = some (.number (count statistics)) := by
    rw [lookup_mergeReport_counter counter written merged (runningValue_empty key), zero_add]
  constructor
  · intro agrees histogram
    rcases agrees.buckets histogram with ⟨counts, found, shown⟩
    rcases lookup_mergeReport_key written merged histogram with ⟨other, lookup, same⟩
    rw [found, Option.some_inj, Stat.dict.injEq] at lookup
    subst lookup
    rw [← shows_readDistribution_iff]
    intro label value
    rw [← same label]
    exact shown label value
  · intro spread
    refine ⟨counted (counter_tasksProcessed numerals), counted (counter_aggregationTasks numerals),
      counted (counter_discardedTasks numerals), fun histogram => ?_⟩
    rcases lookup_mergeReport_key written merged histogram with ⟨counts, lookup, same⟩
    refine ⟨counts, lookup, fun label value => ?_⟩
    rw [same label]
    exact (shows_readDistribution_iff _).mpr (spread histogram) label value

/-- The first file has a record that is not discarded. -/
def FirstAccepted (files : List Text) : Prop :=
  ∃ file ∈ files.head?, ∃ line ∈ Text.lines file, ¬ Discarded line

/-- With a second file, the number of tasks comes out too high. -/
theorem length_eq_one_of_agrees {files reports : List Text} {merged : Table Text Stat}
    {total : Statistics} (nonempty : files ≠ []) (run : usage numerals {} files = .ok reports)
    (reduced : reduceUsage numerals iteration ∅ reports = some merged)
    (single : singlePass numerals files = .ok total) (agrees : Agrees numerals merged total) :
    files.length = 1 := by
  rcases exists_reported run with ⟨states, written, length, last, more⟩
  rw [← length]
  cases states with
  | nil => exact absurd (List.length_eq_zero_iff.mp length.symm) nonempty
  | cons first states =>
      rw [List.getLastD_cons] at last
      rw [singlePass, last, Except.ok.injEq] at single
      subst single
      have positive : ∀ state ∈ first :: states, 0 < state.tasksProcessed := by
        intro state member
        have notLess : 0 ≤ state.tasksProcessed := (more state member).1
        have nonzero := (more state member).2
        omega
      have summed := runningValue_reduceUsage (counter_tasksProcessed numerals) written reduced
        (runningValue_empty taskProcessedKey)
      have counted : merged.lookup taskProcessedKey =
          some (.number (states.getLastD first).tasksProcessed) := agrees.tasksProcessed
      rw [runningValue_of_lookup counted (Table.mem_of_lookup counted), Stat.number.injEq,
        Rat.intCast_inj, zero_add] at summed
      have alone : states = [] := by
        by_contra others
        exact absurd summed ((last_lt_sumOf positive).2 others).ne
      rw [alone, List.length_singleton]

/-- The run over one file. -/
theorem exists_of_usage_singleton {file : Text} {reports : List Text}
    (run : usage numerals {} [file] = .ok reports) :
    ∃ last text, processLines numerals {} (Text.lines file) = .ok last ∧
      report numerals last = .ok text ∧ reports = [text] := by
  rcases exists_reported run with ⟨states, written, length, last, _⟩
  rcases List.length_eq_one_iff.mp length with ⟨state, rfl⟩
  cases written with
  | cons one rest =>
      cases rest
      simp only [List.flatMap_cons, List.flatMap_nil, List.append_nil] at last
      exact ⟨state, _, last, one, rfl⟩

/-- The reduced reports have the values of one pass over all records if and only
if there is one file, and its buckets that print alike have as many records. -/
theorem merged_totals_agree_iff (numerals : Numerals) (iteration : Table.Iteration Text)
    (files reports : List Text) (accepted : FirstAccepted files)
    (run : usage numerals {} files = .ok reports) :
    (∃ merged total, reduceUsage numerals iteration ∅ reports = some merged ∧
        singlePass numerals files = .ok total ∧ Agrees numerals merged total) ↔
      files.length = 1 ∧ ∀ file ∈ files, PrintsApart numerals file := by
  have nonempty : files ≠ [] := by
    rintro rfl
    rcases accepted with ⟨file, member, _⟩
    cases member
  have oneFile (file : Text) (run : usage numerals {} [file] = .ok reports) :
      (∃ merged total, reduceUsage numerals iteration ∅ reports = some merged ∧
          singlePass numerals [file] = .ok total ∧ Agrees numerals merged total) ↔
        PrintsApart numerals file := by
    rcases exists_of_usage_singleton run with ⟨last, text, processed, written, rfl⟩
    rcases @exists_mergeReport_empty numerals iteration text last written with ⟨result, merged⟩
    have reduced : reduceUsage numerals iteration ∅ [text] = some result := by
      rw [reduceUsage, merged]
      rfl
    have single : singlePass numerals [file] = .ok last := by
      rwa [singlePass, List.flatMap_cons, List.flatMap_nil, List.append_nil]
    rw [← spread_iff processed, ← agrees_one_report_iff written merged, reduced, single]
    simp
  constructor
  · rintro ⟨merged, total, reduced, single, agrees⟩
    have length := length_eq_one_of_agrees nonempty run reduced single agrees
    rcases List.length_eq_one_iff.mp length with ⟨file, rfl⟩
    refine ⟨rfl, fun other member => ?_⟩
    rw [List.mem_singleton.mp member]
    exact (oneFile file run).mp ⟨merged, total, reduced, single, agrees⟩
  · rintro ⟨length, apart⟩
    rcases List.length_eq_one_iff.mp length with ⟨file, rfl⟩
    exact (oneFile file run).mpr (apart file (List.mem_singleton.mpr rfl))

/-- Numbers printed in decimal, on an exact logarithmic scale. -/
def Numerals.decimal : Numerals where
  floatText := Text.decimalText
  readFloat := Text.readDecimal
  floorLog := Int.log 10
  floatText_ne_nil := Text.decimalText_ne_nil
  floatText_clean := by
    intro number char member separator
    have other : ∀ char ∈ [',', '\n', '\t', ' '],
        char.isDigit = false ∧ char ≠ '.' ∧ char ≠ '-' := by simp
    rcases Text.mem_decimalText member with digit | point | sign
    · rw [(other char separator).1] at digit
      cases digit
    · exact (other char separator).2.1 point
    · exact (other char separator).2.2 sign
  readFloat_floatText := Text.exists_readDecimal
  readFloat_intText := Text.readDecimal_intText
  readFloat_blank := Text.readDecimal_blank

/-- One record: thirty seconds at half a core, without any disk access. -/
def halfCore : Text := "0,30,1,0,1,0.5,0,0,0,0,0,0,0,0.5,0,1,0,1,0\n".toList

theorem lines_halfCore : Text.lines halfCore = [halfCore] := by decide

theorem accepted_halfCore (rest : List Text) : FirstAccepted (halfCore :: rest) :=
  ⟨halfCore, rfl, halfCore, by rw [lines_halfCore]; exact List.mem_singleton.mpr rfl, by decide⟩

/-- Three records in two buckets of most histograms, and a line that is discarded. -/
def threeTasks : Text :=
  halfCore ++ "0,4000,1,1,1,0.25,0,0,0,0,0,2,80,0.5,0,2,300,1,1\n".toList ++
    "40,,1,2,1,0.5,0,0,0,0,0,0,0,0.5,0,1,0,1,0\n".toList ++ halfCore

theorem bucketsOf_threeTasks (histogram : Histogram) :
    bucketsOf Numerals.decimal histogram threeTasks =
      match histogram with
      | .duration | .ispc => [.number 1, .number 3, .number 1]
      | .cpuRate => [.number (1 / 2), .number (1 / 4), .number (1 / 2)]
      | .diskIo => [.inf, .number (-4), .inf]
      | .diskSpace => [.inf, .number 1, .inf]
      | .mai => [.inf, .number 2, .inf] := by
  cases histogram <;> decide +kernel

theorem merged_totals_agree_one_file :
    ∃ reports merged total, usage Numerals.decimal {} [threeTasks] = .ok reports ∧
      reduceUsage Numerals.decimal .inOrder ∅ reports = some merged ∧
      singlePass Numerals.decimal [threeTasks] = .ok total ∧
      Agrees Numerals.decimal merged total := by
  have ends : (usage Numerals.decimal {} [threeTasks]).isOk = true := by decide +kernel
  rcases exists_of_isOk ends with ⟨reports, run⟩
  have accepted : FirstAccepted [threeTasks] := by
    refine ⟨threeTasks, rfl, halfCore, ?_, by decide⟩
    decide +kernel
  have apart : PrintsApart Numerals.decimal threeTasks := by
    intro histogram
    rw [bucketsOf_threeTasks]
    cases histogram <;> decide +kernel
  have agrees := (merged_totals_agree_iff Numerals.decimal .inOrder [threeTasks] reports
    accepted run).mpr ⟨rfl, fun file member => by rw [List.mem_singleton.mp member]; exact apart⟩
  rcases agrees with ⟨merged, total, reduced, single, agrees⟩
  exact ⟨reports, merged, total, run, reduced, single, agrees⟩

/-- With two files of one record each, the merged values are not those of one pass. -/
theorem two_files_disagree :
    ∃ reports, FirstAccepted [halfCore, halfCore] ∧
      usage Numerals.decimal {} [halfCore, halfCore] = .ok reports ∧
      ¬ ∃ merged total, reduceUsage Numerals.decimal .inOrder ∅ reports = some merged ∧
        singlePass Numerals.decimal [halfCore, halfCore] = .ok total ∧
        Agrees Numerals.decimal merged total := by
  have ends : (usage Numerals.decimal {} [halfCore, halfCore]).isOk = true := by decide +kernel
  rcases exists_of_isOk ends with ⟨reports, run⟩
  refine ⟨reports, accepted_halfCore _, run, ?_⟩
  rintro ⟨merged, total, reduced, single, agrees⟩
  exact absurd (length_eq_one_of_agrees (by simp) run reduced single agrees) (by decide)

end CSE550.Trace
