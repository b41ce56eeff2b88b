import CSE550.Trace.Averages
import Mathlib.Data.List.ReduceOption

/-!
Owns the totals of `reduce_usage.py` over the reports of `usage.py`, whatever the order
of the files and of the entries of each dictionary.

Every entry is a sum over the reports, or a mean weighted by their numbers of tasks.
-/

namespace CSE550.Trace

open CSE550.Lib

variable {numerals : Numerals}

/-! ### Totals that say the same -/

/-- The same number, or dictionaries with the same entries. -/
def Stat.Same : Stat → Stat → Prop
  | .number left, .number right => left = right
  | .dict left, .dict right => ∀ label, left.lookup label = right.lookup label
  | _, _ => False

/-- The same keys with the same values. -/
def SameTotals (left right : Table Text Stat) : Prop :=
  ∀ key, Option.Rel Stat.Same (left.lookup key) (right.lookup key)

/-- The sum of the values there are. -/
def optionSum (values : List (Option ℚ)) : Option ℚ :=
  if values.reduceOption = [] then none else some values.reduceOption.sum

theorem optionSum_perm {left right : List (Option ℚ)} (perm : left.Perm right) :
    optionSum left = optionSum right := by
  have given : left.reduceOption.Perm right.reduceOption := perm.filterMap id
  have empty : left.reduceOption = [] ↔ right.reduceOption = [] := by
    constructor
    · intro nothing
      rw [nothing] at given
      exact given.nil_eq.symm
    · intro nothing
      rw [nothing] at given
      exact given.eq_nil
  simp only [optionSum, empty, given.sum_eq]

/-- One more value is added as an item is. -/
theorem optionSum_concat (values : List (Option ℚ)) (value : ℚ) (label : Text) :
    optionSum (values ++ [some value]) = addItem label (optionSum values) value := by
  have split : (values ++ [some value]).reduceOption = values.reduceOption ++ [value] := by
    rw [List.reduceOption_append]
    rfl
  rw [optionSum, split, if_neg (by simp), List.sum_append, optionSum]
  split
  · rename_i nothing
    simp [addItem, nothing]
  · simp [addItem]

theorem optionSum_concat_none (values : List (Option ℚ)) :
    optionSum (values ++ [none]) = optionSum values := by
  have split : (values ++ [none]).reduceOption = values.reduceOption := by
    rw [List.reduceOption_append]
    simp
  rw [optionSum, split, optionSum]

/-! ### One more report -/

section Merge

variable {iteration : Table.Iteration Text} {totals merged : Table Text Stat} {text key : Text}

theorem lookup_withTasksKey (other : key ≠ taskProcessedKey) :
    (withTasksKey totals).lookup key = totals.lookup key := by
  unfold withTasksKey
  split
  · rfl
  · exact AList.lookup_insert_ne other

/-- What a report has under a key. -/
def Reports (numerals : Numerals) (key text : Text) (stat : Stat) : Prop :=
  ∃ newStats, readReport numerals text = some newStats ∧ newStats.lookup key = some stat

/-- The running number of a key. -/
structure Summed (key : Text) (totals : Table Text Stat) (values : List ℚ) : Prop where
  value : runningValue totals key = .number values.sum
  present : values ≠ [] → totals.lookup key = some (.number values.sum)

/-- The running dictionary of a key. -/
structure Gathered (key : Text) (totals : Table Text Stat) (dicts : List (Table Text ℚ)) :
    Prop where
  value : ∃ sums, (totals.lookup key).getD (.dict ∅) = .dict sums ∧
    ∀ label, sums.lookup label = optionSum (dicts.map fun counts => counts.lookup label)
  present : dicts ≠ [] → key ∈ totals

/-- The key of the tasks is there after every report that has it. -/
theorem tasksKey_of_merge {tasks : Stat} (reports : Reports numerals taskProcessedKey text tasks)
    (done : mergeReport numerals iteration totals text = some merged) :
    taskProcessedKey ∈ merged := by
  obtain ⟨newStats, read, found⟩ := reports
  obtain ⟨entry, _, lookup⟩ := lookup_mergeReport done read found
  exact Table.mem_of_lookup lookup

theorem Summed.merge {values : List ℚ} {value : ℚ} {tasks : Stat} (summed : Summed key totals values)
    (plain : ¬ IsAverage key) (tasked : Reports numerals taskProcessedKey text tasks)
    (reports : Reports numerals key text (.number value))
    (done : mergeReport numerals iteration totals text = some merged) :
    Summed key merged (values ++ [value]) := by
  obtain ⟨newStats, read, found⟩ := reports
  obtain ⟨entry, combined, lookup⟩ := lookup_mergeReport done read found
  have known : ((withTasksKey totals).lookup key).getD (.number 0) = .number values.sum :=
    summed.value
  rw [mergeStat, known] at combined
  simp only [plain, if_false, Option.some_inj] at combined
  have sum : (values ++ [value]).sum = values.sum + value := by
    rw [List.sum_append, List.sum_singleton]
  rw [← combined] at lookup
  rw [← sum] at lookup
  exact ⟨runningValue_of_lookup lookup (tasksKey_of_merge tasked done), fun _ => lookup⟩

theorem Gathered.merge {dicts : List (Table Text ℚ)} {counts : Table Text ℚ}
    (gathered : Gathered key totals dicts) (other : key ≠ taskProcessedKey)
    (reports : Reports numerals key text (.dict counts))
    (done : mergeReport numerals iteration totals text = some merged) :
    Gathered key merged (dicts ++ [counts]) := by
  obtain ⟨newStats, read, found⟩ := reports
  obtain ⟨entry, combined, lookup⟩ := lookup_mergeReport done read found
  obtain ⟨running, known, adds⟩ := gathered.value
  obtain ⟨sums, added⟩ := @exists_merge_addItem iteration running counts
  rw [lookup_withTasksKey other] at combined
  simp only [mergeStat, known, added, Option.map_some, Option.some_inj] at combined
  refine ⟨⟨sums, by rw [lookup, ← combined]; rfl, fun label => ?_⟩,
    fun _ => Table.mem_of_lookup lookup⟩
  rw [List.map_append, List.map_singleton]
  cases given : counts.lookup label with
  | none =>
      rw [Table.lookup_merge_of_none added given, adds, optionSum_concat_none]
  | some value =>
      obtain ⟨sum, combines, sumFound⟩ := Table.lookup_merge_of_some added given
      rw [sumFound, ← combines, adds, optionSum_concat _ _ label]

/-- A key that no report has. -/
theorem absent_merge {newStats : Table Text Stat} (absent : totals.lookup key = none)
    (other : key ≠ taskProcessedKey) (read : readReport numerals text = some newStats)
    (without : newStats.lookup key = none)
    (done : mergeReport numerals iteration totals text = some merged) :
    merged.lookup key = none := by
  rw [mergeReport, read] at done
  rw [Table.lookup_merge_of_none done without, lookup_withTasksKey other]
  exact absent

/-- What every report adds to is added to by all of them. -/
theorem reduce_keeps {Item : Type} {carries : Text → Item → Prop}
    {holds : Table Text Stat → List Item → Prop}
    (step : ∀ totals before iteration text item merged, holds totals before → carries text item →
      mergeReport numerals iteration totals text = some merged → holds merged (before ++ [item]))
    {reports : List (Table.Iteration Text × Text)} {items : List Item}
    (given : List.Forall₂ (fun report item => carries report.2 item) reports items)
    (start : holds totals []) (reduced : reduceInOrders numerals totals reports = some merged) :
    holds merged items := by
  have more : ∀ before totals, holds totals before →
      reduceInOrders numerals totals reports = some merged → holds merged (before ++ items) := by
    clear start reduced
    induction given with
    | nil =>
        intro before totals start reduced
        cases reduced
        rwa [List.append_nil]
    | @cons report item reports items first rest inductionHypothesis =>
        intro before totals start reduced
        rw [reduceInOrders] at reduced
        cases one : mergeReport numerals report.1 totals report.2 with
        | none => simp [one] at reduced
        | some next =>
            rw [one] at reduced
            have later := inductionHypothesis _ _ (step _ _ _ _ _ _ start first one) reduced
            rwa [List.append_assoc, List.singleton_append] at later
  exact more [] totals start reduced

end Merge

/-! ### The reports of `usage.py` -/

/-- Some run of `usage.py` writes the report. -/
def Written (numerals : Numerals) (text : Text) : Prop :=
  ∃ files reports, usage numerals {} files = .ok reports ∧ text ∈ reports

/-- A report that is written is one of at least one task. -/
theorem Written.statistics {text : Text} (written : Written numerals text) :
    ∃ statistics, report numerals statistics = .ok text ∧ 0 < statistics.tasksProcessed := by
  obtain ⟨files, reports, run, member⟩ := written
  obtain ⟨states, reported⟩ := exists_reported run
  obtain ⟨state, inStates, holds⟩ : ∃ state ∈ states, report numerals state = .ok text := by
    have pairs := reported.written
    clear reported run
    induction pairs with
    | nil => cases member
    | @cons state other states others first rest inductionHypothesis =>
        rcases List.mem_cons.mp member with rfl | later
        · exact ⟨state, List.mem_cons_self, first⟩
        · obtain ⟨found, inside, holds⟩ := inductionHypothesis later
          exact ⟨found, List.mem_cons_of_mem _ inside, holds⟩
  have more := reported.more state inStates
  have atLeast : (0 : ℤ) ≤ state.tasksProcessed := more.1
  exact ⟨state, holds, lt_of_le_of_ne atLeast (Ne.symm more.2)⟩

/-- The keys of the counters. -/
def counterKeys : List Text :=
  [taskProcessedKey, "AGGREGATION TASKS".toList, "TASKS IGNORED".toList]

theorem counter_plain {key : Text} (counts : key ∈ counterKeys) : ¬ IsAverage key := by
  have all : ∀ known ∈ counterKeys, ¬ IsAverage known := by decide
  exact all key counts

theorem average_averageName (histogram : Histogram) : IsAverage histogram.averageName := by
  cases histogram <;> decide +kernel

/-- The number a report has under a key. -/
def numberOf (numerals : Numerals) (key text : Text) : ℚ :=
  match (readReport numerals text).bind fun newStats => newStats.lookup key with
  | some (.number value) => value
  | _ => 0

/-- The dictionary a report has under a key. -/
def dictOf (numerals : Numerals) (key text : Text) : Table Text ℚ :=
  match (readReport numerals text).bind fun newStats => newStats.lookup key with
  | some (.dict counts) => counts
  | _ => ∅

theorem Reports.numberOf {key text : Text} {value : ℚ}
    (reports : Reports numerals key text (.number value)) : numberOf numerals key text = value := by
  obtain ⟨newStats, read, found⟩ := reports
  simp [Trace.numberOf, read, found]

theorem Reports.dictOf {key text : Text} {counts : Table Text ℚ}
    (reports : Reports numerals key text (.dict counts)) : dictOf numerals key text = counts := by
  obtain ⟨newStats, read, found⟩ := reports
  simp [Trace.dictOf, read, found]

section Written

variable {text : Text}

theorem reports_of_report {statistics : Statistics} (written : report numerals statistics = .ok text)
    {key : Text} {stat : Stat} (member : (key, stat) ∈ reportStats numerals statistics) :
    Reports numerals key text stat :=
  ⟨_, readReport_report written, lookup_reportStats member⟩

/-- Each counter is reported. -/
theorem Written.counter (written : Written numerals text) {key : Text}
    (counts : key ∈ counterKeys) :
    Reports numerals key text (.number (numberOf numerals key text)) := by
  obtain ⟨statistics, report, _⟩ := written.statistics
  have reported : ∃ value : ℚ, Reports numerals key text (.number value) := by
    simp only [counterKeys, List.mem_cons, List.not_mem_nil, or_false] at counts
    rcases counts with rfl | rfl | rfl
    · exact ⟨_, reports_of_report report ((counter_tasksProcessed numerals).reported statistics)⟩
    · exact ⟨_, reports_of_report report ((counter_aggregationTasks numerals).reported statistics)⟩
    · exact ⟨_, reports_of_report report ((counter_discardedTasks numerals).reported statistics)⟩
  obtain ⟨value, holds⟩ := reported
  rwa [holds.numberOf]

theorem Written.tasks_pos (written : Written numerals text) :
    0 < numberOf numerals taskProcessedKey text := by
  obtain ⟨statistics, report, positive⟩ := written.statistics
  have holds := reports_of_report report ((counter_tasksProcessed numerals).reported statistics)
  rw [holds.numberOf]
  exact_mod_cast positive

/-- Each average and each histogram is reported. -/
theorem mem_quantityStats (statistics : Statistics) (histogram : Histogram) {key : Text}
    {stat : Stat} (member : (key, stat) ∈ quantityStats numerals statistics histogram) :
    (key, stat) ∈ reportStats numerals statistics := by
  apply List.mem_append_right
  rw [List.mem_flatMap]
  refine ⟨histogram, ?_, member⟩
  cases histogram <;> decide

theorem Written.average (written : Written numerals text) (histogram : Histogram) :
    Reports numerals histogram.averageName text
      (.number (numberOf numerals histogram.averageName text)) := by
  obtain ⟨statistics, report, _⟩ := written.statistics
  have member : (histogram.averageName, .number (readAverage numerals statistics histogram)) ∈
      quantityStats numerals statistics histogram := by
    simp [quantityStats]
  have holds := reports_of_report report (mem_quantityStats statistics histogram member)
  rwa [holds.numberOf]

theorem Written.histogram (written : Written numerals text) (histogram : Histogram) :
    Reports numerals histogram.key text (.dict (dictOf numerals histogram.key text)) := by
  obtain ⟨statistics, report, _⟩ := written.statistics
  have holds := reports_of_report report (mem_reportStats_key statistics histogram)
  rwa [holds.dictOf]

/-- The labels of a histogram are printed buckets. -/
theorem Written.labels (written : Written numerals text) (histogram : Histogram) :
    ∀ label ∈ dictOf numerals histogram.key text, Printed label := by
  obtain ⟨statistics, report, _⟩ := written.statistics
  have holds := reports_of_report report (mem_reportStats_key statistics histogram)
  intro label present
  rw [holds.dictOf] at present
  obtain ⟨number, found⟩ := Table.mem_iff_lookup.mp present
  obtain ⟨bucket, _, same⟩ := List.mem_map.mp (Table.mem_of_lookup_insertAll found)
  rw [← (Prod.mk.inj same).1]
  exact printed_bucketText numerals bucket

/-- The keys of the dictionaries. -/
def DictKey (key : Text) : Prop := ∃ histogram : Histogram, key = histogram.key

/-- The keys of a report. -/
def ReportKey (key : Text) : Prop :=
  key ∈ counterKeys ∨ (∃ histogram : Histogram, key = histogram.averageName) ∨ DictKey key

theorem Written.reads (written : Written numerals text) :
    ∃ newStats, readReport numerals text = some newStats ∧ Kinds DictKey newStats ∧
      ∀ key, newStats.lookup key ≠ none → ReportKey key := by
  obtain ⟨statistics, report, _⟩ := written.statistics
  have entries (key : Text) (stat : Stat)
      (found : (Table.insertAll ∅ (reportStats numerals statistics)).lookup key = some stat) :
      (key ∈ counterKeys ∨ ∃ other : Histogram, key = other.averageName) ∧
          (∃ value, stat = .number value) ∨
        DictKey key ∧ ∃ counts, stat = .dict counts := by
    have member := Table.mem_of_lookup_insertAll found
    simp only [reportStats, quantityStats, List.mem_append, List.mem_cons, List.mem_flatMap,
      List.not_mem_nil, or_false, Prod.mk.injEq] at member
    rcases member with (⟨rfl, rfl⟩ | ⟨rfl, rfl⟩ | ⟨rfl, rfl⟩) |
      ⟨histogram, _, ⟨rfl, rfl⟩ | ⟨rfl, rfl⟩⟩
    · exact .inl ⟨.inl (by simp [counterKeys]), _, rfl⟩
    · exact .inl ⟨.inl (by simp [counterKeys]), _, rfl⟩
    · exact .inl ⟨.inl (by simp [counterKeys]), _, rfl⟩
    · exact .inl ⟨.inr ⟨histogram, rfl⟩, _, rfl⟩
    · exact .inr ⟨⟨histogram, rfl⟩, _, rfl⟩
  refine ⟨_, readReport_report report, fun key stat found => ?_, fun key present => ?_⟩
  · rcases entries key stat found with ⟨number, value, rfl⟩ | ⟨isDict, counts, rfl⟩
    · refine iff_of_false (by simp) ?_
      rintro ⟨histogram, rfl⟩
      have isDict := lookup_reportStats (@mem_reportStats_key numerals statistics histogram)
      cases found.symm.trans isDict
    · exact iff_of_true ⟨counts, rfl⟩ isDict
  · obtain ⟨stat, found⟩ := Option.ne_none_iff_exists'.mp present
    rcases entries key stat found with ⟨counter | average, _⟩ | ⟨isDict, _⟩
    · exact .inl counter
    · exact .inr (.inl average)
    · exact .inr (.inr isDict)

end Written

/-- A text with the entries of a report. -/
structure ReportLike (numerals : Numerals) (text : Text) : Prop where
  counter : ∀ key ∈ counterKeys, Reports numerals key text (.number (numberOf numerals key text))
  average : ∀ histogram : Histogram, Reports numerals histogram.averageName text
    (.number (numberOf numerals histogram.averageName text))
  histogram : ∀ histogram : Histogram, Reports numerals histogram.key text
    (.dict (dictOf numerals histogram.key text))
  labels : ∀ histogram : Histogram, ∀ label ∈ dictOf numerals histogram.key text, Printed label
  tasks_pos : 0 < numberOf numerals taskProcessedKey text
  reads : ∃ newStats, readReport numerals text = some newStats ∧ Kinds DictKey newStats ∧
    ∀ key, newStats.lookup key ≠ none → ReportKey key

theorem Written.reportLike {text : Text} (written : Written numerals text) :
    ReportLike numerals text :=
  ⟨fun _ => written.counter, written.average, written.histogram, written.labels, written.tasks_pos,
    written.reads⟩

/-! ### The totals -/

/-- What the totals hold of a list of reports. -/
structure Totalled (numerals : Numerals) (texts : List Text) (totals : Table Text Stat) : Prop where
  counter : ∀ key ∈ counterKeys,
    totals.lookup key = some (.number (texts.map (numberOf numerals key)).sum)
  average : ∀ histogram : Histogram, totals.lookup histogram.averageName = some (.number
    ((texts.map fun text => numberOf numerals taskProcessedKey text *
      numberOf numerals histogram.averageName text).sum /
        (texts.map (numberOf numerals taskProcessedKey)).sum))
  histogram : ∀ histogram : Histogram, ∃ sums, totals.lookup histogram.key = some (.dict sums) ∧
    ∀ label, sums.lookup label = optionSum
      (texts.map fun text => (dictOf numerals histogram.key text).lookup label)
  nothingElse : ∀ key, ¬ ReportKey key → totals.lookup key = none

section Totals

variable {reports : List (Table.Iteration Text × Text)} {totals : Table Text Stat}

/-- The texts with what each of them has. -/
theorem carries_map {Item : Type} (carries : Text → Item → Prop) (item : Text → Item)
    (given : ∀ report ∈ reports, carries report.2 (item report.2)) :
    List.Forall₂ (fun report item => carries report.2 item) reports
      ((reports.map Prod.snd).map item) := by
  rw [List.map_map, List.forall₂_map_right_iff, List.forall₂_same]
  exact given

/-- The points of an average. -/
theorem carries_average (like : ∀ report ∈ reports, ReportLike numerals report.2)
    (histogram : Histogram) :
    List.Forall₂ (fun report point => Carries numerals histogram.averageName report.2 point) reports
      ((reports.map Prod.snd).map fun text =>
        (numberOf numerals taskProcessedKey text, numberOf numerals histogram.averageName text)) := by
  apply carries_map fun text point => Carries numerals histogram.averageName text point
  intro report member
  obtain ⟨newStats, read, tasks⟩ := (like report member).counter _ List.mem_cons_self
  obtain ⟨other, readAgain, value⟩ := (like report member).average histogram
  obtain rfl : newStats = other := Option.some.inj (read.symm.trans readAgain)
  exact ⟨newStats, read, tasks, value⟩

/-- The reduced reports. -/
theorem totalled_of_reduce (nonempty : reports ≠ [])
    (like : ∀ report ∈ reports, ReportLike numerals report.2)
    (reduced : reduceInOrders numerals ∅ reports = some totals) :
    Totalled numerals (reports.map Prod.snd) totals := by
  have someText : reports.map Prod.snd ≠ [] := by simpa using nonempty
  refine ⟨fun key counts => ?_, fun histogram => ?_, fun histogram => ?_, fun key other => ?_⟩
  · have given := carries_map
      (fun text value => ReportLike numerals text ∧ value = numberOf numerals key text)
      (numberOf numerals key) fun report member => ⟨like report member, rfl⟩
    have start : Summed key ∅ [] := ⟨by simp [runningValue_empty], fun some => absurd rfl some⟩
    have summed := reduce_keeps
      (fun totals before iteration text value merged (summed : Summed key totals before)
        (holds : ReportLike numerals text ∧ value = numberOf numerals key text) done =>
          summed.merge (counter_plain counts) (holds.1.counter _ List.mem_cons_self)
            (holds.2 ▸ holds.1.counter key counts) done) given start reduced
    apply summed.present
    simpa using someText
  · have averaged := (merged_averages_weighted (average_averageName histogram) nonempty
      (carries_average like histogram) ?_).1 totals reduced
    · rw [averaged]
      simp only [List.map_map]
      rfl
    · intro point member
      obtain ⟨text, inTexts, rfl⟩ := List.mem_map.mp member
      obtain ⟨report, inReports, rfl⟩ := List.mem_map.mp inTexts
      exact (like report inReports).tasks_pos
  · have given := carries_map
      (fun text counts => ReportLike numerals text ∧ counts = dictOf numerals histogram.key text)
      (dictOf numerals histogram.key) fun report member => ⟨like report member, rfl⟩
    have start : Gathered histogram.key ∅ [] :=
      ⟨⟨∅, rfl, fun label => rfl⟩, fun some => absurd rfl some⟩
    have gathered := reduce_keeps
      (fun totals before iteration text value merged
        (gathered : Gathered histogram.key totals before)
        (holds : ReportLike numerals text ∧ value = dictOf numerals histogram.key text) done =>
          gathered.merge (key_ne_taskProcessedKey histogram)
            (holds.2 ▸ holds.1.histogram histogram) done) given start reduced
    obtain ⟨sums, value, adds⟩ := gathered.value
    obtain ⟨stat, found⟩ := Table.mem_iff_lookup.mp (gathered.present (by simpa using someText))
    rw [found, Option.getD_some] at value
    refine ⟨sums, by rw [found, value], fun label => ?_⟩
    rw [adds, List.map_map]
    rfl
  · have notTasks : key ≠ taskProcessedKey := fun same =>
      other (.inl (same ▸ List.mem_cons_self))
    have given := carries_map (fun text (_ : Text) => ReportLike numerals text) id like
    have absent := reduce_keeps
      (fun totals (before : List Text) iteration text _ merged
        (absent : totals.lookup key = none) (like : ReportLike numerals text) done => by
          obtain ⟨newStats, read, _, keys⟩ := like.reads
          exact absent_merge absent notTasks read (not_not.mp fun found => other (keys key found))
            done) given (AList.lookup_empty key) reduced
    exact absent

/-- The totals are those of the reports in any order. -/
theorem Totalled.same {texts others : List Text} {left right : Table Text Stat}
    (first : Totalled numerals texts left) (second : Totalled numerals others right)
    (perm : texts.Perm others) : SameTotals left right := by
  have sum (value : Text → ℚ) : (texts.map value).sum = (others.map value).sum :=
    (perm.map value).sum_eq
  intro key
  by_cases reported : ReportKey key
  · rcases reported with counts | ⟨histogram, rfl⟩ | ⟨histogram, rfl⟩
    · rw [first.counter key counts, second.counter key counts, sum]
      exact .some rfl
    · rw [first.average histogram, second.average histogram, sum, sum]
      exact .some rfl
    · obtain ⟨sums, found, adds⟩ := first.histogram histogram
      obtain ⟨others, otherFound, otherAdds⟩ := second.histogram histogram
      rw [found, otherFound]
      apply Option.Rel.some
      intro label
      rw [adds, otherAdds]
      exact optionSum_perm (perm.map _)
  · rw [first.nothingElse key reported, second.nothingElse key reported]
    exact .none

/-- Reports that are written are reduced without an exception. -/
theorem exists_totals (nonempty : reports ≠ [])
    (like : ∀ report ∈ reports, ReportLike numerals report.2) :
    ∃ totals, reduceInOrders numerals ∅ reports = some totals := by
  apply (merged_averages_weighted (average_averageName .duration) nonempty
    (carries_average like .duration) ?_).2
  · refine ⟨DictKey, fun text member newStats read => ?_⟩
    obtain ⟨report, inReports, rfl⟩ := List.mem_map.mp member
    obtain ⟨known, readAgain, kinds, _⟩ := (like report inReports).reads
    obtain rfl : known = newStats := Option.some.inj (readAgain.symm.trans read)
    exact kinds
  · intro point member
    obtain ⟨text, inTexts, rfl⟩ := List.mem_map.mp member
    obtain ⟨report, inReports, rfl⟩ := List.mem_map.mp inTexts
    exact (like report inReports).tasks_pos

end Totals

/-- Reports of `usage.py`, from one run or several, are reduced without an exception, and
to the same totals in every order of the files and of the entries of each dictionary. -/
theorem totals_in_any_order {first second : List (Table.Iteration Text × Text)}
    (perm : (first.map Prod.snd).Perm (second.map Prod.snd))
    (written : ∀ report ∈ first, Written numerals report.2) :
    ∃ left right, reduceInOrders numerals ∅ first = some left ∧
      reduceInOrders numerals ∅ second = some right ∧ SameTotals left right := by
  have like : ∀ report ∈ first, ReportLike numerals report.2 := fun report member =>
    (written report member).reportLike
  have likeToo : ∀ report ∈ second, ReportLike numerals report.2 := by
    intro report member
    have inFirst := perm.mem_iff.mpr (List.mem_map_of_mem member)
    obtain ⟨other, inside, same⟩ := List.mem_map.mp inFirst
    exact same ▸ like other inside
  by_cases nothing : first = []
  · subst nothing
    obtain rfl : second = [] := List.map_eq_nil_iff.mp perm.nil_eq.symm
    exact ⟨∅, ∅, rfl, rfl, fun key => by rw [AList.lookup_empty]; exact .none⟩
  · have nonempty : second ≠ [] := by
      rintro rfl
      exact nothing (List.map_eq_nil_iff.mp perm.eq_nil)
    obtain ⟨left, leftReduced⟩ := exists_totals nothing like
    obtain ⟨right, rightReduced⟩ := exists_totals nonempty likeToo
    exact ⟨left, right, leftReduced, rightReduced,
      (totalled_of_reduce nothing like leftReduced).same
        (totalled_of_reduce nonempty likeToo rightReduced) perm⟩

/-- The two reports of one run over two files, forwards and backwards. -/
theorem totals_in_any_order_two : ∃ reports left right,
    usage Numerals.decimal {} [halfCore, halfCore] = .ok reports ∧
      reduceInOrders Numerals.decimal ∅ (reports.map fun text => (.inOrder, text)) = some left ∧
      reduceInOrders Numerals.decimal ∅ (reports.reverse.map fun text => (backwards, text)) =
        some right ∧ SameTotals left right := by
  have ends : (usage Numerals.decimal {} [halfCore, halfCore]).isOk = true := by decide +kernel
  obtain ⟨reports, run⟩ := exists_of_isOk ends
  have texts (iteration : Table.Iteration Text) (reports : List Text) :
      (reports.map fun text => (iteration, text)).map Prod.snd = reports := by
    simp
  obtain ⟨left, right, forwards, inReverse, same⟩ := @totals_in_any_order Numerals.decimal
    (reports.map fun text => (.inOrder, text)) (reports.reverse.map fun text => (backwards, text))
    (by rw [texts, texts]; exact reports.reverse_perm.symm)
    (by
      intro report member
      obtain ⟨text, inside, rfl⟩ := List.mem_map.mp member
      exact ⟨_, reports, run, inside⟩)
  exact ⟨reports, left, right, run, forwards, inReverse, same⟩

end CSE550.Trace
