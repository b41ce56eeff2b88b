import CSE550.Trace.Orders
import Mathlib.Algebra.Order.BigOperators.Group.List
import Mathlib.Data.Char
import Mathlib.Data.List.Lex

/-!
Owns the file of totals that `reduce_usage.py` writes: the parser of the reports reads it
back, so that totals of some reports can be reduced again with others.

A dictionary is written with its labels sorted. Numbers come back as they were printed.
-/

namespace CSE550.Trace

open CSE550.Lib

variable {numerals : Numerals}

/-! ### The code -/

/-- The lines for one key of `STATISTICS`. -/
def statLines (numerals : Numerals) (key : Text) : Stat → List Text
  | .number value => [[], key ++ ',' :: numerals.floatText value]
  | .dict counts =>
      [[], key ++ [',']] ++
        (counts.keys.insertionSort (· ≤ ·)).map (fun label =>
          label ++ ',' :: numerals.floatText ((counts.lookup label).getD 0)) ++ [[]]

/-- The result file. -/
def totalsText (numerals : Numerals) (iteration : Table.Iteration Text)
    (totals : Table Text Stat) : Text :=
  ((iteration.items totals).flatMap fun entry => statLines numerals entry.1 entry.2).flatMap
    fun line => line ++ ['\n']

/-! ### Reading the totals -/

/-- A number as it comes back. -/
def reread (numerals : Numerals) (number : ℚ) : ℚ :=
  (numerals.readFloat (numerals.floatText number)).getD 0

theorem readFloat_reread (numerals : Numerals) (number : ℚ) :
    numerals.readFloat (numerals.floatText number) = some (reread numerals number) := by
  obtain ⟨value, found⟩ := numerals.readFloat_floatText number
  rw [reread, found]
  rfl

/-- The labels of a dictionary in the order of the file, with what comes back. -/
def rereadRows (numerals : Numerals) (counts : Table Text ℚ) : List (Text × ℚ) :=
  (counts.keys.insertionSort (· ≤ ·)).map fun label =>
    (label, reread numerals ((counts.lookup label).getD 0))

/-- A value as it comes back. -/
def Stat.reread (numerals : Numerals) : Stat → Stat
  | .number value => .number (Trace.reread numerals value)
  | .dict counts => .dict (Table.insertAll ∅ (rereadRows numerals counts))

/-- A key that can be written on a line. -/
structure Titled (key : Text) : Prop where
  name : Name key
  oneLine : '\n' ∉ key

/-- The keys and labels can be written. -/
structure Writable (totals : Table Text Stat) : Prop where
  keys : ∀ key ∈ totals, Titled key
  labels : ∀ key counts, totals.lookup key = some (.dict counts) → ∀ label ∈ counts, Printed label

section Reading

variable {stats : Table Text Stat} {field key : Text}

theorem scanLine_pair (titled : Titled key) (number : ℚ) :
    scanLine numerals ⟨stats, []⟩ ((key ++ ',' :: numerals.floatText number) ++ ['\n']) =
      some ⟨stats.insert key (.number (reread numerals number)), []⟩ := by
  have printed := printed_floatText numerals number
  have parts := @split_line key [] _ titled.name printed (by simp)
  rw [List.nil_append] at parts
  unfold scanLine
  rw [parts]
  simp only [Text.strip_bare printed.bare, ne_eq, printed.nonempty, not_false_eq_true, and_true,
    if_true, readFloat_reread, Option.map_some]

theorem scanLines_rows (heading : Name field) (value : Text → ℚ) (labels : List Text)
    (printed : ∀ label ∈ labels, Printed label) (counts : Table Text ℚ) :
    scanLines numerals ⟨stats.insert field (.dict counts), field⟩
        (labels.map fun label => (label ++ ',' :: numerals.floatText (value label)) ++ ['\n']) =
      some ⟨stats.insert field (.dict (counts.insertAll (labels.map fun label =>
        (label, reread numerals (value label))))), field⟩ := by
  induction labels generalizing counts with
  | nil => rfl
  | cons label labels inductionHypothesis =>
      obtain ⟨first, others⟩ := List.forall_mem_cons.mp printed
      have scanned := @scanLine_entry numerals stats field _ _ counts _ heading first
        (printed_floatText numerals (value label)) (readFloat_reread numerals (value label))
      rw [List.map_cons, scanLines_cons scanned, inductionHypothesis others]
      rfl

/-- The lines for a key are read as its value, and leave no section open. -/
theorem scanLines_statLines (titled : Titled key) {stat : Stat}
    (labels : ∀ counts, stat = .dict counts → ∀ label ∈ counts, Printed label) :
    scanLines numerals ⟨stats, field⟩
        ((statLines numerals key stat).map fun line => line ++ ['\n']) =
      some ⟨stats.insert key (stat.reread numerals), []⟩ := by
  cases stat with
  | number value =>
      simp only [statLines, List.map_cons, List.map_nil]
      rw [scanLines_cons scanLine_blank, scanLines_cons (scanLine_pair titled value)]
      rfl
  | dict counts =>
      have printed : ∀ label ∈ counts.keys.insertionSort (· ≤ ·), Printed label := by
        intro label member
        have present := (List.perm_insertionSort _ _).mem_iff.mp member
        exact labels counts rfl label (AList.mem_keys.mpr present)
      have rows := @scanLines_rows numerals stats key titled.name
        (fun label => (counts.lookup label).getD 0) _ printed ∅
      have heading := @scanLine_titled numerals stats key [] titled.name (by simp)
      have blank (stats : Table Text Stat) (field : Text) :
          scanLine numerals ⟨stats, field⟩ ['\n'] = some ⟨stats, []⟩ := scanLine_blank
      simp only [statLines, List.map_append, List.map_cons, List.map_nil, List.map_map,
        List.cons_append, List.nil_append, Function.comp_def]
      rw [scanLines_cons (blank stats field), scanLines_cons heading, scanLines_append, rows,
        Option.bind_some, scanLines_cons (blank _ key)]
      rfl

theorem statLines_oneLine (titled : Titled key) {stat : Stat}
    (labels : ∀ counts, stat = .dict counts → ∀ label ∈ counts, Printed label) :
    ∀ line ∈ statLines numerals key stat, '\n' ∉ line := by
  have clean {text : Text} (printed : Printed text) : '\n' ∉ text :=
    fun member => printed.clean '\n' member (by simp)
  have pair {left : Text} (oneLine : '\n' ∉ left) (number : ℚ) :
      '\n' ∉ left ++ ',' :: numerals.floatText number := by
    simp [oneLine, clean (printed_floatText numerals number)]
  intro line member
  cases stat with
  | number value =>
      simp only [statLines, List.mem_cons, List.not_mem_nil, or_false] at member
      rcases member with rfl | rfl
      · exact List.not_mem_nil
      · exact pair titled.oneLine value
  | dict counts =>
      simp only [statLines, List.mem_append, List.mem_cons, List.not_mem_nil, or_false,
        List.mem_map] at member
      rcases member with ((rfl | rfl) | ⟨label, isLabel, rfl⟩) | rfl
      · exact List.not_mem_nil
      · simp [titled.oneLine]
      · have present := AList.mem_keys.mpr ((List.perm_insertionSort _ _).mem_iff.mp isLabel)
        exact pair (clean (labels counts rfl label present)) _
      · exact List.not_mem_nil

/-- The result file is read entry by entry. -/
theorem scanLines_totals (entries : List (Text × Stat))
    (titled : ∀ entry ∈ entries, Titled entry.1)
    (labels : ∀ entry ∈ entries, ∀ counts, entry.2 = .dict counts →
      ∀ label ∈ counts, Printed label) :
    ∃ last, scanLines numerals ⟨stats, field⟩
        ((entries.flatMap fun entry => statLines numerals entry.1 entry.2).map
          fun line => line ++ ['\n']) =
      some ⟨stats.insertAll (entries.map fun entry => (entry.1, entry.2.reread numerals)),
        last⟩ := by
  induction entries generalizing stats field with
  | nil => exact ⟨field, rfl⟩
  | cons entry entries inductionHypothesis =>
      obtain ⟨first, others⟩ := List.forall_mem_cons.mp titled
      obtain ⟨firstLabels, otherLabels⟩ := List.forall_mem_cons.mp labels
      rw [List.flatMap_cons, List.map_append, scanLines_append,
        scanLines_statLines first firstLabels, Option.bind_some, List.map_cons]
      exact inductionHypothesis others otherLabels

theorem readReport_totalsText {totals : Table Text Stat} (writable : Writable totals)
    (iteration : Table.Iteration Text) :
    readReport numerals (totalsText numerals iteration totals) =
      some (Table.insertAll ∅ ((iteration.items totals).map fun entry =>
        (entry.1, entry.2.reread numerals))) := by
  have titled : ∀ entry ∈ iteration.items totals, Titled entry.1 := fun entry member =>
    writable.keys _ (Table.mem_of_lookup (Table.Iteration.mem_items.mp member))
  have labels : ∀ entry ∈ iteration.items totals, ∀ counts, entry.2 = .dict counts →
      ∀ label ∈ counts, Printed label := by
    intro entry member counts isDict
    have found := Table.Iteration.mem_items.mp member
    rw [isDict] at found
    exact writable.labels entry.1 counts found
  have oneLine : ∀ line ∈ (iteration.items totals).flatMap fun entry =>
      statLines numerals entry.1 entry.2, '\n' ∉ line := by
    intro line member
    obtain ⟨entry, isEntry, isLine⟩ := List.mem_flatMap.mp member
    exact statLines_oneLine (titled entry isEntry) (labels entry isEntry) line isLine
  obtain ⟨last, scanned⟩ := @scanLines_totals numerals ∅ [] _ titled labels
  unfold readReport totalsText
  rw [Text.lines_flatMap oneLine, scanned]
  rfl

end Reading

/-! ### What comes back -/

/-- The number is what comes back when the other one is printed. -/
def ReadAs (numerals : Numerals) (number value : ℚ) : Prop :=
  numerals.readFloat (numerals.floatText number) = some value

/-- Each number of the value comes back as it was printed. -/
def Stat.ReadAs (numerals : Numerals) : Stat → Stat → Prop
  | .number printed, .number value => Trace.ReadAs numerals printed value
  | .dict counts, .dict values =>
      ∀ label, Option.Rel (Trace.ReadAs numerals) (counts.lookup label) (values.lookup label)
  | _, _ => False

/-- A table of the given keys, each with what is found for it. -/
theorem lookup_insertAll_keys {Entry Image : Type} {table : Table Text Entry}
    {keys : List Text} (same : ∀ key, key ∈ keys ↔ key ∈ table) (distinct : keys.Nodup)
    {image : Text → Image} {key : Text} {entry : Entry} (found : table.lookup key = some entry) :
    (Table.insertAll ∅ (keys.map fun key => (key, image key))).lookup key = some (image key) := by
  apply Table.lookup_insertAll_eq
  · rwa [List.map_map, show Prod.fst ∘ (fun key => (key, image key)) = id from rfl, List.map_id]
  · exact List.mem_map_of_mem ((same key).mpr (Table.mem_of_lookup found))

theorem readAs_reread (stat : Stat) : stat.ReadAs numerals (stat.reread numerals) := by
  cases stat with
  | number value => exact readFloat_reread numerals value
  | dict counts =>
      have perm := List.perm_insertionSort (· ≤ ·) counts.keys
      have same (label : Text) : label ∈ counts.keys.insertionSort (· ≤ ·) ↔ label ∈ counts := by
        rw [perm.mem_iff, AList.mem_keys]
      intro label
      cases found : counts.lookup label with
      | some number =>
          have there := @lookup_insertAll_keys _ _ counts _ same (perm.nodup_iff.mpr counts.keys_nodup)
            (fun label => reread numerals ((counts.lookup label).getD 0)) label number found
          rw [rereadRows, there, found]
          exact .some (readFloat_reread numerals number)
      | none =>
          have absent : label ∉ (rereadRows numerals counts).map Prod.fst := by
            unfold rereadRows
            rw [List.map_map, show (Prod.fst ∘ fun label =>
              (label, reread numerals ((counts.lookup label).getD 0))) = id from rfl, List.map_id,
              same, Table.mem_iff_lookup]
            simp [found]
          rw [Table.lookup_insertAll_of_not_mem absent, AList.lookup_empty]
          exact .none

/-- The totals that come back have the same keys, each with its value as printed. -/
theorem readAs_totalsText {totals newStats : Table Text Stat} (writable : Writable totals)
    {iteration : Table.Iteration Text}
    (reads : readReport numerals (totalsText numerals iteration totals) = some newStats)
    (key : Text) :
    Option.Rel (Stat.ReadAs numerals) (totals.lookup key) (newStats.lookup key) := by
  rw [readReport_totalsText writable] at reads
  obtain rfl := Option.some.inj reads
  have keys : ((iteration.items totals).map fun entry =>
      (entry.1, entry.2.reread numerals)).map Prod.fst = (iteration.items totals).map Prod.fst := by
    rw [List.map_map]
    rfl
  cases found : totals.lookup key with
  | some stat =>
      have distinct := iteration.distinct totals
      rw [← keys] at distinct
      have member : (key, stat.reread numerals) ∈ (iteration.items totals).map fun entry =>
          (entry.1, entry.2.reread numerals) :=
        List.mem_map.mpr ⟨(key, stat), Table.Iteration.mem_items.mpr found, rfl⟩
      rw [Table.lookup_insertAll_eq distinct member]
      exact .some (readAs_reread stat)
  | none =>
      have absent : key ∉ ((iteration.items totals).map fun entry =>
          (entry.1, entry.2.reread numerals)).map Prod.fst := by
        rw [keys, Table.Iteration.mem_keys, Table.mem_iff_lookup]
        simp [found]
      rw [Table.lookup_insertAll_of_not_mem absent, AList.lookup_empty]
      exact .none

/-! ### The totals of reports -/

section Totals

variable {reports : List (Table.Iteration Text × Text)} {totals : Table Text Stat}
  {texts : List Text}

theorem titled_of_reportKey {key : Text} (reported : ReportKey key) : Titled key := by
  have oneLine (text : Text) (checked : (isName text && !text.contains '\n') = true) :
      Titled text := by
    simp only [Bool.and_eq_true, Bool.not_eq_true', List.contains_eq_mem,
      decide_eq_false_iff_not] at checked
    exact ⟨name_of_isName checked.1, checked.2⟩
  rcases reported with counts | ⟨histogram, rfl⟩ | ⟨histogram, rfl⟩
  · have all : ∀ known ∈ counterKeys, (isName known && !known.contains '\n') = true := by
      decide +kernel
    exact oneLine key (all key counts)
  · cases histogram <;> exact oneLine _ (by decide +kernel)
  · cases histogram <;> exact oneLine _ (by decide +kernel)

theorem mem_of_optionSum {values : List (Option ℚ)} (some : optionSum values ≠ none) :
    ∃ value ∈ values, value ≠ none := by
  by_contra nothing
  push Not at nothing
  have empty : values.reduceOption = [] := by
    rw [List.reduceOption, List.filterMap_eq_nil_iff]
    exact fun value member => nothing value member
  exact some (by rw [optionSum, if_pos empty])

theorem Totalled.key (totalled : Totalled numerals texts totals) {key : Text}
    (present : key ∈ totals) : ReportKey key := by
  by_contra other
  obtain ⟨stat, found⟩ := Table.mem_iff_lookup.mp present
  rw [totalled.nothingElse key other] at found
  cases found

/-- A dictionary in the totals is a histogram, and its labels are those of the reports. -/
theorem Totalled.dict (totalled : Totalled numerals texts totals) {key : Text}
    {counts : Table Text ℚ} (found : totals.lookup key = some (.dict counts)) :
    ∃ histogram : Histogram, key = histogram.key ∧ ∀ label ∈ counts, ∃ text ∈ texts,
      label ∈ dictOf numerals histogram.key text := by
  rcases totalled.key (Table.mem_of_lookup found) with counter | ⟨histogram, rfl⟩ | ⟨histogram, rfl⟩
  · rw [totalled.counter key counter] at found
    cases found
  · rw [totalled.average histogram] at found
    cases found
  · refine ⟨histogram, rfl, fun label present => ?_⟩
    obtain ⟨sums, sumsFound, adds⟩ := totalled.histogram histogram
    rw [sumsFound] at found
    cases found
    obtain ⟨number, isNumber⟩ := Table.mem_iff_lookup.mp present
    have sum : optionSum (texts.map fun text =>
        (dictOf numerals histogram.key text).lookup label) ≠ none := by
      rw [← adds, isNumber]
      simp
    obtain ⟨value, member, isSome⟩ := mem_of_optionSum sum
    obtain ⟨text, inTexts, rfl⟩ := List.mem_map.mp member
    obtain ⟨entry, isEntry⟩ := Option.ne_none_iff_exists'.mp isSome
    exact ⟨text, inTexts, Table.mem_of_lookup isEntry⟩

theorem Totalled.printed (totalled : Totalled numerals texts totals)
    (like : ∀ text ∈ texts, ReportLike numerals text) {key : Text} {counts : Table Text ℚ}
    (found : totals.lookup key = some (.dict counts)) : ∀ label ∈ counts, Printed label := by
  obtain ⟨histogram, _, labels⟩ := totalled.dict found
  intro label present
  obtain ⟨text, inTexts, inDict⟩ := labels label present
  exact (like text inTexts).labels histogram label inDict

theorem Totalled.writable (totalled : Totalled numerals texts totals)
    (like : ∀ text ∈ texts, ReportLike numerals text) : Writable totals where
  keys := fun _ present => titled_of_reportKey (totalled.key present)
  labels := fun _ _ found => totalled.printed like found

end Totals

/-- The totals of reports of `usage.py` are written, and the file is read back without an
exception: the same keys, each number as it was printed. -/
theorem totals_file_reads_back {reports : List (Table.Iteration Text × Text)}
    (written : ∀ report ∈ reports, Written numerals report.2) (iteration : Table.Iteration Text) :
    ∃ totals newStats, reduceInOrders numerals ∅ reports = some totals ∧
      readReport numerals (totalsText numerals iteration totals) = some newStats ∧
      ∀ key, Option.Rel (Stat.ReadAs numerals) (totals.lookup key) (newStats.lookup key) := by
  have like : ∀ report ∈ reports, ReportLike numerals report.2 := fun report member =>
    (written report member).reportLike
  obtain ⟨totals, reduced, writable⟩ : ∃ totals,
      reduceInOrders numerals ∅ reports = some totals ∧ Writable totals := by
    by_cases nothing : reports = []
    · subst nothing
      exact ⟨∅, rfl, ⟨fun key present => by simp at present, fun key counts found => by
        simp at found⟩⟩
    · obtain ⟨totals, reduced⟩ := exists_totals nothing like
      have totalled := totalled_of_reduce nothing like reduced
      refine ⟨totals, reduced, totalled.writable fun text inTexts => ?_⟩
      obtain ⟨report, inReports, rfl⟩ := List.mem_map.mp inTexts
      exact like report inReports
  have reads := @readReport_totalsText numerals totals writable iteration
  exact ⟨totals, _, reduced, reads, readAs_totalsText writable reads⟩

/-- The totals of the two reports of one run, with the entries backwards in the file. -/
theorem totals_file_reads_back_two : ∃ reports totals newStats,
    usage Numerals.decimal {} [halfCore, halfCore] = .ok reports ∧
      reduceInOrders Numerals.decimal ∅ (reports.map fun text => (.inOrder, text)) =
        some totals ∧
      readReport Numerals.decimal (totalsText Numerals.decimal backwards totals) =
        some newStats ∧
      ∀ key, Option.Rel (Stat.ReadAs Numerals.decimal) (totals.lookup key)
        (newStats.lookup key) := by
  have ends : (usage Numerals.decimal {} [halfCore, halfCore]).isOk = true := by decide +kernel
  obtain ⟨reports, run⟩ := exists_of_isOk ends
  obtain ⟨totals, newStats, reduced, reads, same⟩ := @totals_file_reads_back Numerals.decimal
    (reports.map fun text => (.inOrder, text))
    (by
      intro report member
      obtain ⟨text, inside, rfl⟩ := List.mem_map.mp member
      exact ⟨_, reports, run, inside⟩) backwards
  exact ⟨reports, totals, newStats, run, reduced, reads, same⟩

/-! ### Totals in place of their reports -/

/-- Each number of the value comes back unchanged. -/
def Stat.Exact (numerals : Numerals) : Stat → Prop
  | .number value => Trace.ReadAs numerals value value
  | .dict counts => ∀ entry ∈ counts.pairs, Trace.ReadAs numerals entry.2 entry.2

instance Stat.decidableExact (stat : Stat) : Decidable (stat.Exact numerals) :=
  match stat with
  | .number value => inferInstanceAs (Decidable (numerals.readFloat _ = some value))
  | .dict counts => inferInstanceAs (Decidable (∀ entry ∈ counts.pairs,
      numerals.readFloat (numerals.floatText entry.2) = some entry.2))

/-- No number of the totals is rounded when it is printed. -/
def ExactTotals (numerals : Numerals) (totals : Table Text Stat) : Prop :=
  ∀ entry ∈ totals.pairs, entry.2.Exact numerals

instance decidableExactTotals (totals : Table Text Stat) :
    Decidable (ExactTotals numerals totals) :=
  inferInstanceAs (Decidable (∀ entry ∈ totals.pairs, entry.2.Exact numerals))

/-- A number that comes back unchanged is what is read. -/
theorem eq_of_readAs {number value : ℚ} (exact : ReadAs numerals number number)
    (reads : ReadAs numerals number value) : value = number :=
  Option.some.inj (reads.symm.trans exact)

theorem Stat.Exact.same {printed read : Stat} (exact : printed.Exact numerals)
    (reads : printed.ReadAs numerals read) : printed.Same read := by
  cases printed with
  | number number =>
      cases read with
      | number value => exact (eq_of_readAs exact reads).symm
      | dict values => exact reads.elim
  | dict counts =>
      cases read with
      | number value => exact reads.elim
      | dict values =>
          intro label
          apply Table.eq_of_rel
          apply Table.rel_mono (reads label)
          intro number found value readsValue
          have isExact := exact (label, number) (Table.mem_pairs.mpr found)
          exact (eq_of_readAs isExact readsValue).symm

/-- One value for the sum of some. -/
theorem optionSum_append (before after : List (Option ℚ)) :
    optionSum (optionSum before :: after) = optionSum (before ++ after) := by
  have split : (before ++ after).reduceOption = before.reduceOption ++ after.reduceOption :=
    List.reduceOption_append before after
  by_cases nothing : before.reduceOption = []
  · have first : optionSum before = none := if_pos nothing
    rw [first, optionSum, optionSum, split, nothing, List.nil_append,
      List.reduceOption_cons_of_none]
  · have first : optionSum before = some before.reduceOption.sum := if_neg nothing
    rw [first, optionSum, optionSum, split, List.reduceOption_cons_of_some, List.sum_cons,
      List.sum_append, if_neg (List.cons_ne_nil _ _), if_neg (by simp [nothing])]

section Parts

variable {reports : List (Table.Iteration Text × Text)} {totals newStats : Table Text Stat}
  {texts others : List Text} {text : Text}

/-- Totals that are printed exactly are read as they are. -/
theorem same_totalsText (writable : Writable totals) (exact : ExactTotals numerals totals)
    {iteration : Table.Iteration Text}
    (reads : readReport numerals (totalsText numerals iteration totals) = some newStats) :
    SameTotals totals newStats := by
  intro key
  apply Table.rel_mono (readAs_totalsText writable reads key)
  intro stat found read readsStat
  exact (exact (key, stat) (Table.mem_pairs.mpr found)).same readsStat

/-- A text with the totals of others. -/
structure Sums (numerals : Numerals) (texts : List Text) (text : Text) : Prop where
  counter : ∀ key ∈ counterKeys,
    numberOf numerals key text = (texts.map (numberOf numerals key)).sum
  average : ∀ histogram : Histogram, numberOf numerals histogram.averageName text =
    (texts.map fun text => numberOf numerals taskProcessedKey text *
      numberOf numerals histogram.averageName text).sum /
        (texts.map (numberOf numerals taskProcessedKey)).sum
  histogram : ∀ (histogram : Histogram) label,
    (dictOf numerals histogram.key text).lookup label = optionSum
      (texts.map fun text => (dictOf numerals histogram.key text).lookup label)

theorem reports_number (same : SameTotals totals newStats)
    (read : readReport numerals text = some newStats) {key : Text} {value : ℚ}
    (found : totals.lookup key = some (.number value)) :
    Reports numerals key text (.number value) := by
  obtain ⟨stat, there, isSame⟩ := Table.exists_of_rel (same key) found
  cases stat with
  | number other =>
      obtain rfl : value = other := isSame
      exact ⟨newStats, read, there⟩
  | dict counts => exact isSame.elim

theorem reports_dict (same : SameTotals totals newStats)
    (read : readReport numerals text = some newStats) {key : Text} {counts : Table Text ℚ}
    (found : totals.lookup key = some (.dict counts)) :
    ∃ values : Table Text ℚ, Reports numerals key text (.dict values) ∧
      ∀ label, values.lookup label = counts.lookup label := by
  obtain ⟨stat, there, isSame⟩ := Table.exists_of_rel (same key) found
  cases stat with
  | number other => exact isSame.elim
  | dict values => exact ⟨values, ⟨newStats, read, there⟩, fun label => (isSame label).symm⟩

theorem Totalled.sums (totalled : Totalled numerals texts totals)
    (same : SameTotals totals newStats) (read : readReport numerals text = some newStats) :
    Sums numerals texts text where
  counter := fun key counts =>
    (reports_number same read (totalled.counter key counts)).numberOf
  average := fun histogram =>
    (reports_number same read (totalled.average histogram)).numberOf
  histogram := by
    intro histogram label
    obtain ⟨sums, found, adds⟩ := totalled.histogram histogram
    obtain ⟨values, reports, equal⟩ := reports_dict same read found
    rw [reports.dictOf, equal, adds]

/-- A report of totals has the keys of the totals, with dictionaries where they have them. -/
theorem Totalled.kinds (totalled : Totalled numerals texts totals)
    (same : SameTotals totals newStats) :
    Kinds DictKey newStats ∧ ∀ key, newStats.lookup key ≠ none → ReportKey key := by
  have back (key : Text) (stat : Stat) (there : newStats.lookup key = some stat) :
      ∃ printed, totals.lookup key = some printed ∧ printed.Same stat := by
    cases found : totals.lookup key with
    | none =>
        have isNone := same key
        rw [found, there] at isNone
        cases isNone
    | some printed =>
        obtain ⟨other, otherThere, isSame⟩ := Table.exists_of_rel (same key) found
        obtain rfl : stat = other := Option.some.inj (there.symm.trans otherThere)
        exact ⟨printed, rfl, isSame⟩
  refine ⟨fun key stat there => ?_, fun key present => ?_⟩
  · obtain ⟨printed, found, isSame⟩ := back key stat there
    constructor
    · rintro ⟨counts, rfl⟩
      cases printed with
      | number value => exact isSame.elim
      | dict values =>
          obtain ⟨histogram, isKey, _⟩ := totalled.dict found
          exact ⟨histogram, isKey⟩
    · rintro ⟨histogram, rfl⟩
      obtain ⟨sums, sumsFound, _⟩ := totalled.histogram histogram
      obtain rfl : printed = .dict sums := Option.some.inj (found.symm.trans sumsFound)
      cases stat with
      | number value => exact isSame.elim
      | dict counts => exact ⟨counts, rfl⟩
  · obtain ⟨stat, there⟩ := Option.ne_none_iff_exists'.mp present
    obtain ⟨printed, found, _⟩ := back key stat there
    exact totalled.key (Table.mem_of_lookup found)

theorem tasks_sum_pos (nonempty : texts ≠ []) (like : ∀ text ∈ texts, ReportLike numerals text) :
    0 < (texts.map (numberOf numerals taskProcessedKey)).sum := by
  apply List.sum_pos
  · intro number member
    obtain ⟨text, inTexts, rfl⟩ := List.mem_map.mp member
    exact (like text inTexts).tasks_pos
  · simpa using nonempty

/-- A report of totals can be reduced as the reports it is the totals of. -/
theorem Totalled.reportLike (totalled : Totalled numerals texts totals) (nonempty : texts ≠ [])
    (like : ∀ text ∈ texts, ReportLike numerals text) (same : SameTotals totals newStats)
    (read : readReport numerals text = some newStats) : ReportLike numerals text := by
  have sums := totalled.sums same read
  refine ⟨fun key counts => ?_, fun histogram => ?_, fun histogram => ?_,
    fun histogram label present => ?_, ?_, newStats, read, totalled.kinds same⟩
  · have reports := reports_number same read (totalled.counter key counts)
    rwa [reports.numberOf]
  · have reports := reports_number same read (totalled.average histogram)
    rwa [reports.numberOf]
  · obtain ⟨counts, found, _⟩ := totalled.histogram histogram
    obtain ⟨values, reports, _⟩ := reports_dict same read found
    rwa [reports.dictOf]
  · obtain ⟨counts, found, _⟩ := totalled.histogram histogram
    obtain ⟨values, reports, equal⟩ := reports_dict same read found
    rw [reports.dictOf, Table.mem_iff_lookup, equal, ← Table.mem_iff_lookup] at present
    exact totalled.printed like found label present
  · rw [sums.counter _ List.mem_cons_self]
    exact tasks_sum_pos nonempty like

theorem Totalled.perm (totalled : Totalled numerals texts totals) (perm : texts.Perm others) :
    Totalled numerals others totals := by
  have sum (value : Text → ℚ) : (others.map value).sum = (texts.map value).sum :=
    (perm.map value).sum_eq.symm
  refine ⟨fun key counts => ?_, fun histogram => ?_, fun histogram => ?_, totalled.nothingElse⟩
  · rw [sum, totalled.counter key counts]
  · rw [sum, sum, totalled.average]
  · obtain ⟨counts, found, adds⟩ := totalled.histogram histogram
    refine ⟨counts, found, fun label => ?_⟩
    rw [adds]
    exact optionSum_perm (perm.map _)

/-- Totals of a report of totals and others are those of the reports themselves. -/
theorem Sums.totalled (sums : Sums numerals texts text)
    (weight : (texts.map (numberOf numerals taskProcessedKey)).sum ≠ 0)
    (totalled : Totalled numerals (text :: others) totals) :
    Totalled numerals (texts ++ others) totals := by
  have tasks := sums.counter _ List.mem_cons_self
  have split (value : Text → ℚ) :
      ((texts ++ others).map value).sum = (texts.map value).sum + (others.map value).sum := by
    rw [List.map_append, List.sum_append]
  refine ⟨fun key counts => ?_, fun histogram => ?_, fun histogram => ?_, totalled.nothingElse⟩
  · rw [totalled.counter key counts, split, List.map_cons, List.sum_cons, sums.counter key counts]
  · have weighted : numberOf numerals taskProcessedKey text *
        numberOf numerals histogram.averageName text =
          (texts.map fun text => numberOf numerals taskProcessedKey text *
            numberOf numerals histogram.averageName text).sum := by
      rw [tasks, sums.average, mul_div_cancel₀ _ weight]
    rw [totalled.average, split, split, List.map_cons, List.map_cons, List.sum_cons,
      List.sum_cons, weighted, tasks]
  · obtain ⟨counts, found, adds⟩ := totalled.histogram histogram
    refine ⟨counts, found, fun label => ?_⟩
    rw [adds, List.map_cons, sums.histogram, optionSum_append, List.map_append]

end Parts

/-- Totals of reports of `usage.py` that are printed without rounding stand for their reports:
reduced with other reports, in any orders, they give the totals of all the reports. -/
theorem reduced_in_parts {first second combined whole : List (Table.Iteration Text × Text)}
    {totals : Table Text Stat} {iteration : Table.Iteration Text} (nonempty : first ≠ [])
    (written : ∀ report ∈ first ++ second, Written numerals report.2)
    (reduced : reduceInOrders numerals ∅ first = some totals)
    (exact : ExactTotals numerals totals)
    (inParts : (combined.map Prod.snd).Perm
      (totalsText numerals iteration totals :: second.map Prod.snd))
    (atOnce : (whole.map Prod.snd).Perm ((first ++ second).map Prod.snd)) :
    ∃ left right, reduceInOrders numerals ∅ combined = some left ∧
      reduceInOrders numerals ∅ whole = some right ∧ SameTotals left right := by
  have likeOf {reports : List (Table.Iteration Text × Text)}
      (inside : ∀ report ∈ reports, report ∈ first ++ second) :
      ∀ text ∈ reports.map Prod.snd, ReportLike numerals text := by
    intro text member
    obtain ⟨report, inReports, rfl⟩ := List.mem_map.mp member
    exact (written report (inside report inReports)).reportLike
  have like := @likeOf first fun report member => List.mem_append_left second member
  have likeToo := @likeOf second fun report member => List.mem_append_right first member
  have texts : first.map Prod.snd ≠ [] := by simpa using nonempty
  -- The file of totals is one more report.
  have totalled := totalled_of_reduce nonempty
    (fun report member => like _ (List.mem_map_of_mem member)) reduced
  have writable := totalled.writable like
  have read := @readReport_totalsText numerals totals writable iteration
  have same := same_totalsText writable exact read
  have likeTotals := totalled.reportLike texts like same read
  have likeCombined : ∀ report ∈ combined, ReportLike numerals report.2 := by
    intro report member
    rcases List.mem_cons.mp (inParts.mem_iff.mp (List.mem_map_of_mem member)) with isTotals | other
    · exact isTotals ▸ likeTotals
    · exact likeToo _ other
  have likeWhole : ∀ report ∈ whole, ReportLike numerals report.2 := by
    intro report member
    have inside := atOnce.mem_iff.mp (List.mem_map_of_mem member)
    exact likeOf (fun _ inside => inside) _ inside
  have someCombined : combined ≠ [] := by
    rintro rfl
    cases inParts.nil_eq
  have someWhole : whole ≠ [] := by
    rintro rfl
    rw [List.map_append] at atOnce
    exact texts (List.append_eq_nil_iff.mp atOnce.nil_eq.symm).1
  obtain ⟨left, leftReduced⟩ := exists_totals someCombined likeCombined
  obtain ⟨right, rightReduced⟩ := exists_totals someWhole likeWhole
  have leftTotalled := (totalled_of_reduce someCombined likeCombined leftReduced).perm inParts
  have rightTotalled := totalled_of_reduce someWhole likeWhole rightReduced
  have weight := (tasks_sum_pos texts like).ne'
  refine ⟨left, right, leftReduced, rightReduced, ?_⟩
  apply ((totalled.sums same read).totalled weight leftTotalled).same rightTotalled
  rw [← List.map_append]
  exact atOnce.symm

/-- The totals of one run's two reports in place of the reports, after those of the run again. -/
theorem reduced_in_parts_two : ∃ reports totals left right,
    usage Numerals.decimal {} [halfCore, halfCore] = .ok reports ∧
      reduceInOrders Numerals.decimal ∅ (reports.map fun text => (.inOrder, text)) =
        some totals ∧
      reduceInOrders Numerals.decimal ∅ (reports.map (fun text => (backwards, text)) ++
        [(backwards, totalsText Numerals.decimal .inOrder totals)]) = some left ∧
      reduceInOrders Numerals.decimal ∅
        ((reports ++ reports).map fun text => (.inOrder, text)) = some right ∧
      SameTotals left right := by
  have checks : ((usage Numerals.decimal {} [halfCore, halfCore]).toOption.bind fun reports =>
      (reduceInOrders Numerals.decimal ∅ (reports.map fun text => (.inOrder, text))).map
        fun totals => decide (reports ≠ [] ∧ ExactTotals Numerals.decimal totals)) = some true := by
    decide +kernel
  obtain ⟨reports, run, more⟩ := Option.bind_eq_some_iff.mp checks
  obtain ⟨totals, reduced, exact⟩ := Option.map_eq_some_iff.mp more
  obtain ⟨nonempty, exact⟩ := of_decide_eq_true exact
  have ends : usage Numerals.decimal {} [halfCore, halfCore] = .ok reports := by
    cases result : usage Numerals.decimal {} [halfCore, halfCore] with
    | ok given =>
        rw [result] at run
        rw [Option.some.inj run]
    | error fault =>
        rw [result] at run
        cases run
  have texts (iteration : Table.Iteration Text) (reports : List Text) :
      (reports.map fun text => (iteration, text)).map Prod.snd = reports := by
    simp
  obtain ⟨left, right, inParts, atOnce, same⟩ := @reduced_in_parts Numerals.decimal
    (reports.map fun text => (.inOrder, text)) (reports.map fun text => (backwards, text))
    (reports.map (fun text => (backwards, text)) ++
      [(backwards, totalsText Numerals.decimal .inOrder totals)])
    ((reports ++ reports).map fun text => (.inOrder, text)) totals .inOrder
    (by simpa using nonempty)
    (by
      intro report member
      rw [List.mem_append] at member
      rcases member with inFirst | inSecond
      · obtain ⟨text, inside, rfl⟩ := List.mem_map.mp inFirst
        exact ⟨_, reports, ends, inside⟩
      · obtain ⟨text, inside, rfl⟩ := List.mem_map.mp inSecond
        exact ⟨_, reports, ends, inside⟩)
    reduced exact
    (by
      rw [List.map_append, texts]
      exact List.perm_append_singleton _ _)
    (by rw [texts, List.map_append, texts, texts])
  exact ⟨reports, totals, left, right, ends, reduced, inParts, atOnce, same⟩

end CSE550.Trace
