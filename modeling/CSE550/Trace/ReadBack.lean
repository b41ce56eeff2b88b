import CSE550.Trace.Reduce

/-!
Owns the way from a report to the dictionary that the parser makes of it: one
value for each scalar, one dictionary for each histogram.

Two buckets that print alike share an entry, and the later one stays.
-/

namespace CSE550.Trace

open CSE550.Lib

variable {numerals : Numerals}

/-! ### The texts between the separators -/

/-- A printed value: no separator and no blank in it. -/
structure Printed (text : Text) : Prop where
  nonempty : text ≠ []
  clean : ∀ char ∈ text, char ∉ [',', '\n', '\t', ' ']

/-- A printed name: blanks may stand between its words. -/
structure Name (text : Text) : Prop where
  nonempty : text ≠ []
  bare : Text.Bare blankChars text
  noComma : ',' ∉ text

/-- The check that a text is a name. -/
def isName (text : Text) : Bool :=
  match text, text.getLast? with
  | first :: _, some last => first ∉ blankChars ∧ last ∉ blankChars ∧ ',' ∉ text
  | _, _ => false

theorem name_of_isName {text : Text} (checked : isName text = true) : Name text := by
  unfold isName at checked
  split at checked
  · rename_i first rest last ends
    simp only [decide_eq_true_eq] at checked
    refine ⟨List.cons_ne_nil first rest, ⟨?_, ?_⟩, checked.2.2⟩
    · intro char member
      rw [List.head?_cons, Option.mem_some] at member
      exact member ▸ checked.1
    · intro char member
      rw [ends, Option.mem_some] at member
      exact member ▸ checked.2.1
  · cases checked

theorem Printed.noComma {text : Text} (printed : Printed text) : ',' ∉ text :=
  fun member => printed.clean ',' member (by simp)

theorem Printed.bare {text : Text} (printed : Printed text) : Text.Bare blankChars text :=
  .of_all fun char member blank => printed.clean char member (List.mem_cons_of_mem _ blank)

theorem Printed.name {text : Text} (printed : Printed text) : Name text :=
  ⟨printed.nonempty, printed.bare, printed.noComma⟩

theorem printed_intText (number : ℤ) : Printed (Text.intText number) := by
  refine ⟨Text.intText_ne_nil number, fun char member => ?_⟩
  exact Text.not_mem_of_mem_intText (by simp) member

theorem printed_floatText (numerals : Numerals) (number : ℚ) :
    Printed (numerals.floatText number) :=
  ⟨numerals.floatText_ne_nil number, numerals.floatText_clean number⟩

theorem printed_bucketText (numerals : Numerals) (bucket : Bucket) :
    Printed (numerals.bucketText bucket) := by
  cases bucket with
  | number value => exact printed_floatText numerals value
  | inf => exact ⟨by simp [Numerals.bucketText], by simp [Numerals.bucketText]⟩

theorem strip_newline {text : Text} (bare : Text.Bare blankChars text) :
    Text.strip blankChars (text ++ ['\n']) = text :=
  @Text.strip_pad blankChars [] text ['\n'] (by simp) (by simp [blankChars]) bare

theorem strip_blank {text : Text} (printed : Printed text) :
    Text.strip blankChars (' ' :: text) = text := by
  have pad := @Text.strip_pad blankChars [' '] text [] (by simp [blankChars]) (by simp)
    printed.bare
  rwa [List.append_nil] at pad

/-- A line of two parts is split where it was joined. -/
theorem split_line {left pad right : Text} (first : Name left) (last : Printed right)
    (noComma : ',' ∉ pad) :
    (Text.strip blankChars ((left ++ ',' :: (pad ++ right)) ++ ['\n'])).splitOn ',' =
      [left, pad ++ right] := by
  have bare := @Text.Bare.of_ends blankChars left (',' :: pad) right first.nonempty last.nonempty
    first.bare last.bare
  have absent : ',' ∉ pad ++ right := by
    rw [List.mem_append, not_or]
    exact ⟨noComma, last.noComma⟩
  rw [← List.cons_append, strip_newline bare, List.cons_append,
    List.splitOn_append_cons_self_of_not_mem first.noComma, List.splitOn_eq_singleton absent]

/-! ### One line -/

variable {stats : Table Text Stat} {field : Text}

theorem scanLine_blank : scanLine numerals ⟨stats, field⟩ ([] ++ ['\n']) = some ⟨stats, []⟩ := rfl

theorem scanLine_scalar {name value : Text} (named : Name name) (printed : Printed value) :
    scanLine numerals ⟨stats, []⟩ (scalarLine name value ++ ['\n']) =
      (numerals.readFloat value).map fun number => ⟨stats.insert name (.number number), []⟩ := by
  have parts := @split_line name [' '] value named printed (by simp)
  rw [List.singleton_append] at parts
  unfold scanLine scalarLine
  rw [parts]
  simp only [strip_blank printed, ne_eq, printed.nonempty, not_false_eq_true, and_true, if_true,
    numerals.readFloat_blank]

/-- A line of a section is entered into the section's dictionary. -/
theorem scanLine_entry {key value : Text} {counts : Table Text ℚ} {number : ℚ}
    (heading : Name field) (left : Printed key) (right : Printed value)
    (read : numerals.readFloat value = some number) :
    scanLine numerals ⟨stats.insert field (.dict counts), field⟩
        ((key ++ ',' :: value) ++ ['\n']) =
      some ⟨stats.insert field (.dict (counts.insert key number)), field⟩ := by
  have parts := @split_line key [] value left.name right (by simp)
  rw [List.nil_append] at parts
  unfold scanLine
  rw [parts]
  simp only [Text.strip_bare right.bare, Text.strip_bare heading.bare, ne_eq, right.nonempty,
    heading.nonempty, not_false_eq_true, and_false, if_false, if_true, AList.lookup_insert, read,
    Option.map_some, AList.insert_insert]

/-! ### Sections -/

/-- The key under which the parser keeps a histogram. -/
def Histogram.key : Histogram → Text
  | .duration => "TASK DURATION DISTRIBUTION (log_10)".toList
  | .cpuRate => "CPU RATE DISTRIBUTION (core-seconds)".toList
  | .diskIo => "DISK I/O DISTRIBUTION (disk I/O-seconds)".toList
  | .diskSpace => "DISK SPACE USAGE".toList
  | .ispc => "INSTRUCTION-SECONDS PER CYCLE".toList
  | .mai => "MEMORY ACCESSES PER INSTRUCTION".toList

theorem Histogram.name_key (histogram : Histogram) : Name histogram.key := by
  cases histogram <;> exact name_of_isName (by decide +kernel)

theorem Histogram.name_averageName (histogram : Histogram) : Name histogram.averageName := by
  cases histogram <;> exact name_of_isName (by decide +kernel)

/-- A name with a comma behind it opens a section. -/
theorem scanLine_titled {name pad : Text} (named : Name name)
    (blank : ∀ char ∈ pad, char ∈ blankChars) :
    scanLine numerals ⟨stats, []⟩ ((name ++ ',' :: pad) ++ ['\n']) =
      some ⟨stats.insert name (.dict ∅), name⟩ := by
  have bare : Text.Bare blankChars (name ++ ([] ++ [','])) := by
    apply Text.Bare.of_ends named.nonempty (List.cons_ne_nil _ _) named.bare
    exact .of_all (by simp [blankChars])
  have allBlank : ∀ char ∈ pad ++ ['\n'], char ∈ blankChars := by
    intro char member
    rcases List.mem_append.mp member with inside | newline
    · exact blank char inside
    · simp [List.mem_singleton.mp newline, blankChars]
  have stripped := @Text.strip_pad blankChars [] (name ++ [',']) (pad ++ ['\n']) (by simp)
    allBlank bare
  have whole : (name ++ ',' :: pad) ++ ['\n'] = [] ++ ((name ++ [',']) ++ (pad ++ ['\n'])) := by
    simp
  unfold scanLine
  rw [whole, stripped, List.splitOn_append_cons_self_of_not_mem named.noComma]
  rfl

/-- The one heading without a comma is recognised by its words. -/
theorem scanLine_disk {name : Text} (named : Name name) (mentions : MentionsDisk name) :
    scanLine numerals ⟨stats, []⟩ (name ++ ['\n']) =
      some ⟨stats.insert name (.dict ∅), name⟩ := by
  unfold scanLine
  rw [strip_newline named.bare, List.splitOn_eq_singleton named.noComma]
  simp only [Text.strip_bare named.bare, named.nonempty, if_false, mentions, if_true]

theorem scanLine_heading (histogram : Histogram) :
    scanLine numerals ⟨stats, []⟩ (histogram.heading ++ ['\n']) =
      some ⟨stats.insert histogram.key (.dict ∅), histogram.key⟩ := by
  have titled (pad : Text) (blank : ∀ char ∈ pad, char ∈ blankChars)
      (heading : histogram.heading = histogram.key ++ ',' :: pad) :
      scanLine numerals ⟨stats, []⟩ (histogram.heading ++ ['\n']) =
        some ⟨stats.insert histogram.key (.dict ∅), histogram.key⟩ := by
    rw [heading, scanLine_titled histogram.name_key blank]
  cases histogram with
  | duration => exact titled [] (by simp) (by decide +kernel)
  | cpuRate => exact titled [] (by simp) (by decide +kernel)
  | diskIo =>
      have mentions : MentionsDisk Histogram.diskIo.key :=
        ⟨[], " (disk I/O-seconds)".toList, by decide +kernel⟩
      exact scanLine_disk Histogram.diskIo.name_key mentions
  | diskSpace => exact titled [] (by simp) (by decide +kernel)
  | ispc => exact titled [] (by simp) (by decide +kernel)
  | mai => exact titled [' '] (by simp [blankChars]) (by decide +kernel)

/-- What the parser has of a list of bucket lines. -/
def bucketRow (numerals : Numerals) (distribution : Counts Bucket) (key : Bucket) : Text × ℚ :=
  (numerals.bucketText key, (((distribution.lookup key).getD 0 : ℤ) : ℚ))

theorem scanLines_append (scan : Scan) (first second : List Text) :
    scanLines numerals scan (first ++ second) =
      (scanLines numerals scan first).bind fun next => scanLines numerals next second := by
  induction first generalizing scan with
  | nil => rfl
  | cons line first inductionHypothesis =>
      rw [List.cons_append, scanLines, scanLines]
      cases scanLine numerals scan line with
      | none => rfl
      | some next => exact inductionHypothesis next

theorem scanLines_cons {scan next : Scan} {line : Text}
    (scanned : scanLine numerals scan line = some next) (rest : List Text) :
    scanLines numerals scan (line :: rest) = scanLines numerals next rest := by
  rw [scanLines, scanned]

theorem scanLines_buckets (heading : Name field) (distribution : Counts Bucket)
    (keys : List Bucket) (counts : Table Text ℚ) :
    scanLines numerals ⟨stats.insert field (.dict counts), field⟩
        (keys.map fun key => bucketLine numerals distribution key ++ ['\n']) =
      some ⟨stats.insert field
        (.dict (counts.insertAll (keys.map (bucketRow numerals distribution)))), field⟩ := by
  induction keys generalizing counts with
  | nil => rfl
  | cons key keys inductionHypothesis =>
      have scanned := @scanLine_entry numerals stats field _ _ counts _ heading
        (printed_bucketText numerals key) (printed_intText ((distribution.lookup key).getD 0))
        (numerals.readFloat_intText _)
      rw [List.map_cons, bucketLine, scanLines_cons scanned, inductionHypothesis]
      rfl

/-- The printed histogram, as the parser reads it. -/
def readDistribution (numerals : Numerals) (distribution : Counts Bucket) : Table Text ℚ :=
  Table.insertAll ∅
    ((distribution.keys.insertionSort Bucket.le).map (bucketRow numerals distribution))

/-- The printed average, as the parser reads it. -/
def readAverage (numerals : Numerals) (statistics : Statistics) (histogram : Histogram) : ℚ :=
  (numerals.readFloat (statistics.averageText numerals histogram)).getD 0

theorem printed_averageText (statistics : Statistics) (histogram : Histogram) :
    Printed (statistics.averageText numerals histogram) := by
  cases histogram with
  | duration => exact printed_intText _
  | diskSpace => exact printed_intText _
  | cpuRate => exact printed_floatText numerals _
  | diskIo => exact printed_floatText numerals _
  | ispc => exact printed_floatText numerals _
  | mai => exact printed_floatText numerals _

theorem readFloat_averageText (statistics : Statistics) (histogram : Histogram) :
    numerals.readFloat (statistics.averageText numerals histogram) =
      some (readAverage numerals statistics histogram) := by
  have read : ∃ value,
      numerals.readFloat (statistics.averageText numerals histogram) = some value := by
    cases histogram with
    | duration => exact ⟨_, numerals.readFloat_intText _⟩
    | diskSpace => exact ⟨_, numerals.readFloat_intText _⟩
    | cpuRate => exact numerals.readFloat_floatText _
    | diskIo => exact numerals.readFloat_floatText _
    | ispc => exact numerals.readFloat_floatText _
    | mai => exact numerals.readFloat_floatText _
  rcases read with ⟨value, found⟩
  rw [readAverage, found]
  rfl

/-- The two entries about one quantity. -/
def quantityStats (numerals : Numerals) (statistics : Statistics) (histogram : Histogram) :
    List (Text × Stat) :=
  [(histogram.averageName, .number (readAverage numerals statistics histogram)),
    (histogram.key, .dict (readDistribution numerals (statistics.distribution histogram)))]

theorem scanLines_quantity (statistics : Statistics) (histogram : Histogram) :
    scanLines numerals ⟨stats, field⟩
        ((quantityLines numerals statistics histogram).map fun line => line ++ ['\n']) =
      some ⟨stats.insertAll (quantityStats numerals statistics histogram), histogram.key⟩ := by
  have average := @scanLine_scalar numerals stats _ _ histogram.name_averageName
    (@printed_averageText numerals statistics histogram)
  rw [readFloat_averageText, Option.map_some] at average
  unfold quantityLines
  rw [List.map_append, List.map_map]
  simp only [List.map_cons, List.map_nil, List.cons_append]
  rw [scanLines_cons scanLine_blank, scanLines_cons average, scanLines_cons scanLine_blank,
    scanLines_cons (scanLine_heading histogram)]
  exact scanLines_buckets histogram.name_key _ _ ∅

theorem scanLines_quantities (statistics : Statistics) (histograms : List Histogram) :
    ∃ last, scanLines numerals ⟨stats, field⟩
        ((histograms.flatMap (quantityLines numerals statistics)).map fun line => line ++ ['\n']) =
      some ⟨stats.insertAll (histograms.flatMap (quantityStats numerals statistics)), last⟩ := by
  induction histograms generalizing stats field with
  | nil => exact ⟨field, rfl⟩
  | cons histogram histograms inductionHypothesis =>
      rw [List.flatMap_cons, List.map_append, scanLines_append, scanLines_quantity,
        Option.bind_some, List.flatMap_cons, Table.insertAll_append]
      exact inductionHypothesis

/-! ### The whole report -/

/-- The entries of a report. -/
def reportStats (numerals : Numerals) (statistics : Statistics) : List (Text × Stat) :=
  [(taskProcessedKey, .number statistics.tasksProcessed),
    ("AGGREGATION TASKS".toList, .number statistics.aggregationTasks),
    ("TASKS IGNORED".toList, .number statistics.discardedTasks)] ++
    Histogram.all.flatMap (quantityStats numerals statistics)

theorem scanLine_count {name : Text} (named : Name name) (number : ℤ) :
    scanLine numerals ⟨stats, []⟩ (scalarLine name (Text.intText number) ++ ['\n']) =
      some ⟨stats.insert name (.number number), []⟩ := by
  rw [scanLine_scalar named (printed_intText number), numerals.readFloat_intText]
  rfl

theorem reportLines_oneLine (numerals : Numerals) (statistics : Statistics) :
    ∀ line ∈ reportLines numerals statistics, '\n' ∉ line := by
  have clean {text : Text} (printed : Printed text) : '\n' ∉ text :=
    fun member => printed.clean '\n' member (by simp)
  have scalar {name value : Text} (oneLine : '\n' ∉ name) (printed : Printed value) :
      '\n' ∉ scalarLine name value := by
    simp [scalarLine, oneLine, clean printed]
  have quantity (histogram : Histogram) :
      ∀ line ∈ quantityLines numerals statistics histogram, '\n' ∉ line := by
    have names : '\n' ∉ histogram.averageName ∧ '\n' ∉ histogram.heading := by
      cases histogram <;> decide +kernel
    intro line member
    simp only [quantityLines, List.mem_append, List.mem_cons, List.not_mem_nil, or_false,
      List.mem_map] at member
    rcases member with (rfl | rfl | rfl | rfl) | ⟨key, _, rfl⟩
    · exact List.not_mem_nil
    · exact scalar names.1 (printed_averageText statistics histogram)
    · exact List.not_mem_nil
    · exact names.2
    · simp [bucketLine, clean (printed_bucketText numerals key), clean (printed_intText _)]
  intro line member
  simp only [reportLines, List.mem_append, List.mem_cons, List.not_mem_nil, or_false,
    List.mem_flatMap] at member
  rcases member with (rfl | rfl | rfl) | ⟨histogram, _, inside⟩
  · exact scalar (by decide +kernel) (printed_intText _)
  · exact scalar (by decide +kernel) (printed_intText _)
  · exact scalar (by decide +kernel) (printed_intText _)
  · exact quantity histogram line inside

/-- The parser reads a report back entry by entry. -/
theorem readReport_report {statistics : Statistics} {text : Text}
    (written : report numerals statistics = .ok text) :
    readReport numerals text = some (Table.insertAll ∅ (reportStats numerals statistics)) := by
  unfold report at written
  split at written
  · cases written
  · cases written
    have first : Name "TOTAL TASKS PROCESSED".toList := name_of_isName (by decide +kernel)
    have second : Name "AGGREGATION TASKS".toList := name_of_isName (by decide +kernel)
    have third : Name "TASKS IGNORED".toList := name_of_isName (by decide +kernel)
    unfold readReport
    rw [Text.lines_flatMap (reportLines_oneLine numerals statistics), reportLines, List.map_append]
    simp only [List.map_cons, List.map_nil, List.cons_append, List.nil_append]
    rw [scanLines_cons (scanLine_count first _), scanLines_cons (scanLine_count second _),
      scanLines_cons (scanLine_count third _)]
    rcases @scanLines_quantities numerals _ [] statistics Histogram.all with ⟨last, scanned⟩
    rw [scanned]
    rfl

end CSE550.Trace
