import CSE550.Trace.Totals
import Mathlib.Algebra.BigOperators.Ring.Finset

/-!
Owns what the reports of `usage.py` say of the records processed so far: the sums of
the histograms, and the averages against the means.

Does not own how an average is printed.
-/

namespace CSE550.Trace

open CSE550.Lib

variable {numerals : Numerals}

/-! ### One record -/

/-- What the loop body keeps of a record, and what it takes for granted. -/
structure Measures (record : Record) (measured : Measured) : Prop where
  positive : record.startTime < record.endTime
  cycles : record.cyclesPerInstruction ≠ 0
  duration : measured.duration = record.endTime - record.startTime
  cpuUsage : measured.cpuUsage = record.cpuUsage
  diskIoTime : measured.diskIoTime = record.diskIoTime
  ispc : measured.ispc =
    (record.endTime - record.startTime : ℤ) / record.cyclesPerInstruction
  memoryAccessesPerInstruction :
    measured.memoryAccessesPerInstruction = record.memoryAccessesPerInstruction

/-- A check in front of the rest of a sequence that ends without a fault. -/
theorem exists_of_check {Result : Type} {condition : Prop} [Decidable condition]
    {fault : Fault} {rest : Except Fault Result} {result : Result}
    (run : (if condition then throw fault >>= fun _ : PUnit => rest else rest) = .ok result) :
    ¬ condition ∧ rest = .ok result := by
  by_cases holds : condition
  · rw [if_pos holds] at run
    cases run
  · rw [if_neg holds] at run
    exact ⟨holds, run⟩

theorem measures_of_ok {record : Record} {measured : Measured}
    (run : measure numerals record = .ok measured) : Measures record measured := by
  unfold measure at run
  rcases exists_of_check run with ⟨notNegative, run⟩
  rcases exists_of_bind run with ⟨_, _, run⟩
  rcases exists_of_check run with ⟨notZero, run⟩
  rcases exists_of_bind run with ⟨_, _, run⟩
  rcases exists_of_bind run with ⟨_, _, run⟩
  rcases exists_of_check run with ⟨cycles, run⟩
  rcases exists_of_bind run with ⟨_, _, run⟩
  rcases exists_of_bind run with ⟨_, _, run⟩
  rcases exists_of_bind run with ⟨_, _, run⟩
  cases run
  exact ⟨by omega, cycles, rfl, rfl, rfl, rfl, rfl⟩

/-- The record of a line that is not discarded. -/
def recordOf (numerals : Numerals) (line : Text) : Option Record :=
  if Discarded line then none else (parseRecord numerals (line.splitOn ',')).toOption

/-- The records of some files. -/
def recordsOf (numerals : Numerals) (files : List Text) : List Record :=
  (files.flatMap Text.lines).filterMap (recordOf numerals)

/-- A line is discarded, or it is measured as a record. -/
theorem readLine_cases {line : Text} {contribution : Option Measured}
    (read : readLine numerals line = .ok contribution) :
    (recordOf numerals line = none ∧ contribution = none) ∨
      ∃ record measured, recordOf numerals line = some record ∧ contribution = some measured ∧
        Measures record measured := by
  unfold readLine at read
  unfold recordOf
  by_cases discarded : Discarded line
  · rw [if_pos discarded] at read ⊢
    cases read
    exact .inl ⟨rfl, rfl⟩
  · rw [if_neg discarded] at read ⊢
    rcases exists_of_bind read with ⟨record, parsed, read⟩
    rcases exists_of_bind read with ⟨measured, run, read⟩
    cases read
    exact .inr ⟨record, measured, by rw [parsed]; rfl, rfl, measures_of_ok run⟩

/-! ### Totals and averages -/

/-- The quantity of a record that a histogram is about. -/
def Record.quantity (record : Record) : Histogram → ℚ
  | .duration => (record.endTime - record.startTime : ℤ)
  | .cpuRate => record.cpuUsage
  | .diskIo => record.diskIoTime
  | .diskSpace => record.localDiskSpaceUsage
  | .ispc => (record.endTime - record.startTime : ℤ) / record.cyclesPerInstruction
  | .mai => record.memoryAccessesPerInstruction

/-- What the loop body adds to the total of a quantity. -/
def Record.added (record : Record) : Histogram → ℚ
  -- the total of the disk space goes up by one
  | .diskSpace => 1
  | histogram => record.quantity histogram

namespace Statistics

/-- The running total of a quantity. -/
def totalOf (statistics : Statistics) : Histogram → ℚ
  | .duration => statistics.totalTaskDurations
  | .cpuRate => statistics.totalCpuRate
  | .diskIo => statistics.totalDiskIo
  | .diskSpace => statistics.totalDiskSpaceUsage
  | .ispc => statistics.totalIspc
  | .mai => statistics.totalMai

/-- The number that is printed as an average. -/
def average (statistics : Statistics) : Histogram → ℚ
  | .duration => (statistics.totalTaskDurations / statistics.tasksProcessed : ℤ)
  | .diskSpace => (statistics.totalDiskSpaceUsage / statistics.tasksProcessed : ℤ)
  | histogram => statistics.totalOf histogram / statistics.tasksProcessed

/-- Two averages are whole numbers, printed as such. -/
theorem averageText_eq (numerals : Numerals) (statistics : Statistics) (histogram : Histogram) :
    (∃ number : ℤ, statistics.average histogram = number ∧
      statistics.averageText numerals histogram = Text.intText number) ∨
      statistics.averageText numerals histogram =
        numerals.floatText (statistics.average histogram) := by
  cases histogram with
  | duration => exact .inl ⟨_, rfl, rfl⟩
  | diskSpace => exact .inl ⟨_, rfl, rfl⟩
  | cpuRate => exact .inr rfl
  | diskIo => exact .inr rfl
  | ispc => exact .inr rfl
  | mai => exact .inr rfl

theorem totalOf_add (statistics : Statistics) {record : Record} {measured : Measured}
    (measures : Measures record measured) (histogram : Histogram) :
    (statistics.add (some measured)).totalOf histogram =
      statistics.totalOf histogram + record.added histogram := by
  cases histogram with
  | duration =>
      show ((statistics.totalTaskDurations + measured.duration : ℤ) : ℚ) = _
      rw [measures.duration, Int.cast_add]
      rfl
  | cpuRate => exact congrArg (statistics.totalCpuRate + ·) measures.cpuUsage
  | diskIo => exact congrArg (statistics.totalDiskIo + ·) measures.diskIoTime
  | diskSpace =>
      show ((statistics.totalDiskSpaceUsage + 1 : ℤ) : ℚ) = _
      rw [Int.cast_add, Int.cast_one]
      rfl
  | ispc => exact congrArg (statistics.totalIspc + ·) measures.ispc
  | mai => exact congrArg (statistics.totalMai + ·) measures.memoryAccessesPerInstruction

end Statistics

/-- The accumulators after some records. -/
structure Accumulated (before : Statistics) (records : List Record) (last : Statistics) : Prop where
  tasks : last.tasksProcessed = before.tasksProcessed + records.length
  buckets : ∀ histogram, (last.distribution histogram).total =
    (before.distribution histogram).total + records.length
  totals : ∀ histogram, last.totalOf histogram =
    before.totalOf histogram + (records.map fun record => record.added histogram).sum

/-- One more record in front. -/
theorem Accumulated.cons {before last : Statistics} {record : Record} {measured : Measured}
    {records : List Record} (measures : Measures record measured)
    (rest : Accumulated (before.add (some measured)) records last) :
    Accumulated before (record :: records) last := by
  refine ⟨?_, fun histogram => ?_, fun histogram => ?_⟩
  · rw [rest.tasks, List.length_cons]
    show before.tasksProcessed + 1 + records.length = _
    omega
  · rw [rest.buckets, distribution_add, Counts.total_bump, List.length_cons]
    omega
  · rw [rest.totals, Statistics.totalOf_add before measures, List.map_cons, List.sum_cons,
      add_assoc]

/-- Every line of a run is accounted for. -/
theorem accumulated_of_run {before last : Statistics} {lines : List Text}
    (run : processLines numerals before lines = .ok last) :
    Accumulated before (lines.filterMap (recordOf numerals)) last := by
  induction lines generalizing before with
  | nil =>
      cases run
      exact ⟨by simp, by simp, by simp⟩
  | cons line lines inductionHypothesis =>
      rw [processLines_cons] at run
      rcases exists_of_bind run with ⟨contribution, read, run⟩
      rcases readLine_cases read with ⟨skipped, rfl⟩ | ⟨record, measured, kept, rfl, measures⟩
      · have rest := inductionHypothesis run
        rw [List.filterMap_cons_none skipped]
        refine ⟨rest.tasks, fun histogram => ?_, fun histogram => ?_⟩
        · rw [rest.buckets, distribution_discard]
        · rw [rest.totals]
          cases histogram <;> rfl
      · rw [List.filterMap_cons_some kept]
        exact (inductionHypothesis run).cons measures

/-! ### Reports -/

/-- A report says of each quantity of some records how many records there are, and their mean. -/
structure Consistent (records : List Record) (statistics : Statistics) : Prop where
  tasks : statistics.tasksProcessed = records.length
  buckets : ∀ histogram, (statistics.distribution histogram).total = statistics.tasksProcessed
  averages : ∀ histogram, statistics.average histogram =
    (records.map fun record => record.quantity histogram).sum / records.length

/-- The mean duration is whole, and the disk space used is one on average. -/
structure Exact (records : List Record) : Prop where
  duration : (records.length : ℤ) ∣
    (records.map fun record => record.endTime - record.startTime).sum
  diskSpace : (records.map Record.localDiskSpaceUsage).sum = records.length

/-- A quotient rounded down is the quotient when it is whole. -/
theorem cast_ediv_eq_iff {total number : ℤ} (nonzero : number ≠ 0) :
    ((total / number : ℤ) : ℚ) = total / number ↔ number ∣ total := by
  have divisor : (number : ℚ) ≠ 0 := Int.cast_ne_zero.mpr nonzero
  constructor
  · intro same
    rw [eq_div_iff divisor, ← Int.cast_mul, Int.cast_inj] at same
    exact Dvd.intro_left _ same
  · intro divides
    exact Int.cast_div divides divisor

section Accumulators

variable {records : List Record} {statistics : Statistics}

theorem Accumulated.tasks_eq (accumulated : Accumulated {} records statistics) :
    statistics.tasksProcessed = records.length := by
  rw [accumulated.tasks]
  exact zero_add _

theorem Accumulated.totalOf_eq (accumulated : Accumulated {} records statistics)
    (histogram : Histogram) : statistics.totalOf histogram =
      (records.map fun record => record.added histogram).sum := by
  have none : Statistics.totalOf {} histogram = 0 := by cases histogram <;> rfl
  rw [accumulated.totals, none, zero_add]

/-- The average of a quantity that is summed and divided as it is. -/
theorem Accumulated.average_eq (accumulated : Accumulated {} records statistics)
    {histogram : Histogram} (real : histogram ≠ .duration) (summed : histogram ≠ .diskSpace) :
    statistics.average histogram =
      (records.map fun record => record.quantity histogram).sum / records.length := by
  have total := accumulated.totalOf_eq histogram
  have tasks : (statistics.tasksProcessed : ℚ) = records.length := by
    rw [accumulated.tasks_eq, Int.cast_natCast]
  cases histogram with
  | duration => exact absurd rfl real
  | diskSpace => exact absurd rfl summed
  | cpuRate => exact congrArg₂ (· / ·) total tasks
  | diskIo => exact congrArg₂ (· / ·) total tasks
  | ispc => exact congrArg₂ (· / ·) total tasks
  | mai => exact congrArg₂ (· / ·) total tasks

/-- The duration average is rounded down. -/
theorem Accumulated.average_duration_iff (accumulated : Accumulated {} records statistics)
    (nonzero : statistics.tasksProcessed ≠ 0) :
    statistics.average .duration =
        (records.map fun record => record.quantity .duration).sum / records.length ↔
      (records.length : ℤ) ∣ (records.map fun record => record.endTime - record.startTime).sum := by
  have sum : (records.map fun record => record.quantity .duration).sum =
      ((records.map fun record => record.endTime - record.startTime).sum : ℤ) := by
    rw [Int.cast_list_sum, List.map_map]
    rfl
  have total : statistics.totalTaskDurations =
      (records.map fun record => record.endTime - record.startTime).sum := by
    rw [← @Int.cast_inj ℚ, ← sum]
    exact accumulated.totalOf_eq .duration
  have rational : (records.length : ℚ) = ((records.length : ℤ) : ℚ) := (Int.cast_natCast _).symm
  rw [sum, rational, Statistics.average, total, accumulated.tasks_eq]
  exact cast_ediv_eq_iff (accumulated.tasks_eq ▸ nonzero)

/-- The average of the disk space is one. -/
theorem Accumulated.average_diskSpace_iff (accumulated : Accumulated {} records statistics)
    (nonzero : statistics.tasksProcessed ≠ 0) :
    statistics.average .diskSpace =
        (records.map fun record => record.quantity .diskSpace).sum / records.length ↔
      (records.map Record.localDiskSpaceUsage).sum = records.length := by
  have length : (records.length : ℚ) ≠ 0 := by
    rw [← Int.cast_natCast, ← accumulated.tasks_eq]
    exact Int.cast_ne_zero.mpr nonzero
  have ones : (records.map fun record => record.added .diskSpace).sum = records.length := by
    simp [Record.added]
  have total : statistics.totalDiskSpaceUsage = statistics.tasksProcessed := by
    rw [accumulated.tasks_eq, ← @Int.cast_inj ℚ, Int.cast_natCast, ← ones]
    exact accumulated.totalOf_eq .diskSpace
  rw [Statistics.average, total, Int.ediv_self nonzero, Int.cast_one, eq_div_iff length, one_mul,
    eq_comm]
  rfl

theorem Accumulated.consistent_iff (accumulated : Accumulated {} records statistics)
    (nonzero : statistics.tasksProcessed ≠ 0) : Consistent records statistics ↔ Exact records := by
  constructor
  · intro consistent
    exact ⟨(accumulated.average_duration_iff nonzero).mp (consistent.averages _),
      (accumulated.average_diskSpace_iff nonzero).mp (consistent.averages _)⟩
  · intro exactly
    refine ⟨accumulated.tasks_eq, fun histogram => ?_, fun histogram => ?_⟩
    · have none : (Statistics.distribution {} histogram).total = 0 := by cases histogram <;> rfl
      rw [accumulated.buckets, none, zero_add, accumulated.tasks_eq]
    · by_cases duration : histogram = .duration
      · rw [duration]
        exact (accumulated.average_duration_iff nonzero).mpr exactly.duration
      · by_cases diskSpace : histogram = .diskSpace
        · rw [diskSpace]
          exact (accumulated.average_diskSpace_iff nonzero).mpr exactly.diskSpace
        · exact accumulated.average_eq duration diskSpace

end Accumulators

/-- The report after some files is that of the records of all files so far. -/
theorem exists_report_at {statistics : Statistics} {files reports : List Text}
    (run : usage numerals statistics files = .ok reports) {position : ℕ} {text : Text}
    (written : reports[position]? = some text) :
    position < files.length ∧ ∃ state, processLines numerals statistics
      ((files.take (position + 1)).flatMap Text.lines) = .ok state ∧
      report numerals state = .ok text := by
  induction files generalizing statistics reports position with
  | nil =>
      cases run
      simp at written
  | cons file files inductionHypothesis =>
      rcases exists_of_bind run with ⟨next, processed, run⟩
      rcases exists_of_bind run with ⟨first, reported, run⟩
      rcases exists_of_bind run with ⟨texts, rest, run⟩
      cases run
      rw [List.take_succ_cons, List.flatMap_cons, processLines_append, processed]
      cases position with
      | zero =>
          rw [List.getElem?_cons_zero, Option.some_inj] at written
          subst written
          exact ⟨Nat.succ_pos _, next, rfl, reported⟩
      | succ position =>
          rw [List.getElem?_cons_succ] at written
          rcases inductionHypothesis rest written with ⟨inside, state, later⟩
          exact ⟨Nat.succ_lt_succ inside, state, later⟩

theorem length_reports {statistics : Statistics} {files reports : List Text}
    (run : usage numerals statistics files = .ok reports) : reports.length = files.length := by
  rcases exists_reported run with ⟨states, reported⟩
  rw [← reported.written.length_eq, reported.length]

/-- A report is that of the state after some files, and consistent with their records. -/
def ReportConsistent (numerals : Numerals) (files : List Text) (text : Text) : Prop :=
  ∃ state, processLines numerals {} (files.flatMap Text.lines) = .ok state ∧
    report numerals state = .ok text ∧ Consistent (recordsOf numerals files) state

/-- Every report is consistent if and only if after every file the number of records divides
the sum of the durations and is the sum of the disk space used. -/
theorem reports_consistent_iff (numerals : Numerals) (files reports : List Text)
    (run : usage numerals {} files = .ok reports) :
    (∀ position text, reports[position]? = some text →
        ReportConsistent numerals (files.take (position + 1)) text) ↔
      ∀ position < files.length, Exact (recordsOf numerals (files.take (position + 1))) := by
  constructor
  · intro consistent position inside
    rw [← length_reports run] at inside
    rcases consistent position _ (List.getElem?_eq_getElem inside) with
      ⟨state, processed, written, consistentHere⟩
    exact ((accumulated_of_run processed).consistent_iff (tasksProcessed_ne_zero written)).mp
      consistentHere
  · intro exactly position text written
    rcases exists_report_at run written with ⟨inside, state, processed, reported⟩
    refine ⟨state, processed, reported, ?_⟩
    exact ((accumulated_of_run processed).consistent_iff (tasksProcessed_ne_zero reported)).mpr
      (exactly position inside)

/-- Thirty and fifty seconds with two units of disk space, then forty with one. -/
def evenFiles : List Text :=
  [halfCore ++ "0,50,1,1,1,0.5,0,0,0,0,0,0,2,0.5,0,1,0,1,0\n".toList,
    "10,50,1,2,1,0.5,0,0,0,0,0,0,1,0.5,0,1,0,1,0\n".toList]

theorem reports_consistent_iff_even_files :
    ∃ reports, usage Numerals.decimal {} evenFiles = .ok reports ∧
      ∀ position text, reports[position]? = some text →
        ReportConsistent Numerals.decimal (evenFiles.take (position + 1)) text := by
  have ends : (usage Numerals.decimal {} evenFiles).isOk = true := by decide +kernel
  rcases exists_of_isOk ends with ⟨reports, run⟩
  refine ⟨reports, run, ?_⟩
  apply (reports_consistent_iff Numerals.decimal evenFiles reports run).mpr
  intro position inside
  have two : position < 2 := inside
  obtain rfl | rfl : position = 0 ∨ position = 1 := by omega
  · exact ⟨by decide +kernel, by decide +kernel⟩
  · exact ⟨by decide +kernel, by decide +kernel⟩

/-- Two records of thirty and thirty-one seconds, without any disk space. -/
def twoTasks : Text :=
  ("0,30,1,0,1,0.5,0,0,0,0,0,0,0,0.5,0,1,0,1,0\n" ++
    "0,31,1,1,1,0.5,0,0,0,0,0,0,0,0.5,0,1,0,1,0\n").toList

/-- The report has an average duration of thirty seconds instead of thirty and a half,
and one unit of disk space on average instead of none. -/
theorem report_two_tasks_inconsistent :
    ∃ text state, usage Numerals.decimal {} [twoTasks] = .ok [text] ∧
      processLines Numerals.decimal {} (Text.lines twoTasks) = .ok state ∧
      state.average .duration = 30 ∧ state.average .diskSpace = 1 ∧
      ¬ ∀ position written, [text][position]? = some written →
        ReportConsistent Numerals.decimal ([twoTasks].take (position + 1)) written := by
  have ends : (usage Numerals.decimal {} [twoTasks]).isOk = true := by decide +kernel
  rcases exists_of_isOk ends with ⟨reports, run⟩
  rcases exists_of_usage_singleton run with ⟨state, text, processed, written, rfl⟩
  have printed (histogram : Histogram) :
      (processLines Numerals.decimal {} (Text.lines twoTasks)).toOption.map
        (fun state => state.average histogram) = some (state.average histogram) := by
    rw [processed]
    rfl
  have duration : state.average .duration = 30 := by
    rw [← Option.some_inj, ← printed]
    decide +kernel
  have diskSpace : state.average .diskSpace = 1 := by
    rw [← Option.some_inj, ← printed]
    decide +kernel
  refine ⟨text, state, run, processed, duration, diskSpace, fun consistent => ?_⟩
  rcases consistent 0 text rfl with ⟨last, again, reported, consistentHere⟩
  have exactly := ((accumulated_of_run again).consistent_iff
    (tasksProcessed_ne_zero reported)).mp consistentHere
  have unused : ¬ ((recordsOf Numerals.decimal [twoTasks]).map Record.localDiskSpaceUsage).sum =
      (recordsOf Numerals.decimal [twoTasks]).length := by
    decide +kernel
  exact unused exactly.diskSpace

end CSE550.Trace
