import CSE550.Trace.Consistency

/-!
Owns the arithmetic faults of `usage.py`: divisions by zero and logarithms of numbers
that are not positive.

Does not own the faults of lines that are no records.
-/

namespace CSE550.Trace

open CSE550.Lib

variable {numerals : Numerals}

/-- The run stops at a logarithm or at a division. -/
def ArithmeticFault {Result : Type} (run : Except Fault Result) : Prop :=
  run = .error .domain ∨ run = .error .zeroDivision

theorem not_arithmeticFault_ok {Result : Type} (result : Result) :
    ¬ ArithmeticFault (.ok result : Except Fault Result) := by
  rintro (same | same)
  · cases same
  · cases same

/-- A fault of the first part is one of the sequence. -/
theorem ArithmeticFault.bind {Value Result : Type} {first : Except Fault Value}
    (fault : ArithmeticFault first) (rest : Value → Except Fault Result) :
    ArithmeticFault (first >>= rest) := by
  rcases fault with rfl | rfl
  · exact .inl rfl
  · exact .inr rfl

/-! ### One record -/

/-- The numeric fields. -/
def Record.numbers (record : Record) : List ℚ :=
  [record.startTime, record.endTime, record.jobId, record.taskIndex, record.machineId,
    record.cpuUsage, record.canonicalMemoryUsage, record.assignedMemoryUsage,
    record.unmappedPageCache, record.totalPageCache, record.maximumMemoryUsage,
    record.diskIoTime, record.localDiskSpaceUsage, record.maximumCpuRate,
    record.maximumDiskIoTime, record.cyclesPerInstruction, record.memoryAccessesPerInstruction,
    record.samplePortion]

/-- Fields that are not negative, and a duration that passes the check of the program. -/
structure Admissible (record : Record) : Prop where
  numbers : ∀ number ∈ record.numbers, 0 ≤ number
  aggregationType : ∃ number, 0 ≤ number ∧ readInt record.aggregationType = .ok number
  duration : 0 ≤ record.endTime - record.startTime

/-- The record lasts for a while, and needs cycles. -/
def Regular (record : Record) : Prop :=
  record.startTime < record.endTime ∧ record.cyclesPerInstruction ≠ 0

theorem magnitude_of_pos {number : ℚ} (positive : 0 < number) :
    numerals.magnitude number = .ok (.number (numerals.floorLog number)) := if_pos positive

theorem exists_magnitudeOrInf {number : ℚ} (notNegative : 0 ≤ number) :
    ∃ bucket, numerals.magnitudeOrInf number = .ok bucket := by
  unfold Numerals.magnitudeOrInf
  split
  · rename_i nonzero
    exact ⟨_, magnitude_of_pos (lt_of_le_of_ne notNegative (Ne.symm nonzero))⟩
  · exact ⟨_, rfl⟩

section Measure

variable {record : Record}

/-- A duration of zero has no logarithm. -/
theorem measure_of_instant (instant : record.endTime - record.startTime = 0) :
    measure numerals record = .error .domain := by
  have none : numerals.magnitude ((record.endTime - record.startTime : ℤ) : ℚ) =
      .error .domain := by
    rw [instant]
    rfl
  have notNegative : ¬ record.endTime - record.startTime < 0 := by omega
  simp only [measure, notNegative, if_false, none, bind, Except.bind]

/-- Up to the cycles, nothing stops the loop body. -/
theorem measure_of_lasting (admissible : Admissible record)
    (lasting : record.startTime < record.endTime) :
    (record.cyclesPerInstruction = 0 → measure numerals record = .error .zeroDivision) ∧
      (record.cyclesPerInstruction ≠ 0 → ∃ measured, measure numerals record = .ok measured) := by
  have notNegative : ¬ record.endTime - record.startTime < 0 := by omega
  have notZero : record.endTime - record.startTime ≠ 0 := by omega
  have duration : (0 : ℚ) < (record.endTime - record.startTime : ℤ) := Int.cast_pos.mpr (by omega)
  have diskIo : 0 ≤ record.diskIoTime := admissible.numbers _ (by simp [Record.numbers])
  have diskSpace : 0 ≤ record.localDiskSpaceUsage :=
    admissible.numbers _ (by simp [Record.numbers])
  have cycles : 0 ≤ record.cyclesPerInstruction := admissible.numbers _ (by simp [Record.numbers])
  have accesses : 0 ≤ record.memoryAccessesPerInstruction :=
    admissible.numbers _ (by simp [Record.numbers])
  rcases @exists_magnitudeOrInf numerals _ (div_nonneg diskIo duration.le) with ⟨percent, first⟩
  rcases @exists_magnitudeOrInf numerals _ diskSpace with ⟨usage, second⟩
  constructor
  · intro noCycles
    simp only [measure, notNegative, notZero, noCycles, if_false, if_true,
      magnitude_of_pos duration, first, second, bind, Except.bind]
    rfl
  · intro someCycles
    rcases @exists_magnitudeOrInf numerals _ (div_nonneg duration.le cycles) with ⟨ispc, third⟩
    rcases @exists_magnitudeOrInf numerals _ accesses with ⟨mai, fourth⟩
    rcases admissible.aggregationType with ⟨aggregation, _, fifth⟩
    simp only [measure, notNegative, notZero, someCycles, if_false, magnitude_of_pos duration,
      first, second, third, fourth, fifth, bind, Except.bind]
    exact ⟨_, rfl⟩

/-- An admissible record is measured, or it is irregular and stops the program. -/
theorem measure_or_fault (admissible : Admissible record) :
    (∃ measured, measure numerals record = .ok measured) ∨
      ArithmeticFault (measure numerals record) ∧ ¬ Regular record := by
  by_cases lasting : record.startTime < record.endTime
  · have measures := @measure_of_lasting numerals record admissible lasting
    by_cases cycles : record.cyclesPerInstruction = 0
    · exact .inr ⟨.inr (measures.1 cycles), fun regular => regular.2 cycles⟩
    · exact .inl (measures.2 cycles)
  · have instant : record.endTime - record.startTime = 0 := by
      have duration := admissible.duration
      omega
    exact .inr ⟨.inl (measure_of_instant instant), fun regular => lasting regular.1⟩

end Measure

/-! ### The lines of a file -/

/-- A line is discarded, or has an admissible record. -/
def WellFormed (numerals : Numerals) (line : Text) : Prop :=
  ¬ Discarded line → ∃ record, parseRecord numerals (line.splitOn ',') = .ok record ∧
    Admissible record

theorem recordOf_of_parsed {line : Text} {record : Record} (kept : ¬ Discarded line)
    (parsed : parseRecord numerals (line.splitOn ',') = .ok record) :
    recordOf numerals line = some record := by
  rw [recordOf, if_neg kept, parsed]
  rfl

theorem readLine_or_fault {line : Text} (wellFormed : WellFormed numerals line) :
    (∃ contribution, readLine numerals line = .ok contribution) ∨
      ArithmeticFault (readLine numerals line) ∧
        ∃ record, recordOf numerals line = some record ∧ ¬ Regular record := by
  unfold readLine
  by_cases discarded : Discarded line
  · exact .inl ⟨none, if_pos discarded⟩
  · rcases wellFormed discarded with ⟨record, parsed, admissible⟩
    rw [if_neg discarded, parsed]
    rcases @measure_or_fault numerals record admissible with ⟨measured, run⟩ | ⟨fault, irregular⟩
    · refine .inl ⟨some measured, ?_⟩
      show (measure numerals record >>= fun measured => pure (some measured)) = _
      rw [run]
      rfl
    · exact .inr ⟨fault.bind _, record, recordOf_of_parsed discarded parsed, irregular⟩

/-- All lines are counted, or an irregular record stops the program. -/
theorem processLines_or_fault {lines : List Text}
    (wellFormed : ∀ line ∈ lines, WellFormed numerals line) (statistics : Statistics) :
    (∃ last, processLines numerals statistics lines = .ok last) ∨
      ArithmeticFault (processLines numerals statistics lines) ∧
        ∃ record ∈ lines.filterMap (recordOf numerals), ¬ Regular record := by
  induction lines generalizing statistics with
  | nil => exact .inl ⟨statistics, rfl⟩
  | cons line lines inductionHypothesis =>
      rw [List.forall_mem_cons] at wellFormed
      rw [processLines_cons]
      rcases readLine_or_fault wellFormed.1 with
        ⟨contribution, read⟩ | ⟨fault, record, kept, irregular⟩
      · rw [read]
        rcases inductionHypothesis wellFormed.2 (statistics.add contribution) with
          ran | ⟨fault, record, member, irregular⟩
        · exact .inl ran
        · refine .inr ⟨fault, record, ?_, irregular⟩
          rcases List.mem_filterMap.mp member with ⟨other, inside, kept⟩
          exact List.mem_filterMap.mpr ⟨other, List.mem_cons_of_mem _ inside, kept⟩
      · refine .inr ⟨fault.bind _, record, ?_, irregular⟩
        exact List.mem_filterMap.mpr ⟨line, List.mem_cons_self, kept⟩

/-- A run that ends has measured regular records only. -/
theorem regular_of_run {statistics last : Statistics} {lines : List Text}
    (run : processLines numerals statistics lines = .ok last) :
    ∀ record ∈ lines.filterMap (recordOf numerals), Regular record := by
  induction lines generalizing statistics with
  | nil => simp
  | cons line lines inductionHypothesis =>
      rw [processLines_cons] at run
      rcases exists_of_bind run with ⟨contribution, read, run⟩
      have later := inductionHypothesis run
      rcases readLine_cases read with ⟨skipped, _⟩ | ⟨record, measured, kept, _, measures⟩
      · rwa [List.filterMap_cons_none skipped]
      · rw [List.filterMap_cons_some kept, List.forall_mem_cons]
        exact ⟨⟨measures.positive, measures.cycles⟩, later⟩

/-! ### The files -/

/-- The first report has a task to divide by, and all records are regular. -/
def Divisible (numerals : Numerals) (files : List Text) : Prop :=
  (files = [] ∨ FirstAccepted files) ∧ ∀ record ∈ recordsOf numerals files, Regular record

theorem mem_recordsOf_cons {file : Text} {files : List Text} {record : Record} :
    record ∈ recordsOf numerals (file :: files) ↔
      record ∈ (Text.lines file).filterMap (recordOf numerals) ∨
        record ∈ recordsOf numerals files := by
  rw [recordsOf, List.flatMap_cons, List.filterMap_append, List.mem_append]
  rfl

/-- Where a line is accepted, there is a record. -/
theorem exists_record {file : Text}
    (wellFormed : ∀ line ∈ Text.lines file, WellFormed numerals line)
    (accepted : ∃ line ∈ Text.lines file, ¬ Discarded line) :
    (Text.lines file).filterMap (recordOf numerals) ≠ [] := by
  rcases accepted with ⟨line, member, kept⟩
  rcases wellFormed line member kept with ⟨record, parsed, _⟩
  have inside : record ∈ (Text.lines file).filterMap (recordOf numerals) :=
    List.mem_filterMap.mpr ⟨line, member, recordOf_of_parsed kept parsed⟩
  exact List.ne_nil_of_mem inside

theorem report_of_pos {statistics : Statistics} (some : 0 < statistics.tasksProcessed) :
    ∃ text, report numerals statistics = .ok text := ⟨_, if_neg (by omega)⟩

/-- Once a task was processed, all reports are written, or an irregular record stops the
program. -/
theorem usage_or_fault {files : List Text}
    (wellFormed : ∀ file ∈ files, ∀ line ∈ Text.lines file, WellFormed numerals line)
    {statistics : Statistics} (notNegative : 0 ≤ statistics.tasksProcessed) :
    (∃ reports, usage numerals statistics files = .ok reports) ∨
      ArithmeticFault (usage numerals statistics files) ∧
        ((∃ record ∈ recordsOf numerals files, ¬ Regular record) ∨
          statistics.tasksProcessed = 0 ∧ ¬ (files = [] ∨ FirstAccepted files)) := by
  induction files generalizing statistics with
  | nil => exact .inl ⟨[], rfl⟩
  | cons file files inductionHypothesis =>
      rw [List.forall_mem_cons] at wellFormed
      rw [usage]
      rcases processLines_or_fault wellFormed.1 statistics with
        ⟨next, processed⟩ | ⟨fault, record, member, irregular⟩
      · have accumulated := (accumulated_of_run processed).tasks
        rw [processed]
        show (∃ reports, (report numerals next >>= _) = _) ∨
          ArithmeticFault (report numerals next >>= _) ∧ _
        by_cases none : next.tasksProcessed = 0
        · have stops : report numerals next = .error .zeroDivision := if_pos none
          rw [stops]
          refine .inr ⟨.inr rfl, .inr ⟨by omega, ?_⟩⟩
          rintro (empty | ⟨first, isFirst, accepted⟩)
          · cases empty
          · cases isFirst
            have length := List.length_pos_of_ne_nil (exists_record wellFormed.1 accepted)
            omega
        · have positive : 0 < next.tasksProcessed := by omega
          rcases @report_of_pos numerals next positive with ⟨text, written⟩
          rw [written]
          show (∃ reports, (usage numerals next files >>= _) = _) ∨
            ArithmeticFault (usage numerals next files >>= _) ∧ _
          rcases inductionHypothesis wellFormed.2 positive.le with
            ⟨reports, ran⟩ | ⟨fault, ⟨record, member, irregular⟩ | ⟨zero, _⟩⟩
          · rw [ran]
            exact .inl ⟨text :: reports, rfl⟩
          · exact .inr ⟨fault.bind _,
              .inl ⟨record, mem_recordsOf_cons.mpr (.inr member), irregular⟩⟩
          · exact absurd zero none
      · exact .inr ⟨fault.bind _,
          .inl ⟨record, mem_recordsOf_cons.mpr (.inl member), irregular⟩⟩

/-- A run that ends had a task for its first report, and regular records only. -/
theorem divisible_of_run {files reports : List Text}
    (run : usage numerals {} files = .ok reports) : Divisible numerals files := by
  constructor
  · cases files with
    | nil => exact .inl rfl
    | cons file files =>
        rcases exists_of_bind run with ⟨next, processed, run⟩
        rcases exists_of_bind run with ⟨text, written, _⟩
        have tasks := (accumulated_of_run processed).tasks_eq
        have nonzero := tasksProcessed_ne_zero written
        have records : (Text.lines file).filterMap (recordOf numerals) ≠ [] := by
          intro none
          rw [none, List.length_nil] at tasks
          exact nonzero tasks
        rcases List.exists_mem_of_ne_nil _ records with ⟨record, member⟩
        rcases List.mem_filterMap.mp member with ⟨line, inside, kept⟩
        refine .inr ⟨file, rfl, line, inside, fun discarded => ?_⟩
        rw [recordOf, if_pos discarded] at kept
        cases kept
  · rcases exists_reported run with ⟨states, reported⟩
    exact regular_of_run reported.last

/-- On admissible records no division by zero and no logarithm of a number that is not
positive is evaluated if and only if every record lasts for a while and needs cycles, and
the first file has a record. -/
theorem arithmetic_fault_free_iff (numerals : Numerals) (files : List Text)
    (wellFormed : ∀ file ∈ files, ∀ line ∈ Text.lines file, WellFormed numerals line) :
    ¬ ArithmeticFault (usage numerals {} files) ↔ Divisible numerals files := by
  have start : 0 ≤ ({} : Statistics).tasksProcessed := le_refl 0
  constructor
  · intro faultFree
    rcases usage_or_fault wellFormed start with ⟨reports, ran⟩ | ⟨fault, _⟩
    · exact divisible_of_run ran
    · exact absurd fault faultFree
  · intro divisible
    rcases usage_or_fault wellFormed start with
      ⟨reports, ran⟩ | ⟨_, ⟨record, member, irregular⟩ | ⟨_, noTask⟩⟩
    · rw [ran]
      exact not_arithmeticFault_ok reports
    · exact absurd (divisible.2 record member) irregular
    · exact absurd divisible.1 noTask

/-- A record at half a core that ends after thirty seconds. -/
def halfCoreRecord (startTime : ℤ) : Record where
  startTime := startTime
  endTime := 30
  jobId := 1
  taskIndex := 0
  machineId := 1
  cpuUsage := 1 / 2
  canonicalMemoryUsage := 0
  assignedMemoryUsage := 0
  unmappedPageCache := 0
  totalPageCache := 0
  maximumMemoryUsage := 0
  diskIoTime := 0
  localDiskSpaceUsage := 0
  maximumCpuRate := 1 / 2
  maximumDiskIoTime := 0
  cyclesPerInstruction := 1
  memoryAccessesPerInstruction := 0
  samplePortion := 1
  aggregationType := "0\n".toList

/-- A record that ends when it starts. -/
def instantTask : Text := "30,30,1,0,1,0.5,0,0,0,0,0,0,0,0.5,0,1,0,1,0\n".toList

theorem admissible_halfCoreRecord {startTime : ℤ} (notNegative : 0 ≤ startTime)
    (early : startTime ≤ 30) : Admissible (halfCoreRecord startTime) := by
  refine ⟨?_, ⟨0, le_refl 0, rfl⟩, ?_⟩
  · have real : (0 : ℚ) ≤ startTime := Int.cast_nonneg notNegative
    simp [Record.numbers, halfCoreRecord, real]
  · show 0 ≤ 30 - startTime
    omega

theorem parseRecord_instantTask :
    parseRecord Numerals.decimal (instantTask.splitOn ',') = .ok (halfCoreRecord 30) := by
  with_unfolding_all rfl

/-- Two records that start later. -/
def laterTasks : Text :=
  "10,30,1,0,1,0.5,0,0,0,0,0,0,0,0.5,0,1,0,1,0\n".toList ++
    "20,30,1,0,1,0.5,0,0,0,0,0,0,0,0.5,0,1,0,1,0\n".toList

theorem parseRecord_laterTasks :
    ∀ line ∈ Text.lines halfCore ++ Text.lines laterTasks, ∃ startTime, 0 ≤ startTime ∧
      startTime ≤ 30 ∧
      parseRecord Numerals.decimal (line.splitOn ',') = .ok (halfCoreRecord startTime) := by
  have lines : Text.lines halfCore ++ Text.lines laterTasks =
      [halfCore, "10,30,1,0,1,0.5,0,0,0,0,0,0,0,0.5,0,1,0,1,0\n".toList,
        "20,30,1,0,1,0.5,0,0,0,0,0,0,0,0.5,0,1,0,1,0\n".toList] := by
    decide
  rw [lines]
  intro line member
  simp only [List.mem_cons, List.not_mem_nil, or_false] at member
  rcases member with rfl | rfl | rfl
  · exact ⟨0, by omega, by omega, by with_unfolding_all rfl⟩
  · exact ⟨10, by omega, by omega, by with_unfolding_all rfl⟩
  · exact ⟨20, by omega, by omega, by with_unfolding_all rfl⟩

theorem arithmetic_fault_free_iff_half_core :
    ¬ ArithmeticFault (usage Numerals.decimal {} [halfCore, laterTasks]) := by
  apply (arithmetic_fault_free_iff Numerals.decimal [halfCore, laterTasks] ?_).mpr
  · refine ⟨.inr (accepted_halfCore [laterTasks]), ?_⟩
    have records : recordsOf Numerals.decimal [halfCore, laterTasks] =
        [halfCoreRecord 0, halfCoreRecord 10, halfCoreRecord 20] := by
      with_unfolding_all rfl
    rw [records]
    simp [Regular, halfCoreRecord]
  · intro file member line inside _
    have among : line ∈ Text.lines halfCore ++ Text.lines laterTasks := by
      rcases List.mem_pair.mp member with rfl | rfl
      · exact List.mem_append_left _ inside
      · exact List.mem_append_right _ inside
    rcases parseRecord_laterTasks line among with ⟨startTime, notNegative, early, parsed⟩
    exact ⟨_, parsed, admissible_halfCoreRecord notNegative early⟩

/-- The check of the program lets a duration of zero pass, which has no logarithm. -/
theorem instant_task_faults :
    (∀ file ∈ [instantTask], ∀ line ∈ Text.lines file, WellFormed Numerals.decimal line) ∧
      usage Numerals.decimal {} [instantTask] = .error .domain ∧
      ArithmeticFault (usage Numerals.decimal {} [instantTask]) := by
  have stops : usage Numerals.decimal {} [instantTask] = .error .domain := by
    with_unfolding_all rfl
  refine ⟨?_, stops, .inl stops⟩
  intro file member line inside _
  have lines : Text.lines instantTask = [instantTask] := by decide
  rw [List.mem_singleton.mp member, lines] at inside
  rw [List.mem_singleton.mp inside]
  exact ⟨_, parseRecord_instantTask, admissible_halfCoreRecord (by omega) (by omega)⟩

end CSE550.Trace
