import CSE550.Lib.Counts
import CSE550.Lib.Decimal
import Mathlib.Data.List.Sort

/-!
Owns `usage.py`: reading a task-usage record, what its loop counts, and the report
it writes after every file.

The counters are set up once, before the loop over the files. Numbers are exact;
how a fraction is printed, read and put on a logarithmic scale is left to `Numerals`.
-/

namespace CSE550.Trace

open CSE550.Lib

/-! ### Numbers -/

/-- What the scripts have from the language for numbers that need not be whole. -/
structure Numerals where
  /-- `str(number)` of a float. -/
  floatText : ℚ → Text
  /-- `float(text)`; `none` is a `ValueError`. -/
  readFloat : Text → Option ℚ
  /-- `floor(log(number)/log(LOG_BASE))` of a positive number. -/
  floorLog : ℚ → ℤ
  floatText_ne_nil : ∀ number, floatText number ≠ []
  floatText_clean : ∀ number, ∀ char ∈ floatText number, char ∉ [',', '\n', '\t', ' ']
  readFloat_floatText : ∀ number, ∃ value, readFloat (floatText number) = some value
  readFloat_intText : ∀ number, readFloat (Text.intText number) = some (number : ℚ)
  readFloat_blank : ∀ text, readFloat (' ' :: text) = readFloat text

/-- Why the program stops. -/
inductive Fault where
  | index
  | value
  | assertion
  | domain
  | zeroDivision
  deriving DecidableEq

/-- A sequence of two parts that ends without a fault. -/
theorem exists_of_bind {Value Result : Type} {first : Except Fault Value}
    {rest : Value → Except Fault Result} {result : Result} (run : first >>= rest = .ok result) :
    ∃ value, first = .ok value ∧ rest value = .ok result := by
  cases first with
  | error fault => cases run
  | ok value => exact ⟨value, rfl, run⟩

theorem exists_of_isOk {Result : Type} {run : Except Fault Result} (ends : run.isOk = true) :
    ∃ result, run = .ok result := by
  cases run with
  | error fault => cases ends
  | ok result => exact ⟨result, rfl⟩

/-- The key of a histogram: a number, or `float('Inf')`. -/
inductive Bucket where
  | number (value : ℚ)
  | inf
  deriving DecidableEq

/-- `left <= right`. -/
def Bucket.le : Bucket → Bucket → Prop
  | _, .inf => True
  | .inf, .number _ => False
  | .number left, .number right => left ≤ right

instance Bucket.decidableLe : DecidableRel Bucket.le := fun left right =>
  match left, right with
  | .number left, .number right => inferInstanceAs (Decidable (left ≤ right))
  | .number _, .inf => .isTrue trivial
  | .inf, .number _ => .isFalse id
  | .inf, .inf => .isTrue trivial

namespace Numerals

variable (numerals : Numerals)

/-- `str(key)` of a bucket. -/
def bucketText : Bucket → Text
  | .number value => numerals.floatText value
  | .inf => "inf".toList

/-- `floor(log(number)/log(LOG_BASE))`. -/
def magnitude (number : ℚ) : Except Fault Bucket :=
  if 0 < number then .ok (.number (numerals.floorLog number)) else .error .domain

/-- The bucket of a number that may be zero. -/
def magnitudeOrInf (number : ℚ) : Except Fault Bucket :=
  if number ≠ 0 then numerals.magnitude number else .ok .inf

end Numerals

/-! ### Records -/

/-- The fields of a line. -/
structure Record where
  startTime : ℤ
  endTime : ℤ
  jobId : ℤ
  taskIndex : ℤ
  machineId : ℤ
  cpuUsage : ℚ
  canonicalMemoryUsage : ℚ
  assignedMemoryUsage : ℚ
  unmappedPageCache : ℚ
  totalPageCache : ℚ
  maximumMemoryUsage : ℚ
  diskIoTime : ℚ
  localDiskSpaceUsage : ℚ
  maximumCpuRate : ℚ
  maximumDiskIoTime : ℚ
  cyclesPerInstruction : ℚ
  memoryAccessesPerInstruction : ℚ
  samplePortion : ℚ
  aggregationType : Text

/-- `fields[position]`. -/
def fieldAt (fields : List Text) (position : ℕ) : Except Fault Text :=
  match fields[position]? with
  | some text => .ok text
  | none => .error .index

/-- `int(text)`. -/
def readInt (text : Text) : Except Fault ℤ :=
  match Text.readInt text with
  | some number => .ok number
  | none => .error .value

/-- `float(text)`. -/
def Numerals.float (numerals : Numerals) (text : Text) : Except Fault ℚ :=
  match numerals.readFloat text with
  | some number => .ok number
  | none => .error .value

/-- The assignments at the head of the loop. -/
def parseRecord (numerals : Numerals) (fields : List Text) : Except Fault Record := do
  let startTime ← fieldAt fields 0 >>= readInt
  let endTime ← fieldAt fields 1 >>= readInt
  let jobId ← fieldAt fields 2 >>= readInt
  let taskIndex ← fieldAt fields 3 >>= readInt
  let machineId ← fieldAt fields 4 >>= readInt
  let cpuUsage ← fieldAt fields 5 >>= numerals.float
  let canonicalMemoryUsage ← fieldAt fields 6 >>= numerals.float
  let assignedMemoryUsage ← fieldAt fields 7 >>= numerals.float
  let unmappedPageCache ← fieldAt fields 8 >>= numerals.float
  let totalPageCache ← fieldAt fields 9 >>= numerals.float
  let maximumMemoryUsage ← fieldAt fields 10 >>= numerals.float
  let diskIoTime ← fieldAt fields 11 >>= numerals.float
  let localDiskSpaceUsage ← fieldAt fields 12 >>= numerals.float
  let maximumCpuRate ← fieldAt fields 13 >>= numerals.float
  let maximumDiskIoTime ← fieldAt fields 14 >>= numerals.float
  let cyclesPerInstruction ← fieldAt fields 15 >>= numerals.float
  let memoryAccessesPerInstruction ← fieldAt fields 16 >>= numerals.float
  let samplePortion ← fieldAt fields 17 >>= numerals.float
  let aggregationType ← fieldAt fields 18
  return {
    startTime, endTime, jobId, taskIndex, machineId, cpuUsage, canonicalMemoryUsage,
    assignedMemoryUsage, unmappedPageCache, totalPageCache, maximumMemoryUsage, diskIoTime,
    localDiskSpaceUsage, maximumCpuRate, maximumDiskIoTime, cyclesPerInstruction,
    memoryAccessesPerInstruction, samplePortion, aggregationType }

/-! ### The loop over the records -/

/-- What the loop body computes from a record. -/
structure Measured where
  duration : ℤ
  logDuration : Bucket
  cpuUsage : ℚ
  rate : Bucket
  diskIoTime : ℚ
  fdiskPercent : Bucket
  diskUsage : Bucket
  ispc : ℚ
  fispc : Bucket
  memoryAccessesPerInstruction : ℚ
  fmai : Bucket
  aggregationType : ℤ

/-- The computations of the loop body, in its order; a failure ends the program. -/
def measure (numerals : Numerals) (record : Record) : Except Fault Measured := do
  let duration := record.endTime - record.startTime
  if duration < 0 then throw .assertion
  let logDuration ← numerals.magnitude duration
  let rate := Bucket.number ((record.cpuUsage * 1000).floor / 1000)
  if duration = 0 then throw .zeroDivision
  let diskPercent := record.diskIoTime / duration
  let fdiskPercent ← numerals.magnitudeOrInf diskPercent
  let diskUsage ← numerals.magnitudeOrInf record.localDiskSpaceUsage
  if record.cyclesPerInstruction = 0 then throw .zeroDivision
  let ispc := duration / record.cyclesPerInstruction
  let fispc ← numerals.magnitudeOrInf ispc
  let fmai ← numerals.magnitudeOrInf record.memoryAccessesPerInstruction
  let aggregationType ← readInt record.aggregationType
  return {
    duration, logDuration, cpuUsage := record.cpuUsage, rate, diskIoTime := record.diskIoTime,
    fdiskPercent, diskUsage, ispc, fispc,
    memoryAccessesPerInstruction := record.memoryAccessesPerInstruction, fmai, aggregationType }

/-- The histograms. -/
inductive Histogram where
  | duration
  | cpuRate
  | diskIo
  | diskSpace
  | ispc
  | mai
  deriving DecidableEq

/-- The histograms in the order of the report. -/
def Histogram.all : List Histogram := [.duration, .cpuRate, .diskIo, .diskSpace, .ispc, .mai]

/-- The bucket a record falls into. -/
def Measured.bucket (measured : Measured) : Histogram → Bucket
  | .duration => measured.logDuration
  | .cpuRate => measured.rate
  | .diskIo => measured.fdiskPercent
  | .diskSpace => measured.diskUsage
  | .ispc => measured.fispc
  | .mai => measured.fmai

/-- The variables set up before the loop over the files. -/
structure Statistics where
  discardedTasks : ℤ := 0
  tasksProcessed : ℤ := 0
  taskDurationDistribution : Counts Bucket := ∅
  totalTaskDurations : ℤ := 0
  cpuRateDistribution : Counts Bucket := ∅
  totalCpuRate : ℚ := 0
  diskIoDistribution : Counts Bucket := ∅
  totalDiskIo : ℚ := 0
  diskSpaceUsageDistribution : Counts Bucket := ∅
  totalDiskSpaceUsage : ℤ := 0
  ispcDistribution : Counts Bucket := ∅
  totalIspc : ℚ := 0
  maiDistribution : Counts Bucket := ∅
  totalMai : ℚ := 0
  aggregationTasks : ℤ := 0

namespace Statistics

/-- The counters of a histogram. -/
def distribution (statistics : Statistics) : Histogram → Counts Bucket
  | .duration => statistics.taskDurationDistribution
  | .cpuRate => statistics.cpuRateDistribution
  | .diskIo => statistics.diskIoDistribution
  | .diskSpace => statistics.diskSpaceUsageDistribution
  | .ispc => statistics.ispcDistribution
  | .mai => statistics.maiDistribution

/-- A record that was discarded, or one that is counted. -/
def add (statistics : Statistics) : Option Measured → Statistics
  | none => { statistics with discardedTasks := statistics.discardedTasks + 1 }
  | some measured => { statistics with
      tasksProcessed := statistics.tasksProcessed + 1
      taskDurationDistribution := statistics.taskDurationDistribution.bump measured.logDuration
      totalTaskDurations := statistics.totalTaskDurations + measured.duration
      cpuRateDistribution := statistics.cpuRateDistribution.bump measured.rate
      totalCpuRate := statistics.totalCpuRate + measured.cpuUsage
      diskIoDistribution := statistics.diskIoDistribution.bump measured.fdiskPercent
      totalDiskIo := statistics.totalDiskIo + measured.diskIoTime
      diskSpaceUsageDistribution :=
        statistics.diskSpaceUsageDistribution.bump measured.diskUsage
      totalDiskSpaceUsage := statistics.totalDiskSpaceUsage + 1
      ispcDistribution := statistics.ispcDistribution.bump measured.fispc
      totalIspc := statistics.totalIspc + measured.ispc
      maiDistribution := statistics.maiDistribution.bump measured.fmai
      totalMai := statistics.totalMai + measured.memoryAccessesPerInstruction
      aggregationTasks := statistics.aggregationTasks + measured.aggregationType }

end Statistics

/-- A line with an empty field is discarded. -/
def Discarded (line : Text) : Prop := [] ∈ line.splitOn ','

instance Discarded.decidable (line : Text) : Decidable (Discarded line) := by
  unfold Discarded
  infer_instance

/-- What a line contributes; `none` when it is discarded. -/
def readLine (numerals : Numerals) (line : Text) : Except Fault (Option Measured) :=
  if Discarded line then .ok none
  else do
    let record ← parseRecord numerals (line.splitOn ',')
    let measured ← measure numerals record
    return some measured

/-- The loop over the lines of a file. -/
def processLines (numerals : Numerals) (statistics : Statistics) :
    List Text → Except Fault Statistics
  | [] => .ok statistics
  | line :: rest =>
      match readLine numerals line with
      | .error fault => .error fault
      | .ok contribution => processLines numerals (statistics.add contribution) rest

/-- The loop as a sequence: the first line, then the others. -/
theorem processLines_cons (numerals : Numerals) (statistics : Statistics) (line : Text)
    (rest : List Text) : processLines numerals statistics (line :: rest) =
      readLine numerals line >>= fun contribution =>
        processLines numerals (statistics.add contribution) rest := by
  rw [processLines]
  cases readLine numerals line with
  | error fault => rfl
  | ok contribution => rfl

/-! ### The report -/

/-- What the average of a histogram's quantity is called. -/
def Histogram.averageName : Histogram → Text
  | .duration => "TASK RECORD DURATION AVERAGE".toList
  | .cpuRate => "AVERAGE CPU RATE (core-seconds)".toList
  | .diskIo => "AVERAGE DISK I/O PERCENTAGE (percent)".toList
  | .diskSpace => "AVERAGE DISK SPACE USAGE".toList
  | .ispc => "AVERAGE INSTRUCTION-CYCLES PER SECOND".toList
  | .mai => "AVERAGE MEMORY ACCESSES PER INSTRUCTION".toList

/-- The line above a histogram. -/
def Histogram.heading : Histogram → Text
  | .duration => "TASK DURATION DISTRIBUTION (log_10),".toList
  | .cpuRate => "CPU RATE DISTRIBUTION (core-seconds),".toList
  | .diskIo => "DISK I/O DISTRIBUTION (disk I/O-seconds)".toList
  | .diskSpace => "DISK SPACE USAGE,".toList
  | .ispc => "INSTRUCTION-SECONDS PER CYCLE,".toList
  | .mai => "MEMORY ACCESSES PER INSTRUCTION, ".toList

/-- The printed average; the quotient of two `int` values is rounded down. -/
def Statistics.averageText (numerals : Numerals) (statistics : Statistics) : Histogram → Text
  | .duration => Text.intText (statistics.totalTaskDurations / statistics.tasksProcessed)
  | .cpuRate => numerals.floatText (statistics.totalCpuRate / statistics.tasksProcessed)
  | .diskIo => numerals.floatText (statistics.totalDiskIo / statistics.tasksProcessed)
  | .diskSpace => Text.intText (statistics.totalDiskSpaceUsage / statistics.tasksProcessed)
  | .ispc => numerals.floatText (statistics.totalIspc / statistics.tasksProcessed)
  | .mai => numerals.floatText (statistics.totalMai / statistics.tasksProcessed)

/-- A line with a single value. -/
def scalarLine (name value : Text) : Text := name ++ ',' :: ' ' :: value

/-- The line of a bucket. -/
def bucketLine (numerals : Numerals) (distribution : Counts Bucket) (key : Bucket) : Text :=
  numerals.bucketText key ++ ',' :: Text.intText ((distribution.lookup key).getD 0)

/-- The lines about one quantity: its average and its histogram. -/
def quantityLines (numerals : Numerals) (statistics : Statistics) (histogram : Histogram) :
    List Text :=
  [[], scalarLine histogram.averageName (statistics.averageText numerals histogram),
    [], histogram.heading] ++
    ((statistics.distribution histogram).keys.insertionSort Bucket.le).map
      (bucketLine numerals (statistics.distribution histogram))

/-- The lines of a report. -/
def reportLines (numerals : Numerals) (statistics : Statistics) : List Text :=
  [scalarLine "TOTAL TASKS PROCESSED".toList (Text.intText statistics.tasksProcessed),
    scalarLine "AGGREGATION TASKS".toList (Text.intText statistics.aggregationTasks),
    scalarLine "TASKS IGNORED".toList (Text.intText statistics.discardedTasks)] ++
    Histogram.all.flatMap (quantityLines numerals statistics)

/-- The text of a report; every average is a division by the number of tasks. -/
def report (numerals : Numerals) (statistics : Statistics) : Except Fault Text :=
  if statistics.tasksProcessed = 0 then .error .zeroDivision
  else .ok ((reportLines numerals statistics).flatMap fun line => line ++ ['\n'])

/-- The loop over the files: the reports it writes. -/
def usage (numerals : Numerals) (statistics : Statistics) : List Text → Except Fault (List Text)
  | [] => .ok []
  | file :: rest => do
      let next ← processLines numerals statistics (Text.lines file)
      let text ← report numerals next
      let texts ← usage numerals next rest
      return text :: texts

/-- The values of one pass over all records of all files. -/
def singlePass (numerals : Numerals) (files : List Text) : Except Fault Statistics :=
  processLines numerals {} (files.flatMap Text.lines)

end CSE550.Trace
