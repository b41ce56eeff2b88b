import CSE550.Lib.Tables
import CSE550.Trace.Usage

/-!
Owns `reduce_usage.py`: the parser of a report with its section state, and the
merge of each report into the totals.

The texts compared with `is` are empty ones, of which there is a single object.
-/

namespace CSE550.Trace

open CSE550.Lib

/-! ### The parser -/

/-- A value of `new_stats` or of `STATISTICS`. -/
inductive Stat where
  | number (value : ℚ)
  | dict (counts : Table Text ℚ)

/-- What the loop over the lines of a report keeps. -/
structure Scan where
  newStats : Table Text Stat
  statField : Text

/-- The characters stripped everywhere. -/
def blankChars : List Char := ['\n', '\t', ' ']

/-- `"DISK I/O DISTRIBUTION" in text`. -/
def MentionsDisk (text : Text) : Prop := "DISK I/O DISTRIBUTION".toList <:+: text

instance MentionsDisk.decidable (text : Text) : Decidable (MentionsDisk text) := by
  unfold MentionsDisk
  infer_instance

/-- One line of a report; `none` where an exception is raised. -/
def scanLine (numerals : Numerals) (scan : Scan) (rawLine : Text) : Option Scan :=
  match (Text.strip blankChars rawLine).splitOn ',' with
  | [only] =>
      -- a blank line ends a section
      if Text.strip blankChars only = [] then some { scan with statField := [] }
      else if MentionsDisk only then some ⟨scan.newStats.insert only (.dict ∅), only⟩
      else some { scan with statField := [] }
  | [name, value] =>
      if Text.strip blankChars value ≠ [] ∧ scan.statField = [] then
        (numerals.readFloat value).map fun number =>
          ⟨scan.newStats.insert name (.number number), []⟩
      else if Text.strip blankChars value = [] then
        some ⟨scan.newStats.insert name (.dict ∅), name⟩
      else if Text.strip blankChars scan.statField ≠ [] then
        match scan.newStats.lookup scan.statField with
        | some (.dict counts) => (numerals.readFloat value).map fun number =>
            { scan with
              newStats := scan.newStats.insert scan.statField (.dict (counts.insert name number)) }
        | _ => none
      else some { scan with statField := [] }
  | _ => some { scan with statField := [] }

/-- The loop over the lines. -/
def scanLines (numerals : Numerals) (scan : Scan) : List Text → Option Scan
  | [] => some scan
  | line :: rest =>
      match scanLine numerals scan line with
      | none => none
      | some next => scanLines numerals next rest

/-- `new_stats` of a report. -/
def readReport (numerals : Numerals) (text : Text) : Option (Table Text Stat) :=
  (scanLines numerals ⟨∅, []⟩ (Text.lines text)).map Scan.newStats

/-! ### The merge -/

/-- `TASK_PROCESSED_KEY`. -/
def taskProcessedKey : Text := "TOTAL TASKS PROCESSED".toList

/-- `"AVERAGE" in key`. -/
def IsAverage (key : Text) : Prop := "AVERAGE".toList <:+: key

instance IsAverage.decidable (key : Text) : Decidable (IsAverage key) := by
  unfold IsAverage
  infer_instance

/-- One item of a dictionary added to the running one. -/
def addItem (_ : Text) (known : Option ℚ) (added : ℚ) : Option ℚ :=
  some (match known with
    | none => added
    | some number => number + added)

/-- `STATISTICS[key]` after the values of a report were collected, `known` being
what it was before; `none` where an exception is raised. -/
def mergeStat (iteration : Table.Iteration Text) (newStats : Table Text Stat)
    (oldNumTasks : Option Stat) (key : Text) (known : Option Stat) : Stat → Option Stat
  | .dict counts =>
      match known.getD (.dict ∅) with
      | .dict running => (running.merge iteration addItem counts).map .dict
      | .number running => if counts.keys = [] then some (.number running) else none
  | .number value =>
      match known.getD (.number 0) with
      | .dict _ => none
      | .number running =>
          if IsAverage key then
            match oldNumTasks, newStats.lookup taskProcessedKey with
            | some (.number oldTasks), some (.number newTasks) =>
                if oldTasks + newTasks = 0 then none
                else some (.number
                  ((running * oldTasks + newTasks * value) / (oldTasks + newTasks)))
            | _, _ => none
          else some (.number (running + value))

/-- `STATISTICS` with the key that the loop body makes sure of. -/
def withTasksKey (statistics : Table Text Stat) : Table Text Stat :=
  if taskProcessedKey ∈ statistics then statistics
  else statistics.insert taskProcessedKey (.number 0)

/-- One report merged into the totals. -/
def mergeReport (numerals : Numerals) (iteration : Table.Iteration Text)
    (statistics : Table Text Stat) (text : Text) : Option (Table Text Stat) :=
  match readReport numerals text with
  | none => none
  | some newStats =>
      (withTasksKey statistics).merge iteration
        (mergeStat iteration newStats ((withTasksKey statistics).lookup taskProcessedKey)) newStats

/-- The loop over the reports. -/
def reduceUsage (numerals : Numerals) (iteration : Table.Iteration Text)
    (statistics : Table Text Stat) : List Text → Option (Table Text Stat)
  | [] => some statistics
  | text :: rest =>
      match mergeReport numerals iteration statistics text with
      | none => none
      | some next => reduceUsage numerals iteration next rest

end CSE550.Trace
