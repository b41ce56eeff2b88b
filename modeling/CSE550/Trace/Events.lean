import CSE550.Trace.Usage
import CSE550.Lib.Tables

/-!
Owns `events.py`: reading a row of the machine events, what its loop keeps, and the
final distribution it writes.

Does not own the initial distribution, nor the histograms and totals over the machine
configurations.
-/

namespace CSE550.Trace

open CSE550.Lib

/-! ### Rows -/

/-- A row without a blank field. -/
structure Event where
  timestamp : ℤ
  machineId : ℤ
  eventType : ℤ
  platformId : Text
  cpuCapacity : ℚ
  memoryCapacity : ℚ

/-- `text.strip(" \n\t")`. -/
def stripped (text : Text) : Text := Text.strip [' ', '\n', '\t'] text

/-- `fields[0] is "" or ... or fields[5] is ""`. -/
def someBlank (fields : List Text) : ℕ → ℕ → Except Fault Bool
  | _, 0 => .ok false
  | position, count + 1 => do
      let text ← fieldAt fields position
      if text = [] then return true else someBlank fields (position + 1) count

/-- A row of the file; `none` when a field is blank. -/
def readEvent (numerals : Numerals) (line : Text) : Except Fault (Option Event) := do
  let fields := line.splitOn ','
  if ← someBlank fields 0 6 then return none
  let timestamp ← (fieldAt fields 0).map stripped >>= readInt
  let machineId ← (fieldAt fields 1).map stripped >>= readInt
  let eventType ← (fieldAt fields 2).map stripped
  let platformId ← (fieldAt fields 3).map stripped
  let cpuCapacity ← (fieldAt fields 4).map stripped >>= numerals.float
  let memoryCapacity ← (fieldAt fields 5).map stripped >>= numerals.float
  let eventType ← readInt eventType
  return some { timestamp, machineId, eventType, platformId, cpuCapacity, memoryCapacity }

/-! ### The loop -/

/-- The variables of the loop. -/
structure Machines where
  initMachineDist : Counts Text := ∅
  machineDist : Counts Text := ∅
  seenMachines : List ℤ := []
  workingMachines : List ℤ := []
  warnings : ℤ := 0
  warningFile : Text := []
  machineConfigs : Table ℤ (ℚ × ℚ) := ∅
  machinesAdded : ℤ := 0
  machinesRemoved : ℤ := 0
  machinesUpdated : ℤ := 0

namespace Machines

/-- A row with a blank field. -/
def ignore (machines : Machines) (line : Text) : Machines := { machines with
  warnings := machines.warnings + 1
  warningFile := machines.warningFile ++
    "Warning: a field was blank... ignoring this data point: ".toList ++ line ++ ['\n'] }

/-- `if machine_id not in working_machines`, in both branches that add machines. -/
def work (machines : Machines) (event : Event) : Machines :=
  if event.machineId ∈ machines.workingMachines then machines
  else { machines with
    machineDist := machines.machineDist.bump event.platformId
    workingMachines := machines.workingMachines ++ [event.machineId] }

/-- The first sight of a machine in an ADD row. -/
def sightAdded (machines : Machines) (event : Event) : Machines :=
  if event.machineId ∈ machines.seenMachines then machines
  else { machines with
    initMachineDist := machines.initMachineDist.bump event.platformId
    seenMachines := machines.seenMachines ++ [event.machineId] }

/-- The first sight of a machine in an UPDATE row. -/
def sightUpdated (machines : Machines) (event : Event) : Machines :=
  if event.machineId ∈ machines.seenMachines then machines
  else { machines with
    initMachineDist := machines.initMachineDist.bump event.platformId
    -- the append stands in the branch of a platform that was counted before
    seenMachines :=
      if event.platformId ∈ machines.initMachineDist then
        machines.seenMachines ++ [event.machineId]
      else machines.seenMachines }

/-- `machine_configs[machine_id] = (cpu_capacity, memory_capacity)`. -/
def configure (machines : Machines) (event : Event) : Machines := { machines with
  machineConfigs :=
    machines.machineConfigs.insert event.machineId (event.cpuCapacity, event.memoryCapacity) }

/-- An ADD row. -/
def add (machines : Machines) (event : Event) : Machines :=
  let next := ((machines.sightAdded event).work event).configure event
  { next with machinesAdded := next.machinesAdded + 1 }

/-- The count of the row's platform goes down. -/
def release (machines : Machines) (event : Event) : Machines :=
  match machines.machineDist.lookup event.platformId with
  | none => { machines with
      warningFile := machines.warningFile ++
        "Warning: machine was removed before being added: ".toList ++
          Text.intText event.machineId ++ ['\n']
      warnings := machines.warnings + 1 }
  | some number =>
      if number ≤ 0 then { machines with
        warningFile := machines.warningFile ++
          "Warning: machine was already removed from distribution: ".toList ++
            Text.intText event.machineId ++ ['\n']
        warnings := machines.warnings + 1 }
      else { machines with
        machineDist := machines.machineDist.insert event.platformId (number - 1) }

/-- A REMOVE row. -/
def remove (machines : Machines) (event : Event) : Machines :=
  let next := machines.release event
  { next with
    workingMachines :=
      if event.machineId ∈ next.workingMachines then next.workingMachines.erase event.machineId
      else next.workingMachines
    machineConfigs := next.machineConfigs.erase event.machineId
    machinesRemoved := next.machinesRemoved + 1 }

/-- An UPDATE row. -/
def update (machines : Machines) (event : Event) : Machines :=
  let known :=
    if event.machineId ∈ machines.machineConfigs then machines
    else (machines.sightUpdated event).work event
  let next := known.configure event
  { next with machinesUpdated := next.machinesUpdated + 1 }

/-- The body of the loop. -/
def step (machines : Machines) (event : Event) : Machines :=
  if event.eventType = 0 then machines.add event
  else if event.eventType = 1 then machines.remove event
  else machines.update event

end Machines

/-- The loop over the lines of the file. -/
def processRows (numerals : Numerals) (machines : Machines) : List Text → Except Fault Machines
  | [] => .ok machines
  | line :: rest =>
      match readEvent numerals line with
      | .error fault => .error fault
      | .ok none => processRows numerals (machines.ignore line) rest
      | .ok (some event) => processRows numerals (machines.step event) rest

/-- On rows without blank fields the loop goes from event to event. -/
theorem processRows_events {numerals : Numerals} {lines : List Text} {events : List Event}
    (wellFormed : List.Forall₂ (fun line event => readEvent numerals line = .ok (some event))
      lines events) (machines : Machines) :
    processRows numerals machines lines = .ok (events.foldl Machines.step machines) := by
  induction wellFormed generalizing machines with
  | nil => rfl
  | cons read _ inductionHypothesis =>
      rw [processRows, read]
      exact inductionHypothesis _

/-! ### The final distribution -/

/-- `init_machine_dist[key]` for each key, in order; `none` is a `KeyError`. -/
def countsOf (initMachineDist : Counts Text) : List Text → Option (List (Text × ℤ))
  | [] => some []
  | key :: rest =>
      match initMachineDist.lookup key, countsOf initMachineDist rest with
      | some number, some rows => some ((key, number) :: rows)
      | _, _ => none

/-- The rows below `FINAL MACHINE DISTRIBUTION`: the keys of one dictionary, the
numbers of the other. -/
def Machines.finalDistribution (iteration : Table.Iteration Text) (machines : Machines) :
    Option (List (Text × ℤ)) :=
  countsOf machines.initMachineDist ((iteration.items machines.machineDist).map Prod.fst)

end CSE550.Trace
