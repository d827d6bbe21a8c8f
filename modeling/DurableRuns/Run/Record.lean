/-
# DurableRuns.Run.Record -- the record kept of a run

The record of a run stands in its directory and tells, after a restart, where the run was:
its heads, whether everything up to them had reached the disk, and whether it is running,
paused or complete.
-/
import DurableRuns.Flow.Node
import DurableRuns.Hint

namespace DurableRuns

set_option autoImplicit false

/-- Whether everything a run did so far is known to be on disk. -/
inductive CleanFlag where
  | unknown
  | clean
  | dirty
deriving DecidableEq, Repr

/-- Where a run stands, as its record tells. -/
inductive RecordStatus where
  | running
  | paused
  | complete
deriving DecidableEq, Repr

/-- How a run ended; `pending` until it does. -/
inductive RunResult where
  | success
  | failure
  | pending
deriving DecidableEq, Repr

namespace CleanFlag

/-- The name of a flag in files. -/
def name : CleanFlag → String
  | unknown => "unknown"
  | clean => "clean"
  | dirty => "dirty"

/-- The flag as reports show it. -/
def describe : CleanFlag → String
  | unknown => "Unknown"
  | clean => "Clean"
  | dirty => "Dirty"

/-- The flag of exactly this name. -/
def ofName? (name : String) : Option CleanFlag := [unknown, clean, dirty].find? (·.name = name)

end CleanFlag

namespace RecordStatus

/-- The name of a status in files. -/
def name : RecordStatus → String
  | running => "running"
  | paused => "paused"
  | complete => "complete"

/-- The status as reports show it. -/
def describe : RecordStatus → String
  | running => "Running"
  | paused => "Paused"
  | complete => "Complete"

/-- The status of exactly this name. -/
def ofName? (name : String) : Option RecordStatus :=
  [running, paused, complete].find? (·.name = name)

end RecordStatus

namespace RunResult

/-- The name of a result in files and in reports. -/
def name : RunResult → String
  | success => "success"
  | failure => "failure"
  | pending => "pending"

/-- The result as reports on phases show it. -/
def describe : RunResult → String
  | success => "Success"
  | failure => "Failure"
  | pending => "Pending"

/-- The result of exactly this name. -/
def ofName? (name : String) : Option RunResult :=
  [success, failure, pending].find? (·.name = name)

end RunResult

/-- How the program of a run ended. -/
inductive Outcome where
  | ok
  | error (message : String)
deriving DecidableEq, Repr

/-- The result of a run whose program ended in a given way. -/
def Outcome.result : Outcome → RunResult
  | .ok => .success
  | .error _ => .failure

/-- What the last node of a flow tells of the way its program ended. -/
def Outcome.actions : Outcome → List Action
  | .ok => []
  | .error message => [.error message]

/-- The record kept of a run. -/
structure Record where
  version : Nat
  runId : String
  hint : Hint
  heads : List Nat
  clean : CleanFlag
  status : RecordStatus
  result : RunResult
  createdAt : Instant
  updatedAt : Instant
deriving DecidableEq, Repr

namespace Record

/-- The record of a run that starts now. -/
def fresh (runId : String) (hint : Hint) (now : Instant) : Record :=
  { version := 1, runId, hint, heads := [], clean := .unknown, status := .running,
    result := .pending, createdAt := now, updatedAt := now }

/-- The run has ended. -/
def isComplete (record : Record) : Bool := record.status = .complete

/-- The run is paused. -/
def isPaused (record : Record) : Bool := record.status = .paused

/-! ## Written form -/

/-- The record as a JSON record. -/
def toJson (record : Record) : Json :=
  .record [("version", .nat record.version), ("run_id", .text record.runId),
    ("hint", .text record.hint.name), ("heads", .array (record.heads.map .nat)),
    ("clean", .text record.clean.name), ("status", .text record.status.name),
    ("result", .text record.result.name), ("created_at", Action.timeJson record.createdAt),
    ("updated_at", Action.timeJson record.updatedAt)]

/-- The names of a record's fields in files. -/
def fieldNames : List String :=
  ["version", "run_id", "hint", "heads", "clean", "status", "result", "created_at",
    "updated_at"]

/-- The record that a JSON record describes. -/
def ofJson? (value : Json) : Option Record := do
  let [version, runId, hint, heads, clean, status, result, createdAt, updatedAt] ←
    value.allFields? fieldNames | none
  some {
    version := ← version.natBelow? UInt32.size
    runId := ← runId.text?
    hint := ← Hint.ofName? (← hint.choice?)
    heads := ← heads.list? Json.word?
    clean := ← CleanFlag.ofName? (← clean.choice?)
    status := ← RecordStatus.ofName? (← status.choice?)
    result := ← RunResult.ofName? (← result.choice?)
    createdAt := ← Action.time? createdAt
    updatedAt := ← Action.time? updatedAt }

end Record
end DurableRuns
