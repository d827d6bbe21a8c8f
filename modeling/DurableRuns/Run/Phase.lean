/-
# DurableRuns.Run.Phase -- where a live run stands

A live run is running until it is paused or complete.  While it is being paused, and while a
program is being reinstalled after a restart, it stands in between.
-/
import DurableRuns.Run.Record

namespace DurableRuns

set_option autoImplicit false

/-- Where a live run stands. -/
inductive Phase where
  | running
  /-- A pause was asked for and what the run holds is being written. -/
  | pausing
  | paused
  /-- The program is being reinstalled after a restart. -/
  | resuming
  | complete (result : RunResult)
deriving DecidableEq, Repr

namespace Phase

/-- The run has ended. -/
def isComplete : Phase → Bool
  | complete _ => true
  | _ => false

/-- New nodes have to wait. -/
def holdsAppends : Phase → Bool
  | pausing | paused => true
  | _ => false

/-- How the run ended; `pending` until it does. -/
def result : Phase → RunResult
  | complete result => result
  | _ => .pending

/-- The phase in messages. -/
def name : Phase → String
  | running => "running"
  | pausing => "pausing"
  | paused => "paused"
  | resuming => "resuming"
  | complete result => "complete(" ++ result.name ++ ")"

/-- The phase as reports show it. -/
def describe : Phase → String
  | running => "Running"
  | pausing => "Pausing"
  | paused => "Paused"
  | resuming => "Resuming"
  | complete result => "Complete(" ++ result.describe ++ ")"

/-- The phase of a run that is reopened with a given record. -/
def ofRecord (record : Record) : Phase :=
  match record.status with
  | .complete => .complete record.result
  | .paused => .paused
  | .running => .running

end Phase
end DurableRuns
