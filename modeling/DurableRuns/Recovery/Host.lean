/-
# DurableRuns.Recovery.Host -- how the process before this one ended

A process that shuts down in good order leaves a marker beside its runs.  The next process
takes the marker away and so learns that all runs went through their shutdown; without the
marker the process before was killed.
-/
import DurableRuns.Disk.Machine

namespace DurableRuns

set_option autoImplicit false

/-- How the process that last owned the runs ended. -/
inductive Termination where
  | clean
  | dirty
deriving DecidableEq, Repr

namespace Termination

/-- The way of ending as reports show it. -/
def describe : Termination → String
  | clean => "Clean"
  | dirty => "Dirty"

end Termination

namespace Host

/-- The marker of a shutdown in good order. -/
def markerFile (root : Place) : Place := root.join ".clean-shutdown"

/-- Learns how the process before ended, and takes its marker away. -/
def learnTermination (root : Place) : MachineM Termination := do
  let path := (markerFile root).path
  let disk := (← get).disk
  if disk.at? path = none ∧ disk.missing path = .notFound then return .dirty
  Machine.commit (.remove path) .disk
  return .clean

/-- Leaves the marker for the next process. -/
def leaveMarker (root : Place) : MachineM Unit :=
  Machine.commit (.write (markerFile root).path [] true) .disk

/-- Tells the host to let go of a run. -/
def release (runId : String) : MachineM Unit :=
  modify fun machine => { machine with released := machine.released ++ [runId] }

end Host
end DurableRuns
