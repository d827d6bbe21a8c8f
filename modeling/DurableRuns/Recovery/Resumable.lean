/-
# DurableRuns.Recovery.Resumable -- whether a run can go on after a restart

A run goes on only if nothing stands in its way: its record says that the disk has all of it,
the way the process ended is one its hint allows for, its heads are there, and there is a
continuation that was taken at exactly these heads.  The checks are made in this order and
the first obstacle counts.
-/
import DurableRuns.Recovery.Host
import DurableRuns.Run.Operations

namespace DurableRuns

set_option autoImplicit false

/-- What in its record keeps a run from going on.  A paused run only needs a clean record. -/
def Record.obstacle? (record : Record) (termination : Termination) : Option Obstacle :=
  if record.isPaused then
    if record.clean = .clean then none else some .pausedUnclean
  else if termination = .dirty && !record.hint.survivesKill then some (.killed record.hint)
  else if record.clean = .clean then none
  else some (.notPersisted record.clean)

/-- What keeps a run from going on, given its record and what was found beside it. -/
def OpeningReport.obstacle? (report : OpeningReport) (record : Record)
    (checkpoint : Option Checkpoint) : Option Obstacle :=
  if !report.missingHeads.isEmpty then some (.headsMissing report.missingHeads)
  else
    match report.checkpointFault, checkpoint with
    | some fault, _ => some (.continuation fault)
    | none, none => some .noCheckpoint
    | none, some checkpoint =>
        if checkpoint.isFor record.heads then none
        else some (.otherHeads checkpoint.heads record.heads)

/-- Fails with the obstacle in the record, if there is one. -/
def Record.checkResumable (record : Record) (termination : Termination) : Except Error Unit :=
  match record.obstacle? termination with
  | none => .ok ()
  | some obstacle => .error (.unresumable record.runId obstacle)

end DurableRuns
