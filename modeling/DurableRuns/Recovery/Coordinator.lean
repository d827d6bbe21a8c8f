/-
# DurableRuns.Recovery.Coordinator -- taking up the runs of an earlier process

After a restart a `Coordinator` takes on every run under a root directory, each at most once.
A run that can go on is handed, with its continuation, to the resumer, which reinstalls the
program and may act on the run.  A run that cannot go on, or whose continuation the resumer
does not accept, is closed as failed.  A run that is complete is left alone.
-/
import DurableRuns.Recovery.Resumable
import DurableRuns.Run.Program

namespace DurableRuns

set_option autoImplicit false

/-- What reinstalls the program of a run from its continuation: a client of the run that
accepts, or gives the reason why it does not. -/
abbrev Resumer := Run → Bytes → Program (Except String Unit)

/-- Why a run was left alone. -/
inductive SkipReason where
  /-- The coordinator has taken the run on before. -/
  | alreadyClaimed
  | alreadyComplete
  | unopenable (error : Error)
deriving DecidableEq, Repr

/-- What a recovery did with a run. -/
inductive RecoveryOutcome where
  | resumed
  | failed (reason : Error)
  | skipped (reason : SkipReason)
deriving DecidableEq, Repr

/-- What passed between a run and the resumer. -/
structure ResumeCall where
  runId : String
  /-- The phase of the run when the resumer was called. -/
  phase : Phase
  blob : Bytes
  replies : List (Except Error Reply)

/-- The report on one run. -/
structure RecoveryReport where
  place : Place
  /-- The run, or the name of its directory if it could not be opened. -/
  runId : String
  outcome : RecoveryOutcome
  /-- The run as it was opened and acted upon. -/
  run : Option Run
  call : Option ResumeCall

/-- What takes on the runs under a root directory. -/
structure Coordinator where
  root : Place
  termination : Termination
  resumer : Resumer
  config : Config
  /-- The directories it has taken on. -/
  claimed : List Path := []

namespace SkipReason

/-- The text of a reason. -/
def message : SkipReason → String
  | alreadyClaimed => "already claimed by this recovery"
  | alreadyComplete => "already complete"
  | unopenable error => error.message

end SkipReason

namespace RecoveryOutcome

/-- The outcome as reports show it. -/
def describe : RecoveryOutcome → String
  | resumed => "Resumed"
  | failed reason => "Failed \x7b reason: " ++ Text.quote reason.message ++ " \x7d"
  | skipped reason => "Skipped \x7b reason: " ++ Text.quote reason.message ++ " \x7d"

end RecoveryOutcome

namespace Coordinator

open RunM

variable [Numbering]

/-- Hands a run to the resumer; gives the call and the obstacle it met, if any. -/
def handOver (resumer : Resumer) (blob : Bytes) : RunM (ResumeCall × Option Obstacle) := do
  Run.enterResuming
  let run ← current
  let (verdict, replies) ← (resumer run blob).run
  let call : ResumeCall := { runId := run.runId, phase := run.phase, blob, replies }
  match verdict with
  | .ok () =>
      Run.leaveResuming
      return (call, none)
  | .error reason => return (call, some (.continuation (.rejected reason)))

/-- Resumes a run unless something stands in its way; gives the obstacle if so. -/
def resume (coordinator : Coordinator) (report : OpeningReport) :
    RunM (Option ResumeCall × Option Obstacle) := do
  let run ← current
  match run.record.obstacle? coordinator.termination with
  | some obstacle => return (none, some obstacle)
  | none =>
      match report.obstacle? run.record run.checkpoint, run.checkpoint with
      | some obstacle, _ => return (none, some obstacle)
      | none, none => return (none, some .noCheckpoint)
      | none, some checkpoint =>
          let (call, obstacle) ← handOver coordinator.resumer checkpoint.blob
          return (some call, obstacle)

/-- Resumes a run or closes it as failed. -/
def settle (coordinator : Coordinator) (report : OpeningReport) :
    RunM (RecoveryOutcome × Option ResumeCall) := do
  let runId := (← current).runId
  let (call, obstacle) ← coordinator.resume report
  match obstacle with
  | none => return (.resumed, call)
  | some obstacle =>
      let reason : Error := .unresumable runId obstacle
      Run.fail reason.message
      return (.failed reason, call)

/-- Takes on a run that has not been taken on before. -/
def takeOn (coordinator : Coordinator) (place : Place) (directoryName : String) :
    MachineM RecoveryReport := do
  let opened ← tryCatch (do return Except.ok (← Run.openReporting place))
    fun error => return .error error
  match opened with
  | .error error =>
      Host.release directoryName
      return { place, runId := directoryName, outcome := .skipped (.unopenable error),
               run := none, call := none }
  | .ok (run, report) =>
      if run.phase.isComplete then
        return { place, runId := run.runId, outcome := .skipped .alreadyComplete,
                 run := some run, call := none }
      let ((outcome, call), after) ← (coordinator.settle report).runOn run
      return { place, runId := run.runId, outcome, run := some after, call }

/-- Recovers the run in one directory. -/
def recoverRun (coordinator : Coordinator) (place : Place) :
    MachineM (RecoveryReport × Coordinator) := do
  let directoryName := place.path.getLast?.getD place.shown
  if place.path ∈ coordinator.claimed then
    return ({ place, runId := directoryName, outcome := .skipped .alreadyClaimed,
              run := none, call := none }, coordinator)
  let coordinator := { coordinator with claimed := place.path :: coordinator.claimed }
  return (← coordinator.takeOn place directoryName, coordinator)

/-- Recovers the runs in the given directories, one after the other. -/
def recoverEach (coordinator : Coordinator) :
    List Place → MachineM (List RecoveryReport × Coordinator)
  | [] => return ([], coordinator)
  | place :: rest => do
      let (report, coordinator) ← coordinator.recoverRun place
      let (reports, coordinator) ← coordinator.recoverEach rest
      return (report :: reports, coordinator)

/-- The directories of runs under a root directory, in the order of their names.  A root
directory that is not there has none. -/
def listRuns (disk : Disk) (root : Place) : Except DiskFault (List Place) :=
  match disk.names root.path with
  | .error .notFound => .ok []
  | .error fault => .error fault
  | .ok names =>
      let places := (names.mergeSort fun a b => decide (a ≤ b)).map root.join
      .ok (places.filter fun place => disk.isDirectory place.path && RunFiles.isRun disk place)

/-- Recovers every run under the root directory. -/
def recoverAll (coordinator : Coordinator) : MachineM (List RecoveryReport × Coordinator) := do
  match listRuns (← get).disk coordinator.root with
  | .error fault => throw (.disk fault)
  | .ok places => coordinator.recoverEach places

end Coordinator
end DurableRuns
