/-
# DurableRuns.Run.Files -- the files in the directory of a run

The directory of a run holds its record, its program's checkpoint and its nodes.  A directory
is the directory of a run exactly if it holds a record.
-/
import DurableRuns.Disk.Machine
import DurableRuns.Run.Checkpoint

namespace DurableRuns

set_option autoImplicit false

namespace RunFiles

/-- The file of the record. -/
def recordFile (run : Place) : Place := run.join "execution.json"

/-- The file of the checkpoint. -/
def checkpointFile (run : Place) : Place := run.join "program.json"

/-- A place is the directory of a run: it holds a record. -/
def isRun (disk : Disk) (run : Place) : Bool := disk.isFile (recordFile run).path

/-- Writes the record of a run. -/
def writeRecord (run : Place) (record : Record) (atomic : Bool) : MachineM Unit :=
  Machine.writeJson (recordFile run) record.toJson atomic

/-- Reads the record of a run. -/
def readRecord (run : Place) : MachineM Record :=
  Machine.readJson (recordFile run) Record.ofJson?

/-- Writes the checkpoint of a run. -/
def writeCheckpoint (run : Place) (checkpoint : Checkpoint) (atomic : Bool) : MachineM Unit :=
  Machine.writeJson (checkpointFile run) checkpoint.toJson atomic

/-- What the file of the checkpoint holds; `none` if there is no such file. -/
def checkpointOn (disk : Disk) (run : Place) : Except ContinuationFault (Option Checkpoint) :=
  let file := checkpointFile run
  if disk.exists? file.path then
    match disk.readJson file.path Checkpoint.ofJson? with
    | .ok checkpoint => .ok (some checkpoint)
    | .error fault => .error (.unreadable fault)
  else .ok none

/-- Reads the checkpoint of a run, if it has one. -/
def readCheckpoint (run : Place) : MachineM (Option Checkpoint) := do
  match checkpointOn (← get).disk run with
  | .ok checkpoint => return checkpoint
  | .error fault => throw (.continuation fault)

/-- Removes the checkpoint of a run; there need not be one. -/
def removeCheckpoint (run : Place) : MachineM Unit := do
  let path := (checkpointFile run).path
  let disk := (← get).disk
  if disk.at? path = none ∧ disk.missing path = .notFound then return ()
  Machine.commit (.remove path) .disk

end RunFiles
end DurableRuns
