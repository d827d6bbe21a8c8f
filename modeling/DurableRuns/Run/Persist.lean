/-
# DurableRuns.Run.Persist -- keeping the record of a run honest

The record on disk says `clean` only while the disk has everything the run did.  So before a
change that the disk does not have yet the record is rewritten as `dirty`, once, and when the
disk has caught up it is rewritten as `clean` with the new heads.  After a write has failed
the record is never marked clean by this run again.

A *safe point* writes everything: the nodes that wait, the continuation if the disk lacks it,
and a clean record, in this order.
-/
import DurableRuns.Flow.Repair
import DurableRuns.Run.Live

namespace DurableRuns.Run

set_option autoImplicit false

open RunM

variable [Numbering]

/-- Remembers that a write failed. -/
def noteFault (error : Error) : RunM Unit :=
  update fun run =>
    { run with
      record := { run.record with clean := .dirty }
      storageFault := run.storageFault <|> some error }

/-- A step whose failure is remembered and goes no further. -/
def noted (step : RunM Unit) : RunM Unit := do
  if let .error error ← attempt step then noteFault error

/-- Writes the record with a flag. -/
def stampRecord (flag : CleanFlag) : RunM Unit := do
  let now := (← get).machine.now
  update fun run => { run with record := { run.record with clean := flag, updatedAt := now } }
  let run ← current
  onMachine (RunFiles.writeRecord run.place run.record run.hint.writesAtomically)
  update fun run => { run with diskFlag := flag }

/-- Marks the record on disk as dirty, unless it is. -/
def markDirty : RunM Unit := do
  if (← current).diskFlag = .dirty then return ()
  if let .error error ← attempt (stampRecord .dirty) then
    noteFault error
    throw error

/-- Marks the record on disk as clean at the present heads, unless a write has failed. -/
def markClean : RunM Unit := do
  let run ← current
  update fun run => { run with record := { run.record with heads := run.graph.heads } }
  stampRecord (if run.storageFault.isSome then .dirty else .clean)

/-- Writes the continuation. -/
def writeCheckpoint : RunM Unit := do
  let run ← current
  match run.checkpoint with
  | none => return ()
  | some checkpoint =>
      onMachine (RunFiles.writeCheckpoint run.place checkpoint run.hint.writesAtomically)
      update fun run => { run with checkpointPersisted := true }

/-- Saves a node in the store. -/
def storeNode (node : Node) : RunM Unit := onStore (StoreM.save node)

/-- Saves a node, and with the end of a block its start, where the end was noted. -/
def storeStep (node : Node) : RunM Unit := do
  storeNode node
  match node.kind.closes with
  | none => return ()
  | some start =>
      match (← current).graph.get? start with
      | some start => storeNode start
      | none => throw (.graph (.missing start))

/-- Writes the nodes that wait in the store. -/
def flushStore : RunM Unit := onStore StoreM.flush

/-- Writes everything, and then a clean record. -/
def reachSafePoint : RunM Unit := do
  flushStore
  if !(← current).checkpointPersisted then writeCheckpoint
  markClean

/-! ## The end of a run -/

/-- Writes the last nodes and the record of the ended run, and drops its continuation. -/
def persistEnd (appended : List Node) (result : RunResult) : RunM Unit := do
  markDirty
  appended.forM storeStep
  flushStore
  update fun run => { run with record := { run.record with status := .complete, result } }
  markClean
  onMachine (RunFiles.removeCheckpoint (← current).place)

/-- Tells the host that the run has ended. -/
def release : RunM Unit :=
  modify fun live =>
    { live with machine :=
        { live.machine with released := live.machine.released ++ [live.run.runId] } }

/-- Ends the run.  In memory it is complete even if the disk does not take it. -/
def conclude (appended : List Node) (result : RunResult) : RunM Unit := do
  noted (persistEnd appended result)
  update fun run =>
    { run with
      record := { run.record with status := .complete, result }
      checkpoint := none
      checkpointPersisted := true
      phase := .complete result }
  release

/-- Closes the graph by a repair plan and ends the run as failed. -/
def endAsFailed (reason : String) : RunM Unit := do
  let run ← current
  let (graph, applied) := (RepairPlan.make run.graph reason).apply run.graph
  update fun run => { run with graph }
  let appended :=
    match applied with
    | .ok nodes => nodes
    | .error _ => []
  conclude appended .failure

end DurableRuns.Run
