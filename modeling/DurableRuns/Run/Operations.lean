/-
# DurableRuns.Run.Operations -- what can be done with a run

A run is started in a directory that holds none, or opened where one is.  The program that
drives it appends nodes, attaches actions, hands over its continuation and finishes; others
pause it, flush it and shut it down.

An immediate run is fully on disk after each of these.  A batched run is so at its safe
points: start, the end of a block, flush, pause, shutdown and finish, and whatever is done
while it is paused.
-/
import DurableRuns.Config
import DurableRuns.Run.Persist

namespace DurableRuns

set_option autoImplicit false

/-- A node that the program wants appended. -/
structure NodeDraft where
  kind : NodeKind
  name : String
  /-- The nodes it follows; every head if none are given. -/
  parents : Option (List Nat) := none
  actions : List Action := []
deriving DecidableEq, Repr

/-- What was found when a run was opened. -/
structure OpeningReport where
  /-- The node files that could not be read. -/
  nodeFaults : List (String × ReadFault)
  /-- The recorded heads that are not among the nodes. -/
  missingHeads : List Nat
  /-- Why the continuation could not be read. -/
  checkpointFault : Option ContinuationFault

namespace Run

open RunM

variable [Numbering]

/-! ## Beginning -/

/-- The run that a start creates, before anything of it is on disk. -/
def fresh (disk : Disk) (place : Place) (runId : String) (hint : Hint) (graph : Graph)
    (now : Instant) : Run :=
  { runId, place, hint, phase := .running, graph
    store := NodeStore.ofRun disk place hint
    record := Record.fresh runId hint now
    diskFlag := .unknown
    checkpoint := none
    checkpointPersisted := true
    storageFault := none }

/-- Starts a run in a directory that holds none.  When it returns, the first node and a clean
record are on disk. -/
def start (place : Place) (runId : String) (asked : Option Hint) (config : Config) :
    MachineM Run := do
  if RunFiles.isRun (← get).disk place then
    throw (.config (.alreadyHoldsRun place.shown))
  Machine.commit (.makeDirectories place.path) .disk
  match Graph.empty.append .flowStart [] flowStartName with
  | .error fault => throw (.graph fault)
  | .ok (graph, node) =>
      let machine ← get
      let run := fresh machine.disk place runId (config.hintFor asked) graph machine.now
      let begin : RunM Unit := do
        markDirty
        storeNode node
        reachSafePoint
      let ((), run) ← begin.runOn run
      return run

/-- The run as its record, its nodes and its continuation tell. -/
def restored (place : Place) (record : Record) (store : NodeStore) (nodes : List Node)
    (checkpoint : Option Checkpoint) : Run :=
  let graph := Graph.ofParts nodes record.heads
  { runId := record.runId, place, hint := record.hint, phase := .ofRecord record
    graph := { graph with heads := graph.usableHeads }
    store, record
    diskFlag := record.clean
    checkpoint
    checkpointPersisted := true
    storageFault := none }

/-- Opens a run and reports what was found.  Nodes or a continuation that cannot be read do
not keep it from being opened; without a record it is not. -/
def openReporting (place : Place) : MachineM (Run × OpeningReport) := do
  let record ← RunFiles.readRecord place
  let disk := (← get).disk
  let store := NodeStore.ofRun disk place record.hint
  let loaded ← store.readAll
  let (checkpoint, checkpointFault) :=
    match RunFiles.checkpointOn disk place with
    | .ok checkpoint => (checkpoint, none)
    | .error fault => (none, some fault)
  let run := restored place record store loaded.nodes checkpoint
  let report : OpeningReport :=
    { nodeFaults := loaded.faults
      missingHeads := record.heads.filter fun head => !run.graph.contains head
      checkpointFault }
  return (run, report)

/-- Opens a run.  Its phase is the one its record tells. -/
def openAt (place : Place) : MachineM Run := do return (← openReporting place).1

/-! ## Growing -/

/-- Fails if the run has ended. -/
def requireLive (operation : Operation) : RunM Unit := do
  let run ← current
  if run.phase.isComplete then throw (.invalidState run.phase operation)

/-- The actions of a new node: a step that does not tell when it began begins now. -/
def actionsOf (kind : NodeKind) (actions : List Action) (now : Instant) : List Action :=
  if kind.isStep && !actions.any (·.kind = .timing) then .timing now :: actions else actions

/-- Appends a node with actions to the graph in memory. -/
def grow (kind : NodeKind) (parents : List Nat) (name : String) (actions : List Action) :
    RunM Node := do
  let now := (← get).machine.now
  let node ← onGraph (GraphM.append kind parents name)
  update fun run =>
    { run with graph := RepairPlan.attachAll run.graph node.id (actionsOf kind actions now) }
  return ((← current).graph.get? node.id).getD node

/-- Appends a node to the graph.  If the graph does not admit it the run is closed as failed. -/
def growOrClose (kind : NodeKind) (parents : List Nat) (name : String)
    (actions : List Action) : RunM Node := do
  match ← attempt (grow kind parents name actions) with
  | .ok node => return node
  | .error error =>
      if error.isGraphFault then endAsFailed error.message
      throw error

/-- Marks the record clean if nothing waits in the store. -/
def settle : RunM Unit := do
  if (← current).store.isFlushed then noted markClean

/-- Appends a step.  A write that fails leaves the record dirty and the node appended. -/
def append (draft : NodeDraft) : RunM Node := do
  if draft.kind.isBoundary then throw (.invalidState (← current).phase .appendBoundary)
  requireLive .append
  let parents := draft.parents.getD (← current).graph.heads
  let node ← growOrClose draft.kind parents draft.name draft.actions
  let _ ← attempt markDirty
  if let .error error ← attempt (storeStep node) then
    noteFault error
    return node
  if node.kind.closes.isSome then noted reachSafePoint else settle
  return node

/-- Attaches an action to a node. -/
def attach (id : Nat) (action : Action) : RunM Node := do
  requireLive .attach
  let node ← onGraph (GraphM.attach id action)
  let _ ← attempt markDirty
  if let .error error ← attempt (storeNode node) then
    noteFault error
    return node
  if (← current).phase.holdsAppends then noted reachSafePoint else settle
  return node

/-- A step whose failure is remembered and passed on. -/
def notedAndThrown (step : RunM Unit) : RunM Unit := do
  if let .error error ← attempt step then
    noteFault error
    throw error

/-- Takes over the continuation of the program at the present heads. -/
def takeCheckpoint (blob : Bytes) : RunM Unit := do
  requireLive .checkpoint
  let now := (← get).machine.now
  update fun run =>
    { run with
      checkpoint := some { heads := run.graph.heads, blob, takenAt := now }
      checkpointPersisted := false }
  let run ← current
  if run.phase.holdsAppends then
    let _ ← attempt markDirty
    notedAndThrown reachSafePoint
  else if run.hint.writesEveryStep then
    let _ ← attempt markDirty
    notedAndThrown writeCheckpoint
    if (← current).store.isFlushed then markClean

/-! ## Safe points and the end -/

/-- Writes everything that waits to be written. -/
def flush : RunM Unit := do
  requireLive .flush
  let run ← current
  if run.store.isFlushed && run.checkpointPersisted && run.diskFlag = .clean then
    return ()
  reachSafePoint

/-- Pauses the run; it then survives whatever happens to the process. -/
def pause : RunM Unit := do
  match (← current).phase with
  | .running | .resuming =>
      update fun run =>
        { run with phase := .pausing, record := { run.record with status := .paused } }
      match ← attempt reachSafePoint with
      | .ok () => update fun run => { run with phase := .paused }
      | .error error =>
          update fun run =>
            { run with phase := .running, record := { run.record with status := .running } }
          noteFault error
          throw error
  | .complete result => throw (.invalidState (.complete result) .pause)
  | _ => return ()

/-- Lets a paused run go on. -/
def unpause : RunM Unit := do
  let run ← current
  match run.phase with
  | .paused | .pausing =>
      update fun run => { run with record := { run.record with status := .running } }
      noted (stampRecord run.diskFlag)
      update fun run => { run with phase := .running }
  | .complete result => throw (.invalidState (.complete result) .unpause)
  | _ => return ()

/-- Ends the flow after every head, and with it the run. -/
def finish (outcome : Outcome) : RunM Node := do
  requireLive .finish
  let node ← growOrClose .flowEnd (← current).graph.heads flowEndName outcome.actions
  conclude [node] outcome.result
  return node

/-- Closes a run that cannot go on as failed. -/
def fail (reason : String) : RunM Unit := do
  if (← current).phase.isComplete then return ()
  endAsFailed reason

/-- Leaves a run such that it can go on after a restart. -/
def shutdown : RunM Unit := do
  if (← current).phase.isComplete then return ()
  reachSafePoint

/-! ## Resuming -/

/-- The program of a running run is about to be reinstalled. -/
def enterResuming : RunM Unit :=
  update fun run => if run.phase = .running then { run with phase := .resuming } else run

/-- The program of a run has been reinstalled. -/
def leaveResuming : RunM Unit :=
  update fun run => if run.phase = .resuming then { run with phase := .running } else run

end Run
end DurableRuns
