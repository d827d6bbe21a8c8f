/-
# DurableRuns.Run.Live -- a run in memory

A `Run` is what the process that owns a run keeps in memory: the graph, the store of its
nodes, the record, and the continuation its program last handed over.  It also remembers what
of this the disk has: the flag of the record as last written, whether the continuation was
written, and the first write that failed.

A step on a run (`RunM`) acts on the run and on the machine beneath it.  When it fails, what it
did before it failed remains.
-/
import DurableRuns.Run.Files
import DurableRuns.Flow.Graph
import DurableRuns.Storage.NodeStore
import DurableRuns.Text.Quoted

namespace DurableRuns

set_option autoImplicit false

/-- A run in memory. -/
structure Run where
  runId : String
  /-- The directory of the run. -/
  place : Place
  hint : Hint
  phase : Phase
  graph : Graph
  store : NodeStore
  record : Record
  /-- The flag of the record as last written. -/
  diskFlag : CleanFlag
  /-- The continuation as last handed over. -/
  checkpoint : Option Checkpoint
  /-- The disk has the continuation. -/
  checkpointPersisted : Bool
  /-- The first write that failed.  Once there is one the record is never marked clean. -/
  storageFault : Option Error
deriving DecidableEq, Repr

namespace Run

/-- Everything the run did so far is on disk. -/
def isOnDisk (run : Run) : Bool :=
  run.storageFault.isNone && run.store.isFlushed && run.checkpointPersisted &&
    run.diskFlag = .clean

/-- The run as reports show it. -/
def describe (run : Run) : String :=
  "ExecutionController \x7b run_id: " ++ Text.quote run.runId ++ ", run_dir: " ++
    Text.quote run.place.shown ++ ", hint: " ++ run.hint.describe ++ ", phase: " ++
    run.phase.describe ++ " \x7d"

end Run

/-- A run and the machine beneath it. -/
structure LiveRun where
  run : Run
  machine : Machine

/-- A step on a run, which may fail. -/
abbrev RunM := EStateM Error LiveRun

namespace RunM

/-- A step on the machine beneath a run. -/
def onMachine {α : Type} (step : MachineM α) : RunM α := fun live =>
  match step live.machine with
  | .ok value machine => .ok value { live with machine }
  | .error error machine => .error error { live with machine }

/-- A step on the graph of a run. -/
def onGraph {α : Type} (step : GraphM α) : RunM α := fun live =>
  match step live.run.graph with
  | .ok value graph => .ok value { live with run := { live.run with graph } }
  | .error fault graph => .error (.graph fault) { live with run := { live.run with graph } }

/-- A step on the store of a run. -/
def onStore {α : Type} (step : StoreM α) : RunM α := fun live =>
  match step { store := live.run.store, machine := live.machine } with
  | .ok value left =>
      .ok value { run := { live.run with store := left.store }, machine := left.machine }
  | .error error left =>
      .error error { run := { live.run with store := left.store }, machine := left.machine }

/-- Changes the run in memory. -/
def update (change : Run → Run) : RunM Unit :=
  modify fun live => { live with run := change live.run }

/-- The run in memory. -/
def current : RunM Run := do return (← get).run

/-- The outcome of a step, be it a failure. -/
def attempt {α : Type} (step : RunM α) : RunM (Except Error α) := fun live =>
  match step live with
  | .ok value live => .ok (.ok value) live
  | .error error live => .ok (.error error) live

/-- A step on a given run, as a step on the machine. -/
def runOn {α : Type} (step : RunM α) (run : Run) : MachineM (α × Run) := fun machine =>
  match step { run, machine } with
  | .ok value live => .ok (value, live.run) live.machine
  | .error error live => .error error live.machine

end RunM
end DurableRuns
