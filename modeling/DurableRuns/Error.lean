/-
# DurableRuns.Error -- why an operation on a run fails

Each constructor is a cause; `Error.message` gives its text.  A fault of the graph means that
the graph can no longer be trusted, and a run in which one shows up is closed as failed.
-/
import DurableRuns.Disk.Fault
import DurableRuns.Run.Phase

namespace DurableRuns

set_option autoImplicit false

/-- How a graph and a request to change it do not fit. -/
inductive GraphFault where
  /-- A node that was named is not there. -/
  | missing (id : Nat)
  | startNotFirst
  | noStart
  | alreadyEnded
  | noParents (kind : NodeKind)
  | parentTwice (parent : Nat)
  | notABlock (start : Nat)
  | alreadyClosed (start closing : Nat)
  /-- The graph is not the one a repair was planned for. -/
  | outOfPlan (planned assigned : Nat)
deriving DecidableEq, Repr

/-- Why a setting cannot be used. -/
inductive ConfigFault where
  | unreadable (path : String) (fault : ReadFault)
  | unknownHint (typed : String)
  | badInterval (typed : String) (reason : String)
  /-- A run was to start where another one is. -/
  | alreadyHoldsRun (directory : String)
deriving DecidableEq, Repr

/-- Why a continuation cannot be restored. -/
inductive ContinuationFault where
  | unreadable (fault : ReadFault)
  | rejected (reason : String)
deriving DecidableEq, Repr

/-- Why a run cannot go on after a restart. -/
inductive Obstacle where
  | pausedUnclean
  /-- The process was killed and the hint does not allow for that. -/
  | killed (hint : Hint)
  | notPersisted (flag : CleanFlag)
  | headsMissing (heads : List Nat)
  | continuation (fault : ContinuationFault)
  | noCheckpoint
  | otherHeads (taken recorded : List Nat)
deriving DecidableEq, Repr

/-- What was asked of a run. -/
inductive Operation where
  | append
  | appendBoundary
  | attach
  | checkpoint
  | flush
  | pause
  | unpause
  | finish
deriving DecidableEq, Repr

/-- Why an operation on a run fails. -/
inductive Error where
  /-- A file could not be written. -/
  | storageWrite (path : String) (fault : DiskFault)
  | graph (fault : GraphFault)
  | unresumable (runId : String) (obstacle : Obstacle)
  | continuation (fault : ContinuationFault)
  | invalidState (phase : Phase) (operation : Operation)
  | config (fault : ConfigFault)
  | disk (fault : DiskFault)
  | malformed
deriving DecidableEq, Repr

/-- The error of a file that could not be read as a value. -/
def ReadFault.toError : ReadFault → Error
  | .disk fault => .disk fault
  | .malformed => .malformed

/-! ## Texts -/

/-- What is wrong with a graph, without the words that open the message. -/
def GraphFault.detail : GraphFault → String
  | .missing id => s!"flow node {id} not found"
  | .startNotFirst => "flow start must be the first node and have no parents"
  | .noStart => "graph has no flow start"
  | .alreadyEnded => "graph already has a flow end"
  | .noParents kind => kind.describe ++ " node needs at least one parent"
  | .parentTwice parent => s!"parent {parent} listed twice"
  | .notABlock start => s!"node {start} does not open a block"
  | .alreadyClosed start closing => s!"block {start} already closed by {closing}"
  | .outOfPlan planned assigned =>
      s!"repair planned node {planned} but graph assigned {assigned}"

/-- The message of a graph fault. -/
def GraphFault.message : GraphFault → String
  | .missing id => (GraphFault.missing id).detail
  | fault => "graph integrity failure: " ++ fault.detail

/-- The message of a setting that cannot be used. -/
def ConfigFault.message (fault : ConfigFault) : String :=
  "invalid configuration: " ++
    match fault with
    | .unreadable path fault => path ++ ": " ++ fault.message
    | .unknownHint typed => "unknown durability hint: " ++ typed
    | .badInterval typed reason => "FLOW_BULK_FLUSH_INTERVAL_MS=" ++ typed ++ ": " ++ reason
    | .alreadyHoldsRun directory => directory ++ " already holds a run"

/-- The message of a continuation that cannot be restored. -/
def ContinuationFault.message (fault : ContinuationFault) : String :=
  "continuation could not be restored: " ++
    match fault with
    | .unreadable fault => fault.message
    | .rejected reason => reason

/-- The reason in the message of a run that cannot go on. -/
def Obstacle.message : Obstacle → String
  | .pausedUnclean => "paused without a clean flush"
  | .killed hint => hint.name ++ " run did not survive an uncontrolled termination"
  | .notPersisted flag => "last mutation was not durably persisted (" ++ flag.describe ++ ")"
  | .headsMissing heads => "head nodes " ++ showIds heads ++ " could not be loaded"
  | .continuation fault => fault.message
  | .noCheckpoint => "no program checkpoint"
  | .otherHeads taken recorded =>
      "program checkpoint taken at " ++ showIds taken ++ " but heads are " ++ showIds recorded

/-- What was asked of a run, in messages. -/
def Operation.name : Operation → String
  | .append => "append"
  | .appendBoundary => "append flow boundary node"
  | .attach => "attach action"
  | .checkpoint => "checkpoint"
  | .flush => "flush"
  | .pause => "pause"
  | .unpause => "unpause"
  | .finish => "finish"

namespace Error

/-- The message of an error. -/
def message : Error → String
  | storageWrite path fault => "storage write failed: " ++ path ++ ": " ++ fault.message
  | graph fault => fault.message
  | unresumable runId obstacle =>
      "execution " ++ runId ++ " cannot be resumed: " ++ obstacle.message
  | continuation fault => fault.message
  | invalidState phase operation =>
      "operation not allowed while execution is " ++ phase.name ++ ": " ++ operation.name
  | config fault => fault.message
  | disk fault => fault.message
  | malformed => ReadFault.malformedMessage

/-- The error means that the graph can no longer be trusted. -/
def isGraphFault : Error → Bool
  | graph _ => true
  | _ => false

end Error
end DurableRuns
