/-
# DurableRuns.Flow.Repair -- closing the graph of a run that cannot go on

A repair plan is made from the graph alone.  It closes every block that is still open, the
innermost first, each with an end that says why; then one flow end that carries the failure
ends the run.  A graph that has ended needs no repair.

The graph may lack nodes.  `usableHeads` are the recorded heads that are there; if none is,
the run is taken up from every node that no other node follows.
-/
import DurableRuns.Flow.Scan

namespace DurableRuns

set_option autoImplicit false

/-- The name of the node that starts a flow. -/
def flowStartName : String := "start"

/-- The name of the node that ends a flow. -/
def flowEndName : String := "end"

namespace Graph

/-- The nodes that no stored node names as a parent. -/
def childless (graph : Graph) : List Nat :=
  (graph.nodes.map (·.id)).filter fun id => !graph.nodes.any (id ∈ ·.parents)

/-- The heads to go on from: the recorded ones that are there, else the childless nodes. -/
def usableHeads (graph : Graph) : List Nat :=
  let resolved := graph.heads.filter graph.contains
  if resolved.isEmpty then graph.childless else resolved

/-- The block starts among nodes that are not closed by an end among them, the latest first. -/
def openAmong (nodes : List Node) : List Nat :=
  let starts := (nodes.filter (·.kind.opensBlock)).filter (·.blockEnd?.isNone) |>.map (·.id)
  let unclosed := starts.filter fun start => !nodes.any (·.kind.closes = some start)
  unclosed.mergeSort fun a b => b ≤ a

/-- The open blocks that can be reached from the heads, the latest first. -/
def openBlocks (graph : Graph) (heads : List Nat) : List Nat :=
  openAmong (Scan.depthFirst graph.table heads)

end Graph

/-- The nodes that close a graph, in order, with the numbers they will get. -/
structure RepairPlan where
  nodes : List Node
deriving DecidableEq, Repr

namespace RepairPlan

variable [Numbering]

/-- The ends of open blocks, numbered from `next` on, each following the one before. -/
def blockEnds (graph : Graph) (reason : String) :
    List Nat → Nat → List Nat → List Node × Nat × List Nat
  | [], next, parents => ([], next, parents)
  | start :: rest, next, parents =>
      let name := ((graph.get? start).map (·.name)).getD ""
      let closing : Node :=
        { id := next, kind := .stepEnd start, name, parents
          actions := [.abnormalClosure reason] }
      let (later, next, parents) := blockEnds graph reason rest (Numbering.next next) [next]
      (closing :: later, next, parents)

/-- The plan that closes a graph as failed for a reason. -/
def make (graph : Graph) (reason : String) : RepairPlan :=
  if graph.endNode?.isSome then ⟨[]⟩
  else
    let start : List Node :=
      if graph.isEmpty then
        [{ id := graph.nextId, kind := .flowStart, name := flowStartName, parents := [] }]
      else []
    let next := if graph.isEmpty then Numbering.next graph.nextId else graph.nextId
    let parents := if graph.isEmpty then [graph.nextId] else graph.usableHeads
    let (ends, next, parents) := blockEnds graph reason (graph.openBlocks parents) next parents
    let last : Node :=
      { id := next, kind := .flowEnd, name := flowEndName, parents
        actions := [.error reason, .abnormalClosure reason] }
    ⟨start ++ ends ++ [last]⟩

/-- Attaches actions to a node, one after the other. -/
def attachAll (graph : Graph) (id : Nat) : List Action → Graph
  | [] => graph
  | action :: rest =>
      match GraphM.attach id action graph with
      | .ok _ graph => attachAll graph id rest
      | .error _ graph => graph

/-- Appends planned nodes.  The graph comes back with what was appended before a fault. -/
def applyNodes : List Node → Graph → Graph × Except GraphFault (List Node)
  | [], graph => (graph, .ok [])
  | planned :: rest, graph =>
      match GraphM.append planned.kind planned.parents planned.name graph with
      | .error fault graph => (graph, .error fault)
      | .ok node graph =>
          if node.id ≠ planned.id then (graph, .error (.outOfPlan planned.id node.id))
          else
            let graph := attachAll graph node.id planned.actions
            let stored := (graph.get? node.id).getD node
            match applyNodes rest graph with
            | (graph, .ok later) => (graph, .ok (stored :: later))
            | (graph, .error fault) => (graph, .error fault)

/-- Appends the nodes of the plan and gives them as they are stored.  Fails if the graph is
not the one the plan was made for. -/
def apply (plan : RepairPlan) (graph : Graph) : Graph × Except GraphFault (List Node) :=
  applyNodes plan.nodes graph

end RepairPlan
end DurableRuns
