/-
# DurableRuns.Flow.Graph -- the history of a run as a graph

A `Graph` is the append-only history of a run: its nodes, its heads (the nodes that the next
node would follow) and the number the next node gets.  Nodes are only ever appended below
existing ones, so numbers grow along every edge.

`GraphM.append` refuses whatever would break the structure: a second start or end, a node
without parents or with one that is not there, and the end of something that is not an open
block.  A step on a graph leaves what it did before it failed; `Graph.append` and `Graph.attach`
give the graph only where the step succeeds.
-/
import DurableRuns.Error
import DurableRuns.Flow.NodeTable
import DurableRuns.Flow.Numbering

namespace DurableRuns

set_option autoImplicit false

/-- The history of a run. -/
structure Graph where
  table : NodeTable
  /-- The nodes that the next node would follow. -/
  heads : List Nat
  /-- The number of the next node. -/
  nextId : Nat
deriving DecidableEq, Repr

namespace Graph

/-- The graph without nodes. -/
def empty : Graph := ⟨.empty, [], firstId⟩

/-- The graph of stored nodes with recorded heads.  Nodes may be missing, heads included; new
numbers go on after the highest number that occurs. -/
def ofParts [Numbering] (nodes : List Node) (heads : List Nat) : Graph :=
  let table := NodeTable.ofList nodes
  let highest := (table.maxId?.toList ++ heads).max?
  ⟨table, heads, (highest.map Numbering.next).getD firstId⟩

/-- The nodes in ascending order of their numbers. -/
def nodes (graph : Graph) : List Node := graph.table.nodes

/-- The number of nodes. -/
def size (graph : Graph) : Nat := graph.table.size

/-- There are no nodes. -/
def isEmpty (graph : Graph) : Bool := graph.table.nodes.isEmpty

/-- The node with a number. -/
def get? (graph : Graph) (id : Nat) : Option Node := graph.table.get? id

/-- There is a node with a number. -/
def contains (graph : Graph) (id : Nat) : Bool := graph.table.contains id

/-- The node with a number, or the fault that it is missing. -/
def find (graph : Graph) (id : Nat) : Except GraphFault Node :=
  match graph.get? id with
  | some node => .ok node
  | none => .error (.missing id)

/-- The heads that are there, in the order of the heads. -/
def headNodes (graph : Graph) : List Node := graph.heads.filterMap graph.get?

/-- The node that ends the flow. -/
def endNode? (graph : Graph) : Option Node := graph.nodes.reverse.find? (·.kind = .flowEnd)

/-! ## Growing -/

/-- The parents are there and each is named once. -/
def checkParents (graph : Graph) (earlier : List Nat) : List Nat → Except GraphFault Unit
  | [] => .ok ()
  | parent :: rest => do
      let _ ← graph.find parent
      if parent ∈ earlier then throw (.parentTwice parent)
      graph.checkParents (parent :: earlier) rest

/-- The step start is there, opens a block and has not been closed. -/
def checkOpen (graph : Graph) (start : Nat) : Except GraphFault Unit := do
  let node ← graph.find start
  if !node.kind.opensBlock then throw (.notABlock start)
  match node.blockEnd? with
  | some closing => throw (.alreadyClosed start closing)
  | none => return ()

/-- A node of a kind can follow the parents. -/
def checkGrowth (graph : Graph) (kind : NodeKind) (parents : List Nat) :
    Except GraphFault Unit := do
  if kind = .flowStart then
    if !graph.isEmpty || !parents.isEmpty then throw .startNotFirst
    return ()
  if graph.isEmpty then throw .noStart
  if graph.endNode?.isSome then throw .alreadyEnded
  if parents.isEmpty then throw (.noParents kind)
  graph.checkParents [] parents
  match kind.closes with
  | some start => graph.checkOpen start
  | none => return ()

/-- The heads after a node was appended: it takes the place of its first parent among the
heads (the last place, if there are several) and its parents are heads no more.  If its first
parent was no head it goes last. -/
def headsAfter (id : Nat) (parents : List Nat) : List Nat → List Nat
  | [] => [id]
  | head :: rest =>
      if parents.head? = some head ∧ head ∉ rest then id :: rest.filter (· ∉ parents)
      else if head ∈ parents then headsAfter id parents rest
      else head :: headsAfter id parents rest

/-- The table with an action attached to a node, if it is there. -/
def attachIn (table : NodeTable) (id : Nat) (action : Action) : NodeTable :=
  match table.get? id with
  | some node => table.insert (node.attach action)
  | none => table

end Graph

/-- A step on a graph, which may fail.  What it did before it failed remains. -/
abbrev GraphM := EStateM GraphFault Graph

namespace GraphM

/-- What a graph tells. -/
def ask {α : Type} (question : Graph → Except GraphFault α) : GraphM α := fun graph =>
  match question graph with
  | .ok answer => .ok answer graph
  | .error fault => .error fault graph

/-- Appends a node.  The end of a block is also noted at its start. -/
def append [Numbering] (kind : NodeKind) (parents : List Nat) (name : String) : GraphM Node := do
  ask (·.checkGrowth kind parents)
  let id := (← get).nextId
  let node : Node := { id, kind, name, parents }
  if let some start := kind.closes then
    modify fun graph => { graph with table := Graph.attachIn graph.table start (.blockEnd id) }
  modify fun graph => { graph with heads := Graph.headsAfter id parents graph.heads }
  modify fun graph => { graph with table := graph.table.insert node }
  modify fun graph => { graph with nextId := Numbering.next id }
  return node

/-- Attaches an action to a node; it replaces the first one of its kind. -/
def attach (id : Nat) (action : Action) : GraphM Node := do
  let node ← ask (·.find id)
  let node := node.attach action
  modify fun graph => { graph with table := graph.table.insert node }
  return node

/-- The graph and the value a step comes to, if it does not fail. -/
def on {α : Type} (graph : Graph) (step : GraphM α) : Except GraphFault (Graph × α) :=
  match step graph with
  | .ok value graph => .ok (graph, value)
  | .error fault _ => .error fault

end GraphM

namespace Graph

/-- The graph with a node appended, and the node. -/
def append [Numbering] (graph : Graph) (kind : NodeKind) (parents : List Nat) (name : String) :
    Except GraphFault (Graph × Node) :=
  GraphM.on graph (GraphM.append kind parents name)

/-- The graph with an action attached to a node, and the node. -/
def attach (graph : Graph) (id : Nat) (action : Action) : Except GraphFault (Graph × Node) :=
  GraphM.on graph (GraphM.attach id action)

end Graph
end DurableRuns
