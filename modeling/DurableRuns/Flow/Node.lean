/-
# DurableRuns.Flow.Node -- the nodes of an execution graph

A node has a number, a kind, a name, the numbers of the nodes it follows and its actions.
Number, kind, name and parents are fixed when the node is made; actions are attached later.
-/
import DurableRuns.Flow.Action

namespace DurableRuns

set_option autoImplicit false

/-- A node of an execution graph. -/
structure Node where
  id : Nat
  kind : NodeKind
  name : String
  parents : List Nat
  actions : List Action := []
deriving DecidableEq, Repr

namespace Node

/-- The first action of a kind. -/
def action? (node : Node) (kind : ActionKind) : Option Action :=
  node.actions.find? (·.kind = kind)

/-- The node with an action attached; it replaces the first one of its kind. -/
def attach (node : Node) (action : Action) : Node :=
  { node with actions := action.attachTo node.actions }

/-- Where the output of the step can be found. -/
def logHandle? (node : Node) : Option String :=
  match node.action? .log with
  | some (.log handle) => some handle
  | _ => none

/-- The node that closes the block this one opens. -/
def blockEnd? (node : Node) : Option Nat :=
  match node.action? .blockEnd with
  | some (.blockEnd closing) => some closing
  | _ => none

/-- The node was made to close what a failed run had left open. -/
def isAbnormalClosure (node : Node) : Bool := (node.action? .abnormalClosure).isSome

/-! ## Written form -/

/-- The node as a record. -/
def toJson (node : Node) : Json :=
  .record [("id", .nat node.id), ("kind", node.kind.toJson), ("name", .text node.name),
    ("parents", .array (node.parents.map .nat)),
    ("actions", .array (node.actions.map Action.toJson))]

/-- The node that a record describes, with `room` for nesting left at the record.  A record
without actions describes a node that has none. -/
def ofJson? (room : Nat) (value : Json) : Option Node := do
  let [id, kind, name, parents, actions] ←
    value.fields? ["id", "kind", "name", "parents", "actions"] | none
  some {
    id := ← (← id).word?
    kind := ← NodeKind.ofJson? (room - 1) (← kind)
    name := ← (← name).text?
    parents := ← (← parents).list? Json.word?
    actions := ←
      match actions with
      | none => some []
      | some actions => actions.list? (Action.ofJson? (room - 2)) }

/-- The nodes that an array of records describes. -/
def listOfJson? (room : Nat) (value : Json) : Option (List Node) :=
  value.list? (ofJson? (room - 1))

theorem attach_id (node : Node) (action : Action) : (node.attach action).id = node.id := rfl

theorem attach_parents (node : Node) (action : Action) :
    (node.attach action).parents = node.parents := rfl

theorem attach_kind (node : Node) (action : Action) :
    (node.attach action).kind = node.kind := rfl

end Node
end DurableRuns
