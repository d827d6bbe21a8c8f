/-
# DurableRuns.Flow.Kind -- what a node of an execution graph stands for

A run's history is a graph of nodes.  The first node starts the flow and the last one ends
it; between them a step is an atom, or a start with an end of its own.  A step start may open
a block, and only a block has to be closed by an end that names it.
-/
import DurableRuns.Json.Reading

namespace DurableRuns

set_option autoImplicit false

/-- The number of the first node of every run. -/
def firstId : Nat := 1

/-- A node number as reports show it. -/
def showId (id : Nat) : String := s!"NodeId({id})"

/-- A list of node numbers as reports show it. -/
def showIds (ids : List Nat) : String :=
  "[" ++ ", ".intercalate (ids.map showId) ++ "]"

/-- What a node stands for. -/
inductive NodeKind where
  | flowStart
  | flowEnd
  /-- A step begins; with `block` it stays open until an end names it. -/
  | stepStart (block : Bool)
  /-- The step that began at `start` ends. -/
  | stepEnd (start : Nat)
  /-- A step without a body. -/
  | atom
deriving DecidableEq, Repr

namespace NodeKind

/-- The kind begins or ends the flow. -/
def isBoundary : NodeKind → Bool
  | .flowStart | .flowEnd => true
  | _ => false

/-- The kind is a step or a part of one. -/
def isStep (kind : NodeKind) : Bool := !kind.isBoundary

/-- The kind opens a block. -/
def opensBlock : NodeKind → Bool
  | .stepStart block => block
  | _ => false

/-- The step start that the kind names as ended. -/
def closes : NodeKind → Option Nat
  | .stepEnd start => some start
  | _ => none

/-- The kind as reports show it. -/
def describe : NodeKind → String
  | .flowStart => "FlowStart"
  | .flowEnd => "FlowEnd"
  | .stepStart block => "StepStart \x7b block: " ++ (if block then "true" else "false") ++ " \x7d"
  | .stepEnd start => "StepEnd \x7b start: " ++ showId start ++ " \x7d"
  | .atom => "Atom"

/-! ## Written form -/

/-- The kind as a tagged record. -/
def toJson : NodeKind → Json
  | .flowStart => .record [("type", .text "flow_start")]
  | .flowEnd => .record [("type", .text "flow_end")]
  | .stepStart block => .record [("type", .text "step_start"), ("block", .bool block)]
  | .stepEnd start => .record [("type", .text "step_end"), ("start", .nat start)]
  | .atom => .record [("type", .text "atom")]

/-- The kind that a tag and its fields describe. -/
def ofTag? (body : Json) : String → Option NodeKind
  | "flow_start" => body.noFields?.map fun _ => .flowStart
  | "flow_end" => body.noFields?.map fun _ => .flowEnd
  | "step_start" => do
      let [block] ← body.allFields? ["block"] | none
      some (.stepStart (← block.bool?))
  | "step_end" => do
      let [start] ← body.allFields? ["start"] | none
      some (.stepEnd (← start.word?))
  | "atom" => body.noFields?.map fun _ => .atom
  | _ => none

/-- The kind that a tagged record describes. -/
def ofJson? (room : Nat) (value : Json) : Option NodeKind := do
  let (tag, body) ← value.tagged? room
  ofTag? body tag

end NodeKind
end DurableRuns
