/-
# DurableRuns.Flow.Action -- what is attached to a node

A node carries actions: when it began, its arguments, its log and so on.  The kind of an
action tells which earlier action it replaces when it is attached.
-/
import DurableRuns.Flow.Arguments
import DurableRuns.Flow.Kind
import DurableRuns.Time.Written

namespace DurableRuns

set_option autoImplicit false

/-- The kinds of action, of which a node usually carries one each. -/
inductive ActionKind where
  | timing
  | arguments
  | log
  | label
  | blockEnd
  | error
  | abnormalClosure
deriving DecidableEq, Repr

/-- Something attached to a node. -/
inductive Action where
  /-- When the node began. -/
  | timing (startedAt : Instant)
  | arguments (values : Arguments)
  /-- Where the output of the step can be found. -/
  | log (handle : String)
  | label (text : String)
  /-- The node that closes the block this one opens. -/
  | blockEnd (closing : Nat)
  | error (message : String)
  /-- The node was made to close what a failed run had left open. -/
  | abnormalClosure (reason : String)
deriving DecidableEq, Repr

namespace ActionKind

/-- Every kind, in the usual order. -/
def all : List ActionKind := [timing, arguments, log, label, blockEnd, error, abnormalClosure]

/-- The kind as reports show it. -/
def describe : ActionKind → String
  | timing => "Timing"
  | arguments => "Arguments"
  | log => "Log"
  | label => "Label"
  | blockEnd => "BlockEnd"
  | error => "Error"
  | abnormalClosure => "AbnormalClosure"

end ActionKind

namespace Action

/-- The kind of an action. -/
def kind : Action → ActionKind
  | timing _ => .timing
  | arguments _ => .arguments
  | log _ => .log
  | label _ => .label
  | blockEnd _ => .blockEnd
  | error _ => .error
  | abnormalClosure _ => .abnormalClosure

/-- The actions with one more in the place of the first of its kind, or at the end. -/
def attachTo (action : Action) : List Action → List Action
  | [] => [action]
  | first :: rest =>
      if first.kind = action.kind then action :: rest else first :: attachTo action rest

/-- An instant as a JSON string. -/
def timeJson (t : Instant) : Json := .text (String.ofList t.print)

/-- The instant that a JSON string writes. -/
def time? (value : Json) : Option Instant := do Instant.parse? (← value.text?).toList

/-- The action as a tagged record. -/
def toJson : Action → Json
  | timing startedAt => .record [("type", .text "timing"), ("started_at", timeJson startedAt)]
  | arguments values => .record [("type", .text "arguments"), ("values", values.toJson)]
  | log handle => .record [("type", .text "log"), ("handle", .text handle)]
  | label text => .record [("type", .text "label"), ("text", .text text)]
  | blockEnd closing => .record [("type", .text "block_end"), ("end", .nat closing)]
  | error message => .record [("type", .text "error"), ("message", .text message)]
  | abnormalClosure reason =>
      .record [("type", .text "abnormal_closure"), ("reason", .text reason)]

/-- The one field of a tagged record. -/
def only? (name : String) (body : Json) : Option Json := do
  let [value] ← body.allFields? [name] | none
  some value

/-- The action that a tag and its field describe. -/
def ofTag? (body : Json) : String → Option Action
  | "timing" => do some (.timing (← time? (← only? "started_at" body)))
  | "arguments" => do some (.arguments (← Arguments.ofJson? (← only? "values" body)))
  | "log" => do some (.log (← (← only? "handle" body).text?))
  | "label" => do some (.label (← (← only? "text" body).text?))
  | "block_end" => do some (.blockEnd (← (← only? "end" body).word?))
  | "error" => do some (.error (← (← only? "message" body).text?))
  | "abnormal_closure" => do some (.abnormalClosure (← (← only? "reason" body).text?))
  | _ => none

/-- The action that a tagged record describes. -/
def ofJson? (room : Nat) (value : Json) : Option Action := do
  let (tag, body) ← value.tagged? room
  ofTag? body tag

end Action
end DurableRuns
