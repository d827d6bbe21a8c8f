/-
# DurableRuns.Cli.Demo -- a program to try runs with

The demonstration program does a number of steps, each a block with an argument and a log, and
hands over the next step's number as its continuation after each.  Its resumer reads this
number back and does the steps that are left.
-/
import DurableRuns.Recovery.Coordinator

namespace DurableRuns.Cli

set_option autoImplicit false

/-- The continuation of the demonstration program. -/
structure DemoProgress where
  nextStep : Nat
  steps : Nat
deriving DecidableEq, Repr

namespace DemoProgress

/-- The continuation as a JSON record. -/
def toJson (state : DemoProgress) : Json :=
  .record [("next_step", .nat state.nextStep), ("steps", .nat state.steps)]

/-- The continuation as bytes. -/
def encode (state : DemoProgress) : Bytes := state.toJson.compact

/-- The continuation that bytes write. -/
def decode? (blob : Bytes) : Option DemoProgress := do
  let [nextStep, steps] ← (← Json.parse blob).allFields? ["next_step", "steps"] | none
  some { nextStep := ← nextStep.word?, steps := ← steps.word? }

end DemoProgress

namespace Demo

/-- A program that fails or comes to a result. -/
abbrev Fallible (α : Type) := Program (Except Error α)

/-- Gives a command and goes on with its reply, unless it fails. -/
def request {α : Type} (command : Command) (next : Reply → Fallible α) : Fallible α :=
  .ask command fun reply =>
    match reply with
    | .ok reply => next reply
    | .error error => .result (.error error)

/-- Gives a command whose reply is a node.  A command that has to wait ends the program early. -/
def requestNode (command : Command) (next : Node → Fallible Bool) : Fallible Bool :=
  request command fun reply =>
    match reply with
    | .node node => next node
    | _ => .result (.ok false)

/-- The name of a step. -/
def stepName (step : Nat) : String := "step-" ++ toString step

/-- One step: a block with its arguments and its log, and the continuation after it. -/
def oneStep (step steps : Nat) (next : Fallible Bool) : Fallible Bool :=
  let name := stepName step
  let arguments := Action.arguments (.ofList [("index", toString step)])
  requestNode (.append { kind := .stepStart true, name, actions := [arguments] }) fun start =>
    requestNode (.attach start.id (.log (name ++ ".log"))) fun _ =>
      requestNode (.append { kind := .stepEnd start.id, name }) fun _ =>
        request (.checkpoint (DemoProgress.encode ⟨step + 1, steps⟩)) fun _ => next

/-- Does the last `left` of the steps and finishes; stops early before the step `stop`. -/
def stepsLeft (steps : Nat) (stop : Option Nat) : Nat → Fallible Bool
  | 0 => requestNode (.finish .ok) fun _ => .result (.ok true)
  | left + 1 =>
      let step := steps - (left + 1)
      if stop = some step then .result (.ok false)
      else oneStep step steps (stepsLeft steps stop left)

/-- Does the steps from a state on; the result is `false` if it stopped early. -/
def drive (state : DemoProgress) (stop : Option Nat) : Fallible Bool :=
  stepsLeft state.steps stop (state.steps - state.nextStep)

/-- The whole program: it hands over its first state and does all steps. -/
def program (steps : Nat) (stop : Option Nat) : Fallible Bool :=
  request (.checkpoint (DemoProgress.encode ⟨0, steps⟩)) fun _ => drive ⟨0, steps⟩ stop

/-- Reinstalls the program: reads its state and, unless the run is paused, does the rest. -/
def resumer : Resumer := fun run blob =>
  match DemoProgress.decode? blob with
  | none => .result (.error ReadFault.malformedMessage)
  | some state =>
      if run.phase = .paused then .result (.ok ())
      else do
        match ← drive state none with
        | .ok _ => return .ok ()
        | .error error => return .error error.message

end Demo
end DurableRuns.Cli
