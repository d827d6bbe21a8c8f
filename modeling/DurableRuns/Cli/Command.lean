/-
# DurableRuns.Cli.Command -- what the command line does

Three commands act on a machine and print lines: one shows a run, one runs the demonstration
program as a new run, and one recovers the runs under a directory.  What is printed before a
failure stays printed; the failure itself goes to the error output.
-/
import DurableRuns.Cli.Arguments
import DurableRuns.Cli.Demo

namespace DurableRuns.Cli

set_option autoImplicit false

/-- What a command prints, and the code it ends with. -/
structure Result where
  code : Nat
  output : List String
  errors : List String
deriving DecidableEq, Repr

/-- A step that prints lines; the lines remain if it fails. -/
abbrev PrintM := EStateM Error (Machine × List String)

/-- Carries out a step on the machine. -/
def onMachine {α : Type} (step : MachineM α) : PrintM α := fun (machine, lines) =>
  match step machine with
  | .ok value machine => .ok value (machine, lines)
  | .error error machine => .error error (machine, lines)

/-- Prints a line. -/
def print (line : String) : PrintM Unit :=
  modify fun (machine, lines) => (machine, lines ++ [line])

/-! ## Showing a run -/

/-- A text filled up with blanks to a width. -/
def padded (width : Nat) (text : String) : String :=
  text ++ String.ofList (List.replicate (width - text.length) ' ')

/-- The line for a node. -/
def nodeLine (node : Node) : String :=
  "  " ++ toString node.id ++ " " ++ padded 28 node.kind.describe ++ " " ++
    padded 12 node.name ++ " parents=" ++ showIds node.parents ++ " actions=[" ++
    ", ".intercalate (node.actions.map fun action => action.kind.describe) ++ "]"

/-- The lines that show a run. -/
def runLines (run : Run) : List String :=
  ["Run " ++ run.record.runId,
    "  Hint: " ++ run.record.hint.name,
    "  Status: " ++ run.record.status.describe ++ " (" ++ run.record.result.name ++ ")",
    "  Clean: " ++ run.record.clean.describe,
    "  Heads: " ++ showIds run.record.heads,
    "  Continuation: " ++ (if run.checkpoint.isSome then "true" else "false")] ++
  run.graph.nodes.map nodeLine

/-- Shows a run. -/
def inspect (run : Place) : PrintM Unit := do
  let run ← onMachine (Run.openAt run)
  (runLines run).forM print

/-! ## Running and recovering -/

/-- Runs the demonstration program as a new run of a given name. -/
def demo (config : Config) (newName : String) (root : Place) (hint : Option Hint)
    (steps : Nat) (stopAfter : Option Nat) : PrintM Unit := do
  let _ ← onMachine (Host.learnTermination root)
  let run ← onMachine (Run.start (root.join newName) newName hint config)
  let ((outcome, _), run) ← onMachine ((Demo.program steps stopAfter).run.runOn run)
  match outcome with
  | .error error => throw error
  | .ok true =>
      print ("Run " ++ newName ++ " completed: " ++ run.phase.result.name)
      onMachine (Host.leaveMarker root)
  | .ok false => print ("Run " ++ newName ++ " stopped without shutdown")

/-- Prints the reports of a recovery, and shuts down the runs that go on. -/
def printReports : List RecoveryReport → PrintM Unit
  | [] => return ()
  | report :: rest => do
      print (report.runId ++ ": " ++ report.outcome.describe)
      if let some run := report.run then
        let _ ← onMachine (Run.shutdown.runOn run)
      printReports rest

/-- Recovers the runs under a directory. -/
def recover (config : Config) (root : Place) (dirty : Bool) : PrintM Unit := do
  let termination ← if dirty then pure .dirty else onMachine (Host.learnTermination root)
  let coordinator : Coordinator := { root, termination, resumer := Demo.resumer, config }
  let (reports, _) ← onMachine coordinator.recoverAll
  printReports reports
  onMachine (Host.leaveMarker root)
  print ("Recovered " ++ toString reports.length ++ " run(s).")

/-! ## The whole program -/

/-- The settings of an invocation. -/
def settings (disk : Disk) (file : Option Place) (lookup : String → Option String) :
    Except Error Config := do
  let config ←
    match file with
    | none => .ok .default
    | some file => Config.read disk file
  config.withEnvironment lookup

/-- Carries out a request from a working directory. -/
def perform (config : Config) (newName : String) (workingDirectory : Path) :
    Request → PrintM Unit
  | .inspect run => inspect (.ofText workingDirectory run)
  | .demo root hint steps stopAfter =>
      demo config newName (.ofText workingDirectory root) hint steps stopAfter
  | .recover root dirty => recover config (.ofText workingDirectory root) dirty

/-- How the program is used. -/
def usage : List String :=
  ["Inspect, drive and recover durable runs", "",
    "Usage: flowctl [OPTIONS] <COMMAND>", "",
    "Commands:",
    "  inspect <run-dir>  Print the execution record and the graph of one run",
    "  demo <ROOT>        Run a scripted program of block steps as a new run under ROOT",
    "  recover <ROOT>     Recover every run under ROOT"]

/-- Where a process of the program runs. -/
structure Surroundings where
  workingDirectory : Path
  /-- The variables of the environment. -/
  lookup : String → Option String
  /-- The name that a new run gets. -/
  newName : String

/-- Runs the program with its arguments. -/
def runProgram (arguments : List String) (surroundings : Surroundings) (machine : Machine) :
    Result × Machine :=
  match parse arguments with
  | .misused => (⟨2, [], usage⟩, machine)
  | .help => (⟨0, usage, []⟩, machine)
  | .run invocation =>
      let file := invocation.config.map (Place.ofText surroundings.workingDirectory)
      match settings machine.disk file surroundings.lookup with
      | .error error => (⟨1, [], ["Error: " ++ error.message]⟩, machine)
      | .ok config =>
          let request :=
            perform config surroundings.newName surroundings.workingDirectory invocation.request
          match request (machine, []) with
          | .ok () (machine, lines) => (⟨0, lines, []⟩, machine)
          | .error error (machine, lines) =>
              (⟨1, lines, ["Error: " ++ error.message]⟩, machine)

/-- The paths that an invocation looks at, each with how far below it. -/
def Invocation.scope (invocation : Invocation) (workingDirectory : Path) : List (Path × Nat) :=
  let operand : String × Nat :=
    match invocation.request with
    | .inspect run => (run, 2)
    | .demo root .. => (root, 1)
    | .recover root _ => (root, 3)
  (operand :: invocation.config.toList.map (·, 0)).map fun (text, depth) =>
    ((Place.ofText workingDirectory text).path, depth)

end DurableRuns.Cli
