/-
# DurableRuns.Engine -- the runs of one process

An `Engine` is a process with its live runs, each under the name of its directory.  It gives
commands to runs and keeps the one command of a run that has to wait; a step that ends the
pause carries it out at once.  While time passes it flushes the batched runs that were opened
with a period for this.

The host may change while runs are live.  A run keeps the host it began with, and only what is
released to the present host is seen.
-/
import DurableRuns.Recovery.Coordinator

namespace DurableRuns

set_option autoImplicit false

/-- A live run of a process. -/
structure Slot where
  name : String
  run : Run
  /-- The command that waits until the run is unpaused. -/
  waiting : Option Command := none
  /-- The period of the background flush, and when it began. -/
  flushPeriod : Option Nat
  openedAt : Nat
  /-- The number of the host the run belongs to. -/
  host : Nat

/-- A process with its live runs. -/
structure Engine where
  machine : Machine
  root : Place
  /-- The number of the present host, and what it knows of the process before. -/
  host : Nat := 0
  termination : Termination := .clean
  /-- The coordinator of the last recovery, and the number of its host. -/
  coordinator : Option (Coordinator × Nat) := none
  slots : List Slot := []
  /-- The time since the process began, in milliseconds. -/
  time : Nat := 0

/-- What became of a command. -/
inductive Answer where
  | noSuchRun
  /-- The command would have to wait, and another one waits already. -/
  | alreadyWaiting
  | waits
  /-- The command was carried out; so was, after it, the one that had waited, if its reply is
  given. -/
  | replied (reply : Except Error Reply) (unblocked : Option (Except Error Reply))

/-- A step on a process. -/
abbrev EngineM := StateM Engine

namespace Engine

/-- The live run of a name. -/
def slot? (engine : Engine) (name : String) : Option Slot := engine.slots.find? (·.name = name)

/-- The place of a directory under the root. -/
def place (engine : Engine) (name : String) : Place := engine.root.join name

/-- Carries out a step on the machine. -/
def onMachine {α : Type} (step : MachineM α) : EngineM (Except Error α) := fun engine =>
  match step engine.machine with
  | .ok value machine => (.ok value, { engine with machine })
  | .error error machine => (.error error, { engine with machine })

/-- Carries out a step on the machine for a host; what is released to another host than the
present one is not seen. -/
def onMachineOf {α : Type} (host : Nat) (step : MachineM α) : EngineM (Except Error α) := do
  let before ← get
  let outcome ← onMachine step
  if host ≠ before.host then
    modify fun engine =>
      { engine with machine := { engine.machine with released := before.machine.released } }
  return outcome

/-- Changes the host.  Nothing has been released to the new one. -/
def changeHost (termination : Termination) : EngineM Unit :=
  modify fun engine =>
    { engine with machine := { engine.machine with released := [] }
                  host := engine.host + 1
                  termination }

/-- Drops the live run of a name, without shutting it down. -/
def kill (name : String) : EngineM Unit :=
  modify fun engine => { engine with slots := engine.slots.filter (·.name ≠ name) }

/-- Makes a run the live run of its name; one that was there is dropped. -/
def install (host : Nat) (config : Config) (name : String) (run : Run) : EngineM Unit := do
  kill name
  modify fun engine =>
    let period :=
      if run.hint.writesEveryStep || run.phase.isComplete then none
      else config.flushInterval.filter (0 < ·)
    let slot : Slot := { name, run, flushPeriod := period, openedAt := engine.time, host }
    { engine with slots := slot :: engine.slots }

/-- Replaces the slot of a live run. -/
def replace (slot : Slot) : EngineM Unit :=
  modify fun engine =>
    { engine with slots := engine.slots.map fun old => if old.name = slot.name then slot else old }

/-- Starts a run and makes it live. -/
def start (name runId : String) (asked : Option Hint) (config : Config) :
    EngineM (Except Error Unit) := do
  match ← onMachine (Run.start ((← get).place name) runId asked config) with
  | .error error => return .error error
  | .ok run =>
      install (← get).host config name run
      return .ok ()

/-- Opens a run and makes it live. -/
def openRun (name : String) (config : Config) : EngineM (Except Error Unit) := do
  match ← onMachine (Run.openAt ((← get).place name)) with
  | .error error => return .error error
  | .ok run =>
      install (← get).host config name run
      return .ok ()

/-- Carries out a step on a live run. -/
def onRun {α : Type} (slot : Slot) (step : RunM α) : EngineM (Except Error α) := do
  match ← onMachineOf slot.host ((RunM.attempt step).runOn slot.run) with
  | .error error => return .error error
  | .ok (outcome, run) =>
      replace { slot with run }
      return outcome

/-- Carries out the command that waits for a run, if the run is paused no more. -/
def unblock (name : String) : EngineM (Option (Except Error Reply)) := do
  match (← get).slot? name with
  | none => return none
  | some slot =>
      match slot.waiting with
      | none => return none
      | some command =>
          if command.mustWait slot.run.phase then return none
          return some (← onRun { slot with waiting := none } command.carryOut)

/-- Gives a command to a live run. -/
def command (name : String) (command : Command) : EngineM Answer := do
  match (← get).slot? name with
  | none => return .noSuchRun
  | some slot =>
      if command.mustWait slot.run.phase then
        if slot.waiting.isSome then return .alreadyWaiting
        replace { slot with waiting := some command }
        return .waits
      let reply ← onRun slot command.carryOut
      return .replied reply (← unblock name)

/-- The background flush of a run is due between two points in time. -/
def flushIsDue (slot : Slot) (before after : Nat) : Bool :=
  match slot.flushPeriod with
  | none => false
  | some period =>
      !slot.run.phase.isComplete &&
        (before - slot.openedAt) / period < (after - slot.openedAt) / period

/-- Flushes the given runs if that is due; what fails is tried again the next time. -/
def flushDue (before after : Nat) : List Slot → EngineM Unit
  | [] => return ()
  | slot :: rest => do
      if flushIsDue slot before after then
        let _ ← onRun slot Run.flush
      flushDue before after rest

/-- Lets time pass. -/
def tick (milliseconds : Nat) : EngineM Unit := do
  let engine ← get
  let later := engine.time + milliseconds
  modify fun engine => { engine with time := later }
  flushDue engine.time later engine.slots

/-- Makes the recovered runs live, each under the name of its directory. -/
def installAll (host : Nat) (config : Config) : List RecoveryReport → EngineM Unit
  | [] => return ()
  | report :: rest => do
      if let some run := report.run then
        install host config (report.place.path.getLast?.getD "") run
      installAll host config rest

/-- A recovery pass of a coordinator with its host.  The coordinator is kept. -/
def recoverWith (coordinator : Coordinator) (host : Nat) (only : Option String) :
    EngineM (Except Error (List RecoveryReport)) := do
  modify fun engine => { engine with coordinator := some (coordinator, host) }
  let engine ← get
  let pass : MachineM (List RecoveryReport × Coordinator) :=
    match only with
    | some name => coordinator.recoverEach [engine.place name]
    | none => coordinator.recoverAll
  match ← onMachineOf host pass with
  | .error error => return .error error
  | .ok (reports, coordinator) =>
      modify fun engine => { engine with coordinator := some (coordinator, host) }
      installAll host coordinator.config reports
      return .ok reports

/-- Recovers one run or all runs with a new coordinator. -/
def recover (coordinator : Coordinator) (only : Option String) :
    EngineM (Except Error (List RecoveryReport)) := do
  recoverWith coordinator (← get).host only

/-- Recovers one run or all runs with the last coordinator, or with a new one if there is none. -/
def recoverAgain (otherwise : Coordinator) (only : Option String) :
    EngineM (Except Error (List RecoveryReport)) := do
  match (← get).coordinator with
  | some (coordinator, host) => recoverWith coordinator host only
  | none => recover otherwise only

end Engine
end DurableRuns
