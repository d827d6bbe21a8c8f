/-
# DurableRuns.Run.Program -- the programs that drive a run

A `Command` asks one thing of a run, if only to see it.  A `Program` is a client of a run: it
gives commands, one after the other, each depending on the replies before it, and comes to a
result.  To append and to finish have to wait while the run is paused; the program is told so.
-/
import DurableRuns.Run.Operations

namespace DurableRuns

set_option autoImplicit false

variable [Numbering]

/-- One thing that is asked of a run. -/
inductive Command where
  | append (draft : NodeDraft)
  | finish (outcome : Outcome)
  | attach (id : Nat) (action : Action)
  | checkpoint (blob : Bytes)
  | flush
  | pause
  | unpause
  | shutdown
  /-- Asks to see the run, and changes nothing. -/
  | look
deriving DecidableEq, Repr

/-- What a command came to, if it did not fail. -/
inductive Reply where
  | done
  | node (node : Node)
  | seen (run : Run)
  /-- The command has to wait until the run is unpaused. -/
  | waits
deriving DecidableEq, Repr

/-- The command has to wait in a phase. -/
def Command.mustWait (phase : Phase) : Command → Bool
  | .append draft => !draft.kind.isBoundary && phase.holdsAppends
  | .finish _ => phase.holdsAppends
  | _ => false

/-- Carries out a command that need not wait. -/
def Command.carryOut : Command → RunM Reply
  | .append draft => return .node (← Run.append draft)
  | .finish outcome => return .node (← Run.finish outcome)
  | .attach id action => return .node (← Run.attach id action)
  | .checkpoint blob => do Run.takeCheckpoint blob; return .done
  | .flush => do Run.flush; return .done
  | .pause => do Run.pause; return .done
  | .unpause => do Run.unpause; return .done
  | .shutdown => do Run.shutdown; return .done
  | .look => return .seen (← RunM.current)

/-- Carries out a command, unless it has to wait. -/
def Command.perform (command : Command) : RunM Reply := do
  if command.mustWait (← RunM.current).phase then return .waits else command.carryOut

/-- A client of a run that comes to a result. -/
inductive Program (α : Type) where
  | result (value : α)
  | ask (command : Command) (next : Except Error Reply → Program α)

namespace Program

variable {α β : Type}

/-- One program after another. -/
def bind : Program α → (α → Program β) → Program β
  | .result value, next => next value
  | .ask command rest, next => .ask command fun reply => (rest reply).bind next

instance : Monad Program where
  pure := .result
  bind := bind

/-- A program that follows a list of commands up to the first that has to wait. -/
def script : List Command → Program Unit
  | [] => .result ()
  | command :: rest =>
      .ask command fun reply =>
        match reply with
        | .ok .waits => .result ()
        | _ => script rest

/-- Runs a program on a run; gives the replies beside its result. -/
def run : Program α → RunM (α × List (Except Error Reply))
  | .result value => return (value, [])
  | .ask command next => do
      let reply ← RunM.attempt command.perform
      let (value, replies) ← (next reply).run
      return (value, reply :: replies)

end Program
end DurableRuns
