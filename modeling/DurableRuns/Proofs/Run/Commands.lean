/-
# DurableRuns.Proofs.Run.Commands -- the safe points among the commands

From a command, the run it was given to and its outcome it can be told whether it was a safe
point (`Command.isSafePoint`) and whether the graph has grown (`Command.hasGrown`).  Every
command keeps a settled run settled (`Command.perform_keeps`), and so does every program.
-/
import DurableRuns.Proofs.Run.Growing

namespace DurableRuns

set_option autoImplicit false

open Run RunM

namespace Command

/-- The actions that a command brings along can be written. -/
def Storable : Command → Prop
  | .append draft => draft.Storable
  | .attach _ action => action.Storable
  | _ => True

/-- The safe points of a batched run beside its start: the end of a block, an append or an end
that closes the run as failed, the end, a flush, a pause, the end of a pause, a shutdown, and
each action or continuation that is taken while the run is paused. -/
def isSafePoint (before : Run) : Command → Except Error Reply → Bool
  | .append _, .ok (.node node) => node.kind.closes.isSome
  | .append _, .error error | .finish _, .error error => error.isGraphFault
  | .finish _, .ok (.node _) | .flush, .ok _ | .pause, .ok _ | .shutdown, .ok _ => true
  | .attach .., .ok _ | .checkpoint _, .ok _ | .unpause, .ok _ => before.phase.holdsAppends
  | _, _ => false

/-- A node was appended or an action was attached. -/
def hasGrown : Command → Except Error Reply → Bool
  | .append _, .ok (.node _) | .attach .., .ok _ => true
  | _, _ => false

end Command

section Commands

variable {live after : LiveRun} {image image' : Image}

/-- What a step comes to can be put into a reply. -/
theorem Keeps.reply {α : Type} {step : RunM α} {safe grows : Except Error α → Bool}
    {safeReply grownReply : Except Error Reply → Bool} (reply : α → Reply)
    (keeps : Keeps step live image safe grows)
    (sameSafe : ∀ outcome, safeReply (outcome.map reply) = safe outcome)
    (sameGrown : ∀ outcome, grownReply (outcome.map reply) = grows outcome) :
    Keeps (do return reply (← step)) live image safeReply grownReply := by
  obtain ⟨outcome, after, image', done, performs⟩ := keeps
  refine ⟨outcome.map reply, after, image', ?_, ?_⟩
  · cases outcome with
    | ok value => exact .bind done (.pure _)
    | error error => exact .bind_error done
  · rw [sameSafe, sameGrown]
    exact performs

namespace Command

theorem carryOut_keeps (settled : Settled live image) {command : Command}
    (fits : command.Storable) (free : command.mustWait live.run.phase = false) :
    Keeps command.carryOut live image (command.isSafePoint live.run) command.hasGrown := by
  cases command with
  | append draft =>
      have held : draft.kind.isBoundary = true ∨ live.run.phase.holdsAppends = false := by
        have running := free
        simp only [mustWait, Bool.and_eq_false_iff, Bool.not_eq_false'] at running
        exact running
      exact (append_keeps settled fits held).reply .node
        (fun outcome => by cases outcome <;> rfl) (fun outcome => by cases outcome <;> rfl)
  | finish outcome =>
      exact (finish_keeps settled outcome).reply .node
        (fun outcome => by cases outcome <;> rfl) (fun outcome => by cases outcome <;> rfl)
  | attach id action =>
      exact (attach_keeps settled id fits).reply .node
        (fun outcome => by cases outcome <;> rfl) (fun outcome => by cases outcome <;> rfl)
  | checkpoint blob =>
      exact (takeCheckpoint_keeps settled blob).reply (fun _ => .done)
        (fun outcome => by cases outcome <;> rfl) (fun outcome => by cases outcome <;> rfl)
  | flush =>
      exact (flush_keeps settled).reply (fun _ => .done)
        (fun outcome => by cases outcome <;> rfl) (fun outcome => by cases outcome <;> rfl)
  | pause =>
      exact (pause_keeps settled).reply (fun _ => .done)
        (fun outcome => by cases outcome <;> rfl) (fun outcome => by cases outcome <;> rfl)
  | unpause =>
      exact (unpause_keeps settled).reply (fun _ => .done)
        (fun outcome => by cases outcome <;> rfl) (fun outcome => by cases outcome <;> rfl)
  | shutdown =>
      exact (shutdown_keeps settled).reply (fun _ => .done)
        (fun outcome => by cases outcome <;> rfl) (fun outcome => by cases outcome <;> rfl)
  | look =>
      exact .nothing (.ok (.seen live.run)) settled (.bind .current (.pure _))
        (fun point => by cases point) rfl

/-- A command that has to wait is no safe point, and nothing grows. -/
theorem waiting {command : Command} {phase : Phase} (run : Run)
    (waits : command.mustWait phase = true) :
    command.isSafePoint run (.ok .waits) = false ∧ command.hasGrown (.ok .waits) = false := by
  cases command with
  | append draft => exact ⟨rfl, rfl⟩
  | finish outcome => exact ⟨rfl, rfl⟩
  | _ => cases waits

/-- Every command keeps a settled run settled. -/
theorem perform_keeps (settled : Settled live image) {command : Command}
    (fits : command.Storable) :
    Keeps command.perform live image (command.isSafePoint live.run) command.hasGrown := by
  cases waits : command.mustWait live.run.phase with
  | true =>
      obtain ⟨pending, still⟩ := waiting live.run waits
      refine .nothing (.ok .waits) settled (.bind .current ?_) ?_ still
      · rw [waits]
        exact .pure _
      · intro point
        cases pending.symm.trans point
  | false =>
      obtain ⟨outcome, after, image', done, performs⟩ := carryOut_keeps settled fits waits
      refine ⟨outcome, after, image', .bind .current ?_, performs⟩
      rw [waits]
      exact done

end Command
end Commands
end DurableRuns
