/-
# DurableRuns.Proofs.Run.Laws -- laws of steps

Much of what is known of a run is a law of its steps, which holds of them whatever they come to:
that a step spares the run in memory, that it keeps to the directory of the run, that what it
writes is in order.  A law that goes over from two steps to the one after the other (`Composes`),
and to a step whose failure is caught (`Catches`), holds of an operation as soon as it holds of the
few steps that it is made of.
-/
import DurableRuns.Proofs.Run.Logic
import DurableRuns.Run.Program

namespace DurableRuns

set_option autoImplicit false

open Run

namespace RunM

/-- A law of steps holds where nothing is done, and of two steps of which it holds one after the
other. -/
structure Composes (law : ∀ {α : Type}, RunM α → Prop) : Prop where
  pure : ∀ {α : Type} (value : α), law (Pure.pure value : RunM α)
  throw : ∀ {α : Type} (error : Error), law (MonadExcept.throw error : RunM α)
  look : ∀ {α : Type} {next : Run → RunM α}, (∀ run, law (next run)) →
    law (RunM.current >>= next)
  bind : ∀ {α β : Type} {step : RunM α} {next : α → RunM β}, law step →
    (∀ value, law (next value)) → law (step >>= next)

/-- Moreover it holds where the failure of a step is caught, and where it is noted. -/
structure Catches (law : ∀ {α : Type}, RunM α → Prop) : Prop extends Composes law where
  attempt : ∀ {α : Type} {step : RunM α}, law step → law (RunM.attempt step)
  noteFault : ∀ error, law (Run.noteFault error)

section Laws

variable {law : ∀ {α : Type}, RunM α → Prop}

namespace Composes

variable (laws : Composes law)

include laws

theorem forM {α : Type} {step : α → RunM Unit} {values : List α}
    (holds : ∀ value ∈ values, law (step value)) : law (values.forM step) := by
  induction values with
  | nil => exact laws.pure ()
  | cons value rest ih =>
      obtain ⟨first, others⟩ := List.forall_mem_cons.1 holds
      exact laws.bind first fun _ => ih others

theorem storeStep (stores : ∀ node, law (Run.storeNode node)) (node : Node) :
    law (Run.storeStep node) := by
  refine laws.bind (stores node) fun _ => ?_
  cases node.kind.closes with
  | none => exact laws.pure ()
  | some start =>
      refine laws.look fun run => ?_
      cases run.graph.get? start with
      | some start => exact stores start
      | none => exact laws.throw _

theorem reachSafePoint (flushes : law Run.flushStore) (writes : law Run.writeCheckpoint)
    (cleans : law Run.markClean) : law Run.reachSafePoint := by
  refine laws.bind flushes fun _ => laws.look fun run => ?_
  split
  · exact laws.bind writes fun _ => cleans
  · exact cleans

theorem requireLive (operation : Operation) : law (Run.requireLive operation) := by
  refine laws.look fun run => ?_
  split
  · exact laws.throw _
  · exact laws.pure ()

theorem flush (reaches : law Run.reachSafePoint) : law Run.flush := by
  refine laws.bind (laws.requireLive .flush) fun _ => laws.look fun run => ?_
  split
  · exact laws.pure ()
  · exact reaches

theorem shutdown (reaches : law Run.reachSafePoint) : law Run.shutdown := by
  refine laws.look fun run => ?_
  split
  · exact laws.pure ()
  · exact reaches

theorem fail [Numbering] {reason : String} (closes : law (Run.endAsFailed reason)) :
    law (Run.fail reason) := by
  refine laws.look fun run => ?_
  split
  · exact laws.pure ()
  · exact closes

theorem pause (pauses : law Run.pausing) : law Run.pause := by
  rw [pause_eq]
  refine laws.look fun run => ?_
  cases run.phase with
  | running => exact pauses
  | resuming => exact pauses
  | complete result => exact laws.throw _
  | pausing => exact laws.pure ()
  | paused => exact laws.pure ()

theorem unpause (unpauses : ∀ flag, law (Run.unpausing flag)) : law Run.unpause := by
  rw [unpause_eq]
  refine laws.look fun run => ?_
  cases run.phase with
  | pausing => exact unpauses _
  | paused => exact unpauses _
  | complete result => exact laws.throw _
  | running => exact laws.pure ()
  | resuming => exact laws.pure ()

theorem append [Numbering] {draft : NodeDraft}
    (grows : ∀ parents, law (Run.growOrClose draft.kind parents draft.name draft.actions))
    (stores : ∀ node, law (Run.storing node (Run.storeStep node)
      (Run.wrapUp node node.kind.closes.isSome))) : law (Run.append draft) := by
  rw [append_eq]
  cases draft.kind.isBoundary with
  | true => exact laws.look fun run => laws.throw _
  | false =>
      exact laws.bind (laws.requireLive .append) fun _ => laws.look fun run =>
        laws.bind (grows _) stores

theorem attach {id : Nat} {action : Action}
    (grows : ∀ graph, law (RunM.update fun run => { run with graph }))
    (stores : ∀ node, law (Run.storing node (Run.storeNode node) do
      Run.wrapUp node (← RunM.current).phase.holdsAppends)) : law (Run.attach id action) := by
  rw [attach_eq]
  refine laws.bind (laws.requireLive .attach) fun _ => laws.look fun run => ?_
  split
  · exact laws.throw _
  · exact laws.bind (grows _) fun _ => stores _

theorem finish [Numbering] {outcome : Outcome}
    (grows : ∀ parents, law (Run.growOrClose .flowEnd parents flowEndName outcome.actions))
    (ends : ∀ node, law (Run.conclude [node] outcome.result)) : law (Run.finish outcome) :=
  laws.bind (laws.requireLive .finish) fun _ => laws.look fun _ => laws.bind (grows _) fun node =>
    laws.bind (ends node) fun _ => laws.pure node

/-- A command that has to wait does nothing. -/
theorem perform [Numbering]
    {command : Command} (carries : law command.carryOut) : law command.perform := by
  refine laws.look fun run => ?_
  split
  · exact laws.pure _
  · exact carries

/-- What a step comes to can be put into a reply. -/
theorem reply {α : Type} {step : RunM α} (reply : α → Reply) (holds : law step) :
    law (do return reply (← step)) := laws.bind holds fun _ => laws.pure _

end Composes

namespace Catches

variable (laws : Catches law)

include laws

theorem noted {step : RunM Unit} (holds : law step) : law (Run.noted step) := by
  refine laws.bind (laws.attempt holds) fun outcome => ?_
  cases outcome with
  | ok => exact laws.pure ()
  | error error => exact laws.noteFault error

theorem notedAndThrown {step : RunM Unit} (holds : law step) : law (Run.notedAndThrown step) := by
  refine laws.bind (laws.attempt holds) fun outcome => ?_
  cases outcome with
  | ok => exact laws.pure ()
  | error error => exact laws.bind (laws.noteFault error) fun _ => laws.throw error

theorem markDirty (stamps : law (Run.stampRecord .dirty)) : law Run.markDirty := by
  refine laws.look fun run => ?_
  split
  · exact laws.pure ()
  · exact laws.notedAndThrown stamps

theorem settle (cleans : law Run.markClean) : law Run.settle := by
  refine laws.look fun run => ?_
  split
  · exact laws.noted cleans
  · exact laws.pure ()

theorem storing (node : Node) {store : RunM Unit} {rest : RunM Node} (marks : law Run.markDirty)
    (stores : law store) (goes : law rest) : law (Run.storing node store rest) := by
  refine laws.bind (laws.attempt marks) fun _ => laws.bind (laws.attempt stores) fun outcome => ?_
  cases outcome with
  | ok => exact goes
  | error error => exact laws.bind (laws.noteFault error) fun _ => laws.pure node

theorem wrapUp (reaches : law Run.reachSafePoint) (cleans : law Run.markClean) (node : Node)
    (point : Bool) : law (Run.wrapUp node point) := by
  cases point with
  | true => exact laws.bind (laws.noted reaches) fun _ => laws.pure node
  | false => exact laws.bind (laws.settle cleans) fun _ => laws.pure node

theorem heldCheckpoint (marks : law Run.markDirty) (reaches : law Run.reachSafePoint) :
    law Run.heldCheckpoint :=
  laws.bind (laws.attempt marks) fun _ => laws.notedAndThrown reaches

theorem promptCheckpoint (marks : law Run.markDirty) (writes : law Run.writeCheckpoint)
    (cleans : law Run.markClean) : law Run.promptCheckpoint := by
  refine laws.bind (laws.attempt marks) fun _ => laws.bind (laws.notedAndThrown writes) fun _ =>
    laws.look fun run => ?_
  split
  · exact cleans
  · exact laws.pure ()

theorem growOrClose [Numbering]
    {kind : NodeKind} {parents : List Nat} {name : String} {actions : List Action}
    (grows : law (Run.grow kind parents name actions))
    (closes : ∀ reason, law (Run.endAsFailed reason)) :
    law (Run.growOrClose kind parents name actions) := by
  refine laws.bind (laws.attempt grows) fun outcome => ?_
  cases outcome with
  | ok node => exact laws.pure node
  | error error =>
      dsimp only
      split
      · exact laws.bind (closes _) fun _ => laws.throw error
      · exact laws.throw error

end Catches
end Laws
end RunM
end DurableRuns
