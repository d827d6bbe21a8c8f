/-
# DurableRuns.Proofs.Run.Refusals -- steps of which any change may be refused

`Ends step live done failed` says how a step ends that was begun on `live`: either it comes to
a value and `done` holds, or it fails and `failed` holds.  Nothing is assumed of the device,
so each change has two ends: it is made, or the disk is left as it was
(`Ends.writeJson`).
-/
import DurableRuns.Proofs.Run.Logic
import DurableRuns.Run.Operations

namespace DurableRuns

set_option autoImplicit false

namespace Machine

/-- A change is made as it is, or fails and leaves the disk as it was. -/
theorem commit_cases (machine : Machine) (change : Change) (toError : DiskFault → Error) :
    (∃ disk, change.apply machine.disk = .ok disk ∧
        commit change toError machine = .ok () (machine.changed change disk)) ∨
      ∃ fault, commit change toError machine =
        .error (toError fault) (machine.missing change) := by
  cases refused : machine.refusals.headD false with
  | true =>
      right
      refine ⟨.noSpace, ?_⟩
      simp only [commit, attempt, refused]
      rfl
  | false =>
      cases made : change.apply machine.disk with
      | ok disk =>
          left
          refine ⟨disk, rfl, ?_⟩
          simp only [commit, attempt, refused, made]
          rfl
      | error fault =>
          right
          refine ⟨fault, ?_⟩
          simp only [commit, attempt, refused, made]
          rfl

end Machine

namespace RunM

/-- A step, begun on `live`, comes to a value and `done` holds, or fails and `failed` holds. -/
def Ends {α : Type} (step : RunM α) (live : LiveRun) (done : α → LiveRun → Prop)
    (failed : Error → LiveRun → Prop) : Prop :=
  match step live with
  | .ok value after => done value after
  | .error error after => failed error after

/-- A step, begun on `live`, leaves what meets a condition, be it that it fails. -/
abbrev EndsIn {α : Type} (step : RunM α) (live : LiveRun) (meets : LiveRun → Prop) : Prop :=
  Ends step live (fun _ => meets) fun _ => meets

/-- What a step comes to as an outcome, and what it leaves. -/
abbrev EndsAs {α : Type} (step : RunM α) (live : LiveRun)
    (meets : Except Error α → LiveRun → Prop) : Prop :=
  Ends step live (fun value => meets (.ok value)) fun error => meets (.error error)

theorem EndsAs.of_attempt {α : Type} {step : RunM α} {live after : LiveRun}
    {meets : Except Error α → LiveRun → Prop} {outcome : Except Error α}
    (ends : EndsAs step live meets) (attempted : attempt step live = .ok outcome after) :
    meets outcome after := by
  rw [attempt] at attempted
  rw [EndsAs, Ends] at ends
  cases result : step live with
  | ok value left =>
      rw [result] at attempted ends
      cases attempted
      exact ends
  | error error left =>
      rw [result] at attempted ends
      cases attempted
      exact ends

namespace Ends

variable {α β : Type} {live : LiveRun} {done : α → LiveRun → Prop}
  {failed : Error → LiveRun → Prop}

theorem of_attempt {step : RunM α} {outcome : Except Error α} {after : LiveRun}
    {meets : LiveRun → Prop} (ends : EndsIn step live meets)
    (attempted : RunM.attempt step live = .ok outcome after) : meets after :=
  (show EndsAs step live fun _ => meets from ends).of_attempt attempted

theorem mono {step : RunM α} {done' : α → LiveRun → Prop} {failed' : Error → LiveRun → Prop}
    (ends : Ends step live done failed) (ok : ∀ value after, done value after → done' value after)
    (error : ∀ error after, failed error after → failed' error after) :
    Ends step live done' failed' := by
  rw [Ends] at ends ⊢
  cases result : step live with
  | ok value after =>
      rw [result] at ends
      exact ok value after ends
  | error fault after =>
      rw [result] at ends
      exact error fault after ends

/-- Two things that hold of how a step ends hold together. -/
theorem and {step : RunM α} {done' : α → LiveRun → Prop} {failed' : Error → LiveRun → Prop}
    (first : Ends step live done failed) (second : Ends step live done' failed') :
    Ends step live (fun value after => done value after ∧ done' value after)
      fun error after => failed error after ∧ failed' error after := by
  rw [Ends] at first second ⊢
  cases result : step live with
  | ok value after =>
      rw [result] at first second
      exact ⟨first, second⟩
  | error error after =>
      rw [result] at first second
      exact ⟨first, second⟩

theorem pure {value : α} (holds : done value live) : Ends (Pure.pure value) live done failed :=
  holds

theorem throw {error : Error} (holds : failed error live) :
    Ends (MonadExcept.throw error : RunM α) live done failed := holds

theorem of_yields {step : RunM α} {meets : Disk → Prop} {value : α} {after : LiveRun}
    (yields : Yields meets step live (.ok value) after) (holds : done value after) :
    Ends step live done failed := by
  rw [Ends, Yields.attempt_eq_ok.1 yields.result]
  exact holds

theorem of_yields_error {step : RunM α} {meets : Disk → Prop} {error : Error} {after : LiveRun}
    (yields : Yields meets step live (.error error) after) (holds : failed error after) :
    Ends step live done failed := by
  rw [Ends, Yields.attempt_eq_error.1 yields.result]
  exact holds

theorem bind {step : RunM β} {next : β → RunM α}
    (ends : Ends step live (fun value between => Ends (next value) between done failed) failed) :
    Ends (step >>= next) live done failed := by
  rw [Ends] at ends ⊢
  simp only [Bind.bind, EStateM.bind]
  cases result : step live with
  | ok value between =>
      rw [result] at ends
      exact ends
  | error error after =>
      rw [result] at ends
      exact ends

theorem attempt {step : RunM α} {done : Except Error α → LiveRun → Prop}
    (ends : Ends step live (fun value => done (.ok value)) (fun error => done (.error error))) :
    Ends (RunM.attempt step) live done failed := by
  rw [Ends] at ends ⊢
  rw [RunM.attempt]
  cases result : step live with
  | ok value after =>
      rw [result] at ends
      exact ends
  | error error after =>
      rw [result] at ends
      exact ends

theorem current {done : Run → LiveRun → Prop} (holds : done live.run live) :
    Ends RunM.current live done failed := holds

theorem get {done : LiveRun → LiveRun → Prop} (holds : done live live) :
    Ends (MonadState.get : RunM LiveRun) live done failed := holds

theorem update {done : Unit → LiveRun → Prop} {change : Run → Run}
    (holds : done () { live with run := change live.run }) :
    Ends (RunM.update change) live done failed := holds

/-- The run once it was noted that a write failed. -/
def faulted (live : LiveRun) (error : Error) : LiveRun :=
  { live with run :=
      { live.run with
        record := { live.run.record with clean := .dirty }
        storageFault := live.run.storageFault <|> some error } }

theorem noteFault {done : Unit → LiveRun → Prop} {error : Error}
    (holds : done () (faulted live error)) : Ends (Run.noteFault error) live done failed := holds

theorem noted {step : RunM Unit} {done : Unit → LiveRun → Prop}
    (ends : Ends step live done (fun error after => done () (faulted after error))) :
    Ends (Run.noted step) live done failed := by
  refine .bind (.attempt (ends.mono ?_ ?_))
  · exact fun _ _ holds => .pure holds
  · exact fun _ _ holds => .noteFault holds

theorem notedAndThrown {step : RunM Unit} {done : Unit → LiveRun → Prop}
    (ends : Ends step live done (fun error after => failed error (faulted after error))) :
    Ends (Run.notedAndThrown step) live done failed := by
  refine .bind (.attempt (ends.mono ?_ ?_))
  · exact fun _ _ holds => .pure holds
  · exact fun _ _ holds => .bind (.noteFault (.throw holds))

/-- Steps on the machine beneath a run, one after the other. -/
theorem onMachine_bind {step : MachineM β} {next : β → MachineM α}
    (ends : Ends (RunM.onMachine step) live
      (fun value between => Ends (RunM.onMachine (next value)) between done failed) failed) :
    Ends (RunM.onMachine (step >>= next)) live done failed := by
  rw [Ends, RunM.onMachine] at ends ⊢
  simp only [Bind.bind, EStateM.bind]
  cases result : step live.machine with
  | ok value machine =>
      rw [result] at ends
      exact ends
  | error error machine =>
      rw [result] at ends
      exact ends

theorem onMachine_pure {value : α} (holds : done value live) :
    Ends (RunM.onMachine (Pure.pure value)) live done failed := holds

theorem onMachine_get {done : Machine → LiveRun → Prop} (holds : done live.machine live) :
    Ends (RunM.onMachine MonadState.get) live done failed := holds

/-- One change of the disk is made, or fails and leaves the disk as it was. -/
theorem commit {change : Change} {toError : DiskFault → Error} {done : Unit → LiveRun → Prop}
    (made : ∀ disk, change.apply live.machine.disk = .ok disk →
      done () { live with machine := live.machine.changed change disk })
    (refused : ∀ fault, failed (toError fault)
      { live with machine := live.machine.missing change }) :
    Ends (RunM.onMachine (Machine.commit change toError)) live done failed := by
  rw [Ends, RunM.onMachine]
  rcases live.machine.commit_cases change toError with ⟨disk, ok, taken⟩ | ⟨fault, left⟩
  · rw [taken]
    exact made disk ok
  · rw [left]
    exact refused fault

/-- An operation that a run must be live for begins, or nothing is done. -/
theorem requireLive {operation : Operation} {step : RunM α}
    (refused : live.run.phase.isComplete = true →
      failed (.invalidState live.run.phase operation) live)
    (goes : live.run.phase.isComplete = false → Ends step live done failed) :
    Ends (do Run.requireLive operation; step) live done failed := by
  refine .bind (.bind (.current ?_))
  cases complete : live.run.phase.isComplete with
  | true => exact .throw (refused complete)
  | false => exact .pure (goes complete)

/-! ### The store -/

/-- A node is written at once, or it is added to those that wait. -/
theorem storeNode {node : Node} {done : Unit → LiveRun → Prop}
    (writes : ∀ directory atomic, live.run.store = .immediate directory atomic →
      Ends (RunM.onMachine (Machine.writeJson (NodeStore.nodeFile directory node.id) node.toJson
        atomic)) live
        (fun _ written => done ()
          { written with run := { written.run with store := .immediate directory atomic } }) failed)
    (waits : ∀ file nodes unflushed fault, live.run.store = .batched file nodes unflushed fault →
      done () { live with run := { live.run with
        store := .batched file (nodes.insert node) (unflushed + 1) fault } }) :
    Ends (Run.storeNode node) live done failed := by
  rw [Run.storeNode_eq]
  refine .bind (.current (.bind ?_))
  rw [NodeStore.save_eq]
  cases store : live.run.store with
  | immediate directory atomic =>
      refine .onMachine_bind ((writes directory atomic store).mono ?_ fun _ _ => id)
      exact fun _ _ holds => .onMachine_pure (.update holds)
  | batched file nodes unflushed fault =>
      exact .onMachine_pure (.update (waits file nodes unflushed fault store))

/-- The nodes that wait are written, unless none does. -/
theorem flushStore {done : Unit → LiveRun → Prop}
    (nothing : live.run.store.isFlushed = true → done () live)
    (writes : ∀ file nodes unflushed fault, live.run.store = .batched file nodes unflushed fault →
      Ends (RunM.onMachine (Machine.writeJson file (.array (nodes.nodes.map Node.toJson)) true)) live
        (fun _ written => done ()
          { written with run := { written.run with store := .batched file nodes 0 fault } }) failed) :
    Ends Run.flushStore live done failed := by
  have still {kept : NodeStore} (store : live.run.store = kept) (flushed : kept.isFlushed = true) :
      done () { live with run := { live.run with store := kept } } := by
    subst store
    exact nothing flushed
  rw [Run.flushStore_eq]
  refine .bind (.current (.bind ?_))
  rw [NodeStore.flush_eq]
  cases store : live.run.store with
  | immediate directory atomic => exact .onMachine_pure (.update (still store rfl))
  | batched file nodes unflushed fault =>
      refine .onMachine_bind (.onMachine_get ?_)
      split
      next waits =>
        exact .onMachine_pure (.update (still store (Bool.and_eq_true_iff.1 waits).1))
      next =>
        refine .onMachine_bind ((writes file nodes unflushed fault store).mono ?_ fun _ _ => id)
        exact fun _ _ holds => .onMachine_pure (.update holds)

/-! ### Operations

One rule for each operation that is the same for any run but for the few steps it is made of. -/

theorem append {draft : NodeDraft} {done : Node → LiveRun → Prop}
    (boundary : draft.kind.isBoundary = true →
      failed (.invalidState live.run.phase .appendBoundary) live)
    (refused : live.run.phase.isComplete = true → failed (.invalidState live.run.phase .append) live)
    (grows : live.run.phase.isComplete = false → draft.kind.isBoundary = false →
      Ends (Run.growOrClose draft.kind (draft.parents.getD live.run.graph.heads) draft.name
          draft.actions) live
        (fun node grown => Ends (Run.storing node (Run.storeStep node)
          (Run.wrapUp node node.kind.closes.isSome)) grown done failed) failed) :
    Ends (Run.append draft) live done failed := by
  rw [Run.append_eq]
  cases inner : draft.kind.isBoundary with
  | true => exact .bind (.current (.bind (.throw (boundary inner))))
  | false => exact .requireLive refused fun going => .bind (.current (.bind (grows going inner)))

theorem attach {id : Nat} {action : Action} {done : Node → LiveRun → Prop}
    (refused : live.run.phase.isComplete = true → failed (.invalidState live.run.phase .attach) live)
    (missing : ∀ fault, live.run.graph.attach id action = .error fault →
      failed (.graph fault) live)
    (grows : live.run.phase.isComplete = false → ∀ graph node,
      live.run.graph.attach id action = .ok (graph, node) →
        Ends (Run.storing node (Run.storeNode node) do
          Run.wrapUp node (← RunM.current).phase.holdsAppends)
          { live with run := { live.run with graph } } done failed) :
    Ends (Run.attach id action) live done failed := by
  rw [Run.attach_eq]
  refine .requireLive refused fun going => .bind (.current ?_)
  cases attached : live.run.graph.attach id action with
  | error fault => exact .throw (missing fault attached)
  | ok made => exact .bind (.update (grows going made.1 made.2 attached))

section Operations

variable {done : Unit → LiveRun → Prop}

theorem takeCheckpoint {blob : Bytes}
    (refused : live.run.phase.isComplete = true →
      failed (.invalidState live.run.phase .checkpoint) live)
    (held : live.run.phase.isComplete = false → live.run.phase.holdsAppends = true →
      Ends Run.heldCheckpoint { live with run := live.run.holding blob live.machine.now } done failed)
    (prompt : live.run.phase.isComplete = false → live.run.hint.writesEveryStep = true →
      Ends Run.promptCheckpoint { live with run := live.run.holding blob live.machine.now } done
        failed)
    (batched : live.run.phase.isComplete = false →
      done () { live with run := live.run.holding blob live.machine.now }) :
    Ends (Run.takeCheckpoint blob) live done failed := by
  rw [Run.takeCheckpoint_eq]
  refine .requireLive refused fun going => .bind (.get (.bind (.update (.bind (.current ?_)))))
  split
  next holds => exact held going holds
  next =>
    split
    next writes => exact prompt going writes
    next => exact .pure (batched going)

theorem flush
    (refused : live.run.phase.isComplete = true → failed (.invalidState live.run.phase .flush) live)
    (nothing : live.run.diskFlag = .clean → done () live)
    (reaches : live.run.phase.isComplete = false → Ends Run.reachSafePoint live done failed) :
    Ends Run.flush live done failed := by
  refine .requireLive refused fun going => .bind (.current ?_)
  split
  next written =>
    simp only [Bool.and_eq_true, decide_eq_true_eq] at written
    exact .pure (nothing written.2)
  next => exact reaches going

theorem shutdown (ended : live.run.phase.isComplete = true → done () live)
    (reaches : live.run.phase.isComplete = false → Ends Run.reachSafePoint live done failed) :
    Ends Run.shutdown live done failed := by
  refine .bind (.current ?_)
  cases complete : live.run.phase.isComplete with
  | true => exact .pure (ended complete)
  | false => exact reaches complete

theorem fail {reason : String} (ended : live.run.phase.isComplete = true → done () live)
    (closes : live.run.phase.isComplete = false →
      Ends (Run.endAsFailed reason) live done failed) :
    Ends (Run.fail reason) live done failed := by
  refine .bind (.current ?_)
  cases complete : live.run.phase.isComplete with
  | true => exact .pure (ended complete)
  | false => exact closes complete

theorem pause
    (refused : live.run.phase.isComplete = true → failed (.invalidState live.run.phase .pause) live)
    (rests : live.run.phase.holdsAppends = true → done () live)
    (pauses : live.run.phase.isComplete = false → live.run.phase.holdsAppends = false →
      Ends Run.pausing live done failed) : Ends Run.pause live done failed := by
  rw [Run.pause_eq]
  refine .bind (.current ?_)
  cases phase : live.run.phase with
  | running => exact pauses (by rw [phase]; rfl) (by rw [phase]; rfl)
  | resuming => exact pauses (by rw [phase]; rfl) (by rw [phase]; rfl)
  | complete result => exact .throw (phase ▸ refused (by rw [phase]; rfl))
  | pausing => exact .pure (rests (by rw [phase]; rfl))
  | paused => exact .pure (rests (by rw [phase]; rfl))

theorem unpause
    (refused : live.run.phase.isComplete = true →
      failed (.invalidState live.run.phase .unpause) live)
    (goes : live.run.phase.holdsAppends = false → done () live)
    (unpauses : live.run.phase.isComplete = false → live.run.phase.holdsAppends = true →
      Ends (Run.unpausing live.run.diskFlag) live done failed) :
    Ends Run.unpause live done failed := by
  rw [Run.unpause_eq]
  refine .bind (.current ?_)
  cases phase : live.run.phase with
  | pausing => exact unpauses (by rw [phase]; rfl) (by rw [phase]; rfl)
  | paused => exact unpauses (by rw [phase]; rfl) (by rw [phase]; rfl)
  | complete result => exact .throw (phase ▸ refused (by rw [phase]; rfl))
  | running => exact .pure (goes (by rw [phase]; rfl))
  | resuming => exact .pure (goes (by rw [phase]; rfl))

theorem enterResuming
    (enters : live.run.phase = .running →
      done () { live with run := { live.run with phase := .resuming } })
    (stays : done () live) : Ends Run.enterResuming live done failed := by
  refine .update ?_
  split
  next running => exact enters running
  next => exact stays

theorem leaveResuming
    (leaves : live.run.phase = .resuming →
      done () { live with run := { live.run with phase := .running } })
    (stays : done () live) : Ends Run.leaveResuming live done failed := by
  refine .update ?_
  split
  next resuming => exact leaves resuming
  next => exact stays

end Operations

end Ends
end RunM
end DurableRuns
