/-
# DurableRuns.Proofs.Run.Logic -- how steps on a run are put together

`Yields meets step live outcome after` says that a step, begun on `live`, comes to an outcome
and leaves `after`, and that on the way every disk meets a condition.  One rule for each way
to put steps together lets the yield of an operation be read off the yields of its parts.

The condition is for the kills: between two changes of the disk a process can be killed, and
what is then on the disk is one of the disks on the way (`Passes.meets_take`).

Operations that do the same with a node, or in more than one phase, are put together from the same
parts (`Run.grow_eq`, `Run.append_eq`, `Run.attach_eq`, `Run.takeCheckpoint_eq`, `Run.pause_eq`,
`Run.unpause_eq`), each of which has one rule in every logic.
-/
import DurableRuns.Proofs.Disk.Entries
import DurableRuns.Proofs.Flow.WellFormed
import DurableRuns.Run.Operations

namespace DurableRuns

set_option autoImplicit false

/-! ## Disks on the way -/

namespace Machine

/-- The machine after a change that was made. -/
def changed (machine : Machine) (change : Change) (disk : Disk) : Machine :=
  { machine with disk, refusals := machine.refusals.tail, log := machine.log ++ [change] }

/-- The machine after a change that was not made. -/
def missing (machine : Machine) (change : Change) : Machine :=
  { machine with refusals := machine.refusals.tail, missed := machine.missed ++ [change] }

theorem headD_refusals {machine : Machine}
    (willing : ∀ refusal ∈ machine.refusals, refusal = false) :
    machine.refusals.headD false = false := by
  cases refusals : machine.refusals with
  | nil => rfl
  | cons first rest => exact willing first (by simp [refusals])

/-- A change is made if the device does not refuse it and the disk admits it. -/
theorem commit_eq_ok {machine : Machine} {change : Change} {disk : Disk}
    (willing : ∀ refusal ∈ machine.refusals, refusal = false)
    (made : change.apply machine.disk = .ok disk) (toError : DiskFault → Error) :
    commit change toError machine = .ok () (machine.changed change disk) := by
  have taken := headD_refusals willing
  simp only [commit, attempt, taken, made]
  rfl

/-- A value is written, by one change, if the device does not refuse it and the disk admits
it. -/
theorem writeJson_eq_ok {machine : Machine} {place : Place} {value : Json} {disk : Disk}
    (willing : ∀ refusal ∈ machine.refusals, refusal = false)
    (written : machine.disk.write place.path value.pretty = .ok disk) (atomic : Bool) :
    ∃ change : Change, change.apply machine.disk = .ok disk ∧
      writeJson place value atomic machine = .ok () (machine.changed change disk) := by
  have made : (Change.write place.path value.pretty atomic).apply machine.disk = .ok disk := written
  exact ⟨_, made, commit_eq_ok willing made _⟩

theorem willing_changed {machine : Machine} {change : Change} {disk : Disk}
    (willing : ∀ refusal ∈ machine.refusals, refusal = false) :
    ∀ refusal ∈ (machine.changed change disk).refusals, refusal = false := by
  intro refusal inside
  exact willing refusal (List.mem_of_mem_tail inside)

end Machine

/-- A machine comes to another by changes of the disk, and every disk that a change leaves
meets a condition. -/
structure Passes (meets : Disk → Prop) (before after : Machine) : Prop where
  now_eq : after.now = before.now
  refusals : after.refusals <:+ before.refusals
  changes : ∃ changes, after.log = before.log ++ changes ∧
    before.disk.replay changes = .ok after.disk ∧
    ∀ made, made <+: changes → made ≠ [] → ∃ disk, before.disk.replay made = .ok disk ∧ meets disk

namespace Passes

variable {meets : Disk → Prop} {before between after : Machine}

theorem refl (machine : Machine) : Passes meets machine machine := by
  refine ⟨rfl, List.suffix_refl _, [], by simp, rfl, ?_⟩
  intro made first some
  exact absurd (List.prefix_nil.1 first) some

theorem mono {weaker : Disk → Prop} (implied : ∀ disk, meets disk → weaker disk)
    (passes : Passes meets before after) : Passes weaker before after := by
  refine ⟨passes.now_eq, passes.refusals, ?_⟩
  obtain ⟨changes, log, replayed, all⟩ := passes.changes
  refine ⟨changes, log, replayed, fun made first some => ?_⟩
  obtain ⟨disk, reached, met⟩ := all made first some
  exact ⟨disk, reached, implied disk met⟩

theorem trans (first : Passes meets before between) (second : Passes meets between after) :
    Passes meets before after := by
  refine ⟨second.now_eq.trans first.now_eq, second.refusals.trans first.refusals, ?_⟩
  obtain ⟨early, earlyLog, earlyDisk, earlyMeets⟩ := first.changes
  obtain ⟨late, lateLog, lateDisk, lateMeets⟩ := second.changes
  refine ⟨early ++ late, by rw [lateLog, earlyLog, List.append_assoc], ?_, ?_⟩
  · rw [Disk.replay_append, earlyDisk]
    exact lateDisk
  · intro made inside some
    rcases List.prefix_or_prefix_of_prefix inside (List.prefix_append early late) with short | long
    · exact earlyMeets made short some
    · obtain ⟨rest, rfl⟩ := long
      rw [Disk.replay_append, earlyDisk]
      by_cases none : rest = []
      · subst none
        by_cases begun : early = []
        · simp [begun] at some
        · obtain ⟨disk, replayed, met⟩ := earlyMeets early (List.prefix_refl _) begun
          obtain rfl := Except.ok.inj (earlyDisk.symm.trans replayed)
          exact ⟨_, rfl, met⟩
      · exact lateMeets rest ((List.prefix_append_right_inj early).1 inside) none

/-- A kill leaves the disk from before, or one that meets the condition. -/
theorem meets_take (passes : Passes meets before after) :
    ∃ changes, after.log = before.log ++ changes ∧ before.disk.replay changes = .ok after.disk ∧
      ∀ k, ∃ disk, before.disk.replay (changes.take k) = .ok disk ∧
        (disk = before.disk ∨ meets disk) := by
  obtain ⟨changes, log, replayed, all⟩ := passes.changes
  refine ⟨changes, log, replayed, fun k => ?_⟩
  by_cases none : changes.take k = []
  · rw [none]
    exact ⟨before.disk, rfl, .inl rfl⟩
  · obtain ⟨disk, replayed, met⟩ := all _ (List.take_prefix k changes) none
    exact ⟨disk, replayed, .inr met⟩

/-- A change that is made. -/
theorem commit {machine : Machine} {change : Change} {disk : Disk}
    (made : change.apply machine.disk = .ok disk) (met : meets disk) :
    Passes meets machine (machine.changed change disk) := by
  refine ⟨rfl, List.tail_suffix _, [change], rfl, Disk.replay_singleton made, ?_⟩
  intro first inside some
  obtain rfl : first = [change] := by
    rcases List.prefix_cons_iff.1 inside with none | ⟨rest, rfl, short⟩
    · exact absurd none some
    · rw [List.prefix_nil.1 short]
  exact ⟨disk, Disk.replay_singleton made, met⟩

end Passes

/-! ## Steps -/

/-- A look at the state gives it. -/
theorem get_apply {ε σ : Type} (state : σ) : (get : EStateM ε σ σ) state = .ok state state := rfl

/-- A look at the run gives it. -/
theorem RunM.current_apply (live : LiveRun) : RunM.current live = .ok live.run live := rfl

/-- A step that is put together goes through if its parts do, one after the other. -/
theorem bind_eq_ok {ε σ α β : Type} {step : EStateM ε σ α} {next : α → EStateM ε σ β}
    {before after : σ} {value : β} :
    (step >>= next) before = .ok value after ↔
      ∃ first between, step before = .ok first between ∧ next first between = .ok value after := by
  simp only [bind, EStateM.bind]
  cases step before with
  | error error between => simp
  | ok first between =>
      constructor
      · intro done
        exact ⟨first, between, rfl, done⟩
      · rintro ⟨_, _, same, done⟩
        cases same
        exact done

namespace RunM

theorem runOn_eq_ok {α : Type} {step : RunM α} {run : Run} {machine after : Machine}
    {found : α × Run} :
    step.runOn run machine = .ok found after ↔
      step { run, machine } = .ok found.1 { run := found.2, machine := after } := by
  rw [runOn]
  cases step { run, machine } with
  | ok value live =>
      obtain ⟨left, machine⟩ := live
      obtain ⟨value', left'⟩ := found
      simp only [EStateM.Result.ok.injEq, Prod.mk.injEq, LiveRun.mk.injEq]
      exact and_assoc
  | error error live => simp

/-- A step that is attempted comes to an outcome. -/
theorem attempt_returns {α : Type} (step : RunM α) (live : LiveRun) :
    ∃ outcome after, attempt step live = .ok outcome after := by
  rw [attempt]
  cases step live with
  | ok value after => exact ⟨_, _, rfl⟩
  | error error after => exact ⟨_, _, rfl⟩

/-- A step comes to an outcome, and every disk on the way meets a condition. -/
structure Yields {α : Type} (meets : Disk → Prop) (step : RunM α) (live : LiveRun)
    (outcome : Except Error α) (after : LiveRun) : Prop where
  result : attempt step live = .ok outcome after
  passes : Passes meets live.machine after.machine

namespace Yields

variable {α β : Type} {meets : Disk → Prop} {live between after : LiveRun}

theorem attempt_eq_ok {step : RunM α} {value : α} :
    RunM.attempt step live = .ok (.ok value) after ↔ step live = .ok value after := by
  rw [RunM.attempt]
  cases step live with
  | ok => simp
  | error => simp

theorem attempt_eq_error {step : RunM α} {error : Error} :
    RunM.attempt step live = .ok (.error error) after ↔ step live = .error error after := by
  rw [RunM.attempt]
  cases step live with
  | ok => simp
  | error => simp

theorem pure (value : α) : Yields meets (Pure.pure value) live (.ok value) live :=
  ⟨rfl, .refl _⟩

theorem throw (error : Error) :
    Yields meets (MonadExcept.throw error : RunM α) live (.error error) live :=
  ⟨rfl, .refl _⟩

theorem bind {step : RunM α} {next : α → RunM β} {value : α} {outcome : Except Error β}
    (first : Yields meets step live (.ok value) between)
    (second : Yields meets (next value) between outcome after) :
    Yields meets (step >>= next) live outcome after := by
  refine ⟨?_, first.passes.trans second.passes⟩
  have done := attempt_eq_ok.1 first.result
  have whole : (step >>= next) live = next value between := by
    simp only [Bind.bind, EStateM.bind, done]
  have later := second.result
  rw [RunM.attempt] at later ⊢
  rw [whole]
  exact later

theorem bind_error {step : RunM α} {next : α → RunM β} {error : Error}
    (first : Yields meets step live (.error error) after) :
    Yields meets (step >>= next) live (.error error) after := by
  refine ⟨?_, first.passes⟩
  have failed := attempt_eq_error.1 first.result
  rw [attempt_eq_error]
  simp only [Bind.bind, EStateM.bind, failed]

theorem attempt {step : RunM α} {outcome : Except Error α}
    (done : Yields meets step live outcome after) :
    Yields meets (RunM.attempt step) live (.ok outcome) after :=
  ⟨attempt_eq_ok.2 done.result, done.passes⟩

theorem current : Yields meets RunM.current live (.ok live.run) live := ⟨rfl, .refl _⟩

theorem get : Yields meets (MonadState.get : RunM LiveRun) live (.ok live) live := ⟨rfl, .refl _⟩

theorem update (change : Run → Run) :
    Yields meets (RunM.update change) live (.ok ()) { live with run := change live.run } :=
  ⟨rfl, .refl _⟩

/-- A step on the machine beneath a run. -/
theorem onMachine {step : MachineM α} {value : α} {machine : Machine}
    (done : step live.machine = .ok value machine)
    (passes : Passes meets live.machine machine) :
    Yields meets (RunM.onMachine step) live (.ok value) { live with machine } := by
  refine ⟨?_, passes⟩
  rw [attempt_eq_ok, RunM.onMachine, done]

/-- A change that the device does not refuse and the disk admits. -/
theorem commit {change : Change} {toError : DiskFault → Error} {disk : Disk}
    (willing : ∀ refusal ∈ live.machine.refusals, refusal = false)
    (made : change.apply live.machine.disk = .ok disk) (met : meets disk) :
    Yields meets (RunM.onMachine (Machine.commit change toError)) live (.ok ())
      { live with machine := live.machine.changed change disk } :=
  onMachine (Machine.commit_eq_ok willing made toError) (.commit made met)

/-- Telling the host that a run has ended changes no file. -/
theorem release : Yields meets Run.release live (.ok ())
    { live with machine :=
        { live.machine with released := live.machine.released ++ [live.run.runId] } } := by
  refine ⟨rfl, ⟨rfl, List.suffix_refl _, [], by simp, rfl, ?_⟩⟩
  intro made first some
  exact absurd (List.prefix_nil.1 first) some

/-- A step whose failure is remembered, when it does not fail. -/
theorem noted {step : RunM Unit} (done : Yields meets step live (.ok ()) after) :
    Yields meets (Run.noted step) live (.ok ()) after :=
  done.attempt.bind (pure ())

/-- A condition can be weakened. -/
theorem mono {step : RunM α} {outcome : Except Error α} {weaker : Disk → Prop}
    (implied : ∀ disk, meets disk → weaker disk) (done : Yields meets step live outcome after) :
    Yields weaker step live outcome after :=
  ⟨done.result, done.passes.mono implied⟩

end Yields
end RunM

/-! ## Steps on the store -/

namespace NodeStore

theorem save_eq (store : NodeStore) (node : Node) :
    store.save node =
      match store with
      | immediate directory atomic => do
          Machine.writeJson (nodeFile directory node.id) node.toJson atomic
          return store
      | batched file nodes unflushed fault =>
          return batched file (nodes.insert node) (unflushed + 1) fault := by
  funext machine
  cases store with
  | batched => rfl
  | immediate directory atomic =>
      simp only [save, StoreM.on, StoreM.save, StoreM.onMachine, bind, EStateM.bind, get_apply]
      cases Machine.writeJson (nodeFile directory node.id) node.toJson atomic machine <;> rfl

/-- **A node that is not saved leaves the store as it was.** -/
theorem save_step (store : NodeStore) (node : Node) (machine : Machine) :
    StoreM.save node { store, machine } =
      match store.save node machine with
      | .ok store machine => .ok () { store, machine }
      | .error error machine => .error error { store, machine } := by
  cases store with
  | batched => rfl
  | immediate directory atomic =>
      simp only [save, StoreM.on, StoreM.save, StoreM.onMachine, bind, EStateM.bind, get_apply]
      cases Machine.writeJson (nodeFile directory node.id) node.toJson atomic machine <;> rfl

theorem flush_eq (store : NodeStore) :
    store.flush =
      match store with
      | immediate .. => return store
      | batched file nodes unflushed fault => do
          if unflushed = 0 && (← get).disk.exists? file.path then return store
          Machine.writeJson file (.array (nodes.nodes.map Node.toJson)) true
          return batched file nodes 0 fault := by
  funext machine
  cases store with
  | immediate => rfl
  | batched file nodes unflushed fault =>
      simp only [flush, StoreM.on, StoreM.flush, bind, EStateM.bind, get_apply]
      cases unflushed = 0 && machine.disk.exists? file.path with
      | true => rfl
      | false =>
          simp only [Bool.false_eq_true, if_false, StoreM.onMachine, EStateM.bind]
          cases Machine.writeJson file (.array (nodes.nodes.map Node.toJson)) true machine <;> rfl

/-- **Nodes that cannot be written still wait.** -/
theorem flush_step (store : NodeStore) (machine : Machine) :
    StoreM.flush { store, machine } =
      match store.flush machine with
      | .ok store machine => .ok () { store, machine }
      | .error error machine => .error error { store, machine } := by
  cases store with
  | immediate => rfl
  | batched file nodes unflushed fault =>
      simp only [flush, StoreM.on, StoreM.flush, bind, EStateM.bind, get_apply]
      cases unflushed = 0 && machine.disk.exists? file.path with
      | true => rfl
      | false =>
          simp only [Bool.false_eq_true, if_false, StoreM.onMachine, EStateM.bind]
          cases Machine.writeJson file (.array (nodes.nodes.map Node.toJson)) true machine <;> rfl

end NodeStore

/-! ## Parts of operations -/

namespace Run

open RunM

/-- A node that the store does not take leaves the store as it was. -/
theorem storeNode_eq (node : Node) : storeNode node = (do
    let store ← onMachine ((← current).store.save node)
    update fun run => { run with store }) := by
  funext live
  have step := live.run.store.save_step node live.machine
  simp only [storeNode, onStore, onMachine, bind, EStateM.bind, current_apply, step]
  cases live.run.store.save node live.machine <;> rfl

/-- Nodes that cannot be written still wait. -/
theorem flushStore_eq : flushStore = (do
    let store ← onMachine (← current).store.flush
    update fun run => { run with store }) := by
  funext live
  have step := live.run.store.flush_step live.machine
  simp only [flushStore, onStore, onMachine, bind, EStateM.bind, current_apply, step]
  cases live.run.store.flush live.machine <;> rfl

/-- A node that is in memory is marked and stored.  If it cannot be stored it is left at that,
and else what is left to do is done. -/
def storing (node : Node) (store : RunM Unit) (rest : RunM Node) : RunM Node := do
  let _ ← attempt markDirty
  if let .error error ← attempt store then
    noteFault error
    return node
  rest

/-- After its nodes were stored, an operation ends at a safe point, or settles. -/
def wrapUp (node : Node) (point : Bool) : RunM Node := do
  if point then noted reachSafePoint else settle
  return node

theorem append_eq [Numbering] (draft : NodeDraft) : append draft = (do
    if draft.kind.isBoundary then throw (.invalidState (← current).phase .appendBoundary)
    requireLive .append
    let parents := draft.parents.getD (← current).graph.heads
    let node ← growOrClose draft.kind parents draft.name draft.actions
    storing node (storeStep node) (wrapUp node node.kind.closes.isSome)) := rfl

/-- A node that the graph does not take leaves the run as it was. -/
theorem grow_eq [Numbering] (kind : NodeKind) (parents : List Nat) (name : String)
    (actions : List Action) : grow kind parents name actions = (do
    let live ← get
    match live.run.graph.append kind parents name with
    | .error fault => throw (.graph fault)
    | .ok (graph, node) =>
        let graph := RepairPlan.attachAll graph node.id (actionsOf kind actions live.machine.now)
        update fun run => { run with graph }
        return (graph.get? node.id).getD node) := by
  funext live
  simp only [grow, onGraph, live.run.graph.append_step kind parents name, bind, EStateM.bind,
    get_apply]
  cases live.run.graph.append kind parents name <;> rfl

/-- An action for a node that is not there leaves the run as it was. -/
theorem attach_eq (id : Nat) (action : Action) : attach id action = (do
    requireLive .attach
    match (← current).graph.attach id action with
    | .error fault => throw (.graph fault)
    | .ok (graph, node) =>
        update fun run => { run with graph }
        storing node (storeNode node) do wrapUp node (← current).phase.holdsAppends) := by
  funext live
  simp only [attach, onGraph, bind, EStateM.bind]
  cases requireLive .attach live with
  | error error after => rfl
  | ok _ after =>
      simp only [after.run.graph.attach_step id action, current_apply]
      cases after.run.graph.attach id action <;> rfl

/-- The run that has taken over a continuation. -/
def holding (run : Run) (blob : Bytes) (now : Instant) : Run :=
  { run with
    checkpoint := some { heads := run.graph.heads, blob, takenAt := now }
    checkpointPersisted := false }

/-- Writes a continuation that was taken over during a pause, with all else that waits. -/
def heldCheckpoint : RunM Unit := do
  let _ ← attempt markDirty
  notedAndThrown reachSafePoint

/-- Writes a continuation that was taken over at once. -/
def promptCheckpoint : RunM Unit := do
  let _ ← attempt markDirty
  notedAndThrown writeCheckpoint
  if (← current).store.isFlushed then markClean

theorem takeCheckpoint_eq (blob : Bytes) : takeCheckpoint blob = (do
    requireLive .checkpoint
    let now := (← get).machine.now
    update fun run => run.holding blob now
    let run ← current
    if run.phase.holdsAppends then heldCheckpoint
    else if run.hint.writesEveryStep then promptCheckpoint) := rfl

/-- A run that goes on is paused at a safe point, or goes on as it was. -/
def pausing : RunM Unit := do
  update fun run =>
    { run with phase := .pausing, record := { run.record with status := .paused } }
  match ← attempt reachSafePoint with
  | .ok () => update fun run => { run with phase := .paused }
  | .error error =>
      update fun run =>
        { run with phase := .running, record := { run.record with status := .running } }
      noteFault error
      throw error

theorem pause_eq : pause = (do
    match (← current).phase with
    | .running | .resuming => pausing
    | .complete result => throw (.invalidState (.complete result) .pause)
    | _ => return ()) := rfl

/-- A paused run goes on.  Its record keeps the flag that it was last written with. -/
def unpausing (flag : CleanFlag) : RunM Unit := do
  update fun run => { run with record := { run.record with status := .running } }
  noted (stampRecord flag)
  update fun run => { run with phase := .running }

theorem unpause_eq : unpause = (do
    let run ← current
    match run.phase with
    | .paused | .pausing => unpausing run.diskFlag
    | .complete result => throw (.invalidState (.complete result) .unpause)
    | _ => return ()) := rfl

end Run
end DurableRuns
