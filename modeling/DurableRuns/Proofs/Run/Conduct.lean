/-
# DurableRuns.Proofs.Run.Conduct -- what a run writes is in order, whatever fails

A run may lack nodes since it was opened, and any of its writes may be refused.  What it has in
memory is orderly all the same, and so is whatever it writes: records and nodes that name only
numbers it has given out, and continuations that can be read back (`Change.IsOrderly`).  This is
told without a look at the disk: `Conducting bound step` says that a step, begun on an orderly run
that has given out the numbers below a bound, leaves an orderly run and makes orderly changes only.
-/
import DurableRuns.Proofs.Flow.Orderly
import DurableRuns.Proofs.Run.Faults

namespace DurableRuns

set_option autoImplicit false

open NodeStore (directoryName batchFileName nodeFile)
open Run RunM

/-! ## Orderly runs -/

/-- A record is that of a run with a hint, and its heads are numbers below a bound, each once. -/
structure Record.IsOrderly (record : Record) (hint : Hint) (bound : Nat) : Prop extends
    record.Below hint bound where
  heads_nodup : record.heads.Nodup

/-- A continuation can be written as long as the numbers below a bound have 64 bits.  Its heads
need not be below the bound: a run may be opened with a continuation whose nodes were lost. -/
def Checkpoint.IsOrderly (checkpoint : Checkpoint) (bound : Nat) : Prop :=
  bound ≤ UInt64.size → checkpoint.Storable

/-- A store is the one of a run, and the nodes that it holds in memory are orderly. -/
def NodeStore.IsOrderly (store : NodeStore) (place : Place) (hint : Hint) (bound : Nat) : Prop :=
  match store with
  | .immediate directory _ =>
      hint.storageKind = .immediate ∧ directory = place.join directoryName
  | .batched file nodes _ _ =>
      hint.storageKind = .batched ∧ file = place.join batchFileName ∧ nodes.IsOrderly bound

theorem NodeStore.IsOrderly.ofImage {nodes : NodeTable} {bound : Nat} (place : Place) (hint : Hint)
    (orderly : nodes.IsOrderly bound) :
    (NodeStore.ofImage place hint nodes).IsOrderly place hint bound := by
  rw [NodeStore.ofImage]
  cases kind : hint.storageKind with
  | immediate => exact ⟨kind, rfl⟩
  | batched => exact ⟨kind, rfl, orderly⟩

/-- What a run holds in memory that may come to its disk. -/
structure Holdings where
  place : Place
  hint : Hint
  runId : String
  graph : Graph
  store : NodeStore
  checkpoint : Option Checkpoint
  /-- The heads in the record. -/
  heads : List Nat
  version : Nat
  recordId : String
  recordHint : Hint

/-- What a run holds in memory that may come to its disk. -/
def Run.holdings (run : Run) : Holdings :=
  { place := run.place, hint := run.hint, runId := run.runId, graph := run.graph
    store := run.store, checkpoint := run.checkpoint, heads := run.record.heads
    version := run.record.version, recordId := run.record.runId
    recordHint := run.record.hint }

/-- Whatever comes to the disk of the holdings is orderly. -/
structure Holdings.IsOrderly (holdings : Holdings) : Prop where
  graph : holdings.graph.IsOrderly
  store : holdings.store.IsOrderly holdings.place holdings.hint holdings.graph.nextId
  checkpoint : ∀ checkpoint, holdings.checkpoint = some checkpoint →
    checkpoint.IsOrderly holdings.graph.nextId
  heads_nodup : holdings.heads.Nodup
  heads_lt : ∀ head ∈ holdings.heads, head < holdings.graph.nextId
  version_lt : holdings.version < UInt32.size
  recordHint : holdings.recordHint = holdings.hint

/-- A change that a run makes at a place: it writes the record, a continuation or nodes that name
numbers below a bound only, or it removes the continuation. -/
inductive Change.IsOrderly (place : Place) (hint : Hint) (bound : Nat) : Change → Prop
  | directories : IsOrderly place hint bound (.makeDirectories place.path)
  | record {record : Record} {atomic : Bool} (orderly : record.IsOrderly hint bound) :
      IsOrderly place hint bound
        (.write (RunFiles.recordFile place).path record.toJson.pretty atomic)
  | checkpoint {checkpoint : Checkpoint} {atomic : Bool} (orderly : checkpoint.IsOrderly bound) :
      IsOrderly place hint bound
        (.write (RunFiles.checkpointFile place).path checkpoint.toJson.pretty atomic)
  | node {node : Node} {atomic : Bool} (kind : hint.storageKind = .immediate)
      (orderly : node.IsOrderly bound) : IsOrderly place hint bound
        (.write (nodeFile (place.join directoryName) node.id).path node.toJson.pretty atomic)
  | batch {table : NodeTable} {atomic : Bool} (kind : hint.storageKind = .batched)
      (orderly : table.IsOrderly bound) : IsOrderly place hint bound
        (.write (place.join batchFileName).path
          (Json.array (table.nodes.map Node.toJson)).pretty atomic)
  | drop : IsOrderly place hint bound (.remove (RunFiles.checkpointFile place).path)

theorem Checkpoint.IsOrderly.mono {checkpoint : Checkpoint} {bound higher : Nat}
    (orderly : checkpoint.IsOrderly bound) (le : bound ≤ higher) : checkpoint.IsOrderly higher :=
  fun small => orderly (Nat.le_trans le small)

theorem Record.IsOrderly.mono {record : Record} {hint : Hint} {bound higher : Nat}
    (orderly : record.IsOrderly hint bound) (le : bound ≤ higher) : record.IsOrderly hint higher :=
  ⟨⟨orderly.hint_eq, orderly.version_lt, fun head inside =>
    Nat.lt_of_lt_of_le (orderly.heads_lt head inside) le⟩, orderly.heads_nodup⟩

theorem NodeStore.IsOrderly.mono {store : NodeStore} {place : Place} {hint : Hint}
    {bound higher : Nat} (orderly : store.IsOrderly place hint bound) (le : bound ≤ higher) :
    store.IsOrderly place hint higher := by
  cases store with
  | immediate directory atomic => exact orderly
  | batched file nodes unflushed fault =>
      obtain ⟨kind, here, inside⟩ := orderly
      exact ⟨kind, here, inside.mono le⟩

theorem Change.IsOrderly.mono {change : Change} {place : Place} {hint : Hint} {bound higher : Nat}
    (orderly : change.IsOrderly place hint bound) (le : bound ≤ higher) :
    change.IsOrderly place hint higher := by
  cases orderly with
  | directories => exact .directories
  | record orderly => exact .record (orderly.mono le)
  | checkpoint orderly => exact .checkpoint (orderly.mono le)
  | node kind orderly => exact .node kind (orderly.mono le)
  | batch kind orderly => exact .batch kind (orderly.mono le)
  | drop => exact .drop

/-- A run that grows, with the store as it was. -/
theorem Holdings.IsOrderly.grown {holdings : Holdings} {graph : Graph} (orderly : holdings.IsOrderly)
    (grown : graph.IsOrderly) (le : holdings.graph.nextId ≤ graph.nextId) :
    Holdings.IsOrderly { holdings with graph } where
  graph := grown
  store := orderly.store.mono le
  checkpoint := fun checkpoint held => (orderly.checkpoint checkpoint held).mono le
  heads_nodup := orderly.heads_nodup
  heads_lt := fun head inside => Nat.lt_of_lt_of_le (orderly.heads_lt head inside) le
  version_lt := orderly.version_lt
  recordHint := orderly.recordHint

/-- The record of an orderly run is orderly, whatever else it tells. -/
theorem Run.record_isOrderly (run : Run) (orderly : run.holdings.IsOrderly) {record : Record}
    (heads : record.heads = run.record.heads) (version : record.version = run.record.version)
    (hint : record.hint = run.record.hint) : record.IsOrderly run.hint run.graph.nextId :=
  ⟨⟨hint.trans orderly.recordHint, version ▸ orderly.version_lt, heads ▸ orderly.heads_lt⟩,
    heads ▸ orderly.heads_nodup⟩

/-- From one run to the other the run stayed orderly and the same, and the disk was changed by
orderly changes only. -/
structure Conducts (live after : LiveRun) : Prop where
  place_eq : after.run.place = live.run.place
  hint_eq : after.run.hint = live.run.hint
  runId_eq : after.run.runId = live.run.runId
  recordId_eq : after.run.record.runId = live.run.record.runId
  orderly : after.run.holdings.IsOrderly
  nextId_le : live.run.graph.nextId ≤ after.run.graph.nextId
  writes : ∃ changes, after.machine.log = live.machine.log ++ changes ∧
    live.machine.disk.replay changes = .ok after.machine.disk ∧
    ∀ change ∈ changes, change.IsOrderly live.run.place live.run.hint after.run.graph.nextId

section Conduct

variable {bound : Nat} {live between after : LiveRun}

namespace Conducts

/-- No file was changed, and what is held is the same. -/
theorem of_same (orderly : live.run.holdings.IsOrderly)
    (same : after.run.holdings = live.run.holdings) (log : after.machine.log = live.machine.log)
    (disk : after.machine.disk = live.machine.disk) : Conducts live after where
  place_eq := congrArg Holdings.place same
  hint_eq := congrArg Holdings.hint same
  runId_eq := congrArg Holdings.runId same
  recordId_eq := congrArg Holdings.recordId same
  orderly := same ▸ orderly
  nextId_le := Nat.le_of_eq (congrArg (fun held : Holdings => held.graph.nextId) same.symm)
  writes := ⟨[], by simp [log], by rw [disk]; rfl, by simp⟩

theorem refl (orderly : live.run.holdings.IsOrderly) : Conducts live live :=
  .of_same orderly rfl rfl rfl

theorem trans (first : Conducts live between) (second : Conducts between after) :
    Conducts live after := by
  obtain ⟨early, earlyLog, earlyDisk, earlyOrderly⟩ := first.writes
  obtain ⟨late, lateLog, lateDisk, lateOrderly⟩ := second.writes
  constructor
  case place_eq => exact second.place_eq.trans first.place_eq
  case hint_eq => exact second.hint_eq.trans first.hint_eq
  case runId_eq => exact second.runId_eq.trans first.runId_eq
  case recordId_eq => exact second.recordId_eq.trans first.recordId_eq
  case orderly => exact second.orderly
  case nextId_le => exact Nat.le_trans first.nextId_le second.nextId_le
  case writes =>
    refine ⟨early ++ late, by rw [lateLog, earlyLog, List.append_assoc], ?_, ?_⟩
    · rw [Disk.replay_append, earlyDisk]
      exact lateDisk
    · intro change inside
      rcases List.mem_append.1 inside with before | later
      · exact (earlyOrderly change before).mono second.nextId_le
      · exact first.place_eq ▸ first.hint_eq ▸ lateOrderly change later

/-- An orderly change is made. -/
theorem changed {change : Change} {disk : Disk} (orderly : live.run.holdings.IsOrderly)
    (fits : change.IsOrderly live.run.place live.run.hint live.run.graph.nextId)
    (made : change.apply live.machine.disk = .ok disk) :
    Conducts live { live with machine := live.machine.changed change disk } :=
  { refl orderly with
    writes := ⟨[change], rfl, Disk.replay_singleton made, by simpa using fits⟩ }

end Conducts

/-- A step that was begun on an orderly run leaves an orderly run and makes orderly changes only,
be it that it fails.  The run may be taken to have given out the numbers below a bound. -/
def Conducting (bound : Nat) {α : Type} (step : RunM α) : Prop :=
  ∀ live, live.run.holdings.IsOrderly → bound ≤ live.run.graph.nextId →
    EndsIn step live (Conducts live)

namespace Conducting

variable {α β : Type}

theorem pure (value : α) : Conducting bound (Pure.pure value : RunM α) :=
  fun _ orderly _ => .pure (.refl orderly)

theorem throw (error : Error) : Conducting bound (MonadExcept.throw error : RunM α) :=
  fun _ orderly _ => .throw (.refl orderly)

theorem current : Conducting bound RunM.current := fun _ orderly _ => .current (.refl orderly)

/-- A change of the run in memory that changes nothing that may come to the disk. -/
theorem update {change : Run → Run} (same : ∀ run, (change run).holdings = run.holdings) :
    Conducting bound (RunM.update change) :=
  fun live orderly _ => .update (.of_same orderly (same live.run) rfl rfl)

/-- What goes on after a step goes on from an orderly run that has given out as many numbers. -/
theorem goes_on {step : RunM α} (conducting : Conducting bound step)
    (first : Conducts live between) (le : bound ≤ live.run.graph.nextId) :
    EndsIn step between (Conducts live) :=
  (conducting between first.orderly (Nat.le_trans le first.nextId_le)).mono
    (fun _ _ => first.trans) fun _ _ => first.trans

/-- What may name every number that was given out by now goes on from here. -/
theorem goes_on_here {step : RunM α} (conducting : Conducting between.run.graph.nextId step)
    (first : Conducts live between) : EndsIn step between (Conducts live) :=
  (conducting between first.orderly (Nat.le_refl _)).mono (fun _ _ => first.trans)
    fun _ _ => first.trans

theorem bind {step : RunM α} {next : α → RunM β} (first : Conducting bound step)
    (second : ∀ value, Conducting bound (next value)) : Conducting bound (step >>= next) := by
  intro live orderly le
  refine .bind ((first live orderly le).mono ?_ fun _ _ => id)
  exact fun value between conducted => (second value).goes_on conducted le

theorem attempt {step : RunM α} (conducting : Conducting bound step) :
    Conducting bound (RunM.attempt step) := fun live orderly le => .attempt (conducting live orderly le)

theorem catches : Catches (Conducting bound) where
  pure := pure
  throw := throw
  look := bind current
  bind := bind
  attempt := attempt
  noteFault _ := update fun _ => rfl

/-- A change of the disk is made, or it is refused. -/
theorem commit {change : Change} {toError : DiskFault → Error}
    (orderly : live.run.holdings.IsOrderly)
    (fits : change.IsOrderly live.run.place live.run.hint live.run.graph.nextId) :
    EndsIn (onMachine (Machine.commit change toError)) live
      fun after => after.run = live.run ∧ Conducts live after :=
  .commit (fun _ made => ⟨rfl, .changed orderly fits made⟩)
    fun _ => ⟨rfl, .of_same orderly rfl rfl rfl⟩

end Conducting

namespace Run

/-! ## The record -/

theorem stampRecord_conducts (flag : CleanFlag) : Conducting bound (stampRecord flag) := by
  intro live orderly _
  let told : LiveRun := { live with run := { live.run with
    record := { live.run.record with clean := flag, updatedAt := live.machine.now } } }
  have telling : Conducts live told := .of_same orderly rfl rfl rfl
  have fits := Run.record_isOrderly told.run telling.orderly rfl rfl rfl
  refine .bind (.get (.bind (.update (.bind (.current (.bind ?_))))))
  refine (Conducting.commit telling.orderly (.record fits)).mono ?_ ?_
  · rintro _ written ⟨same, conducted⟩
    refine .update (telling.trans (conducted.trans (.of_same conducted.orderly rfl rfl rfl)))
  · exact fun _ written conducted => telling.trans conducted.2

theorem markDirty_conducts : Conducting bound markDirty :=
  Conducting.catches.markDirty (stampRecord_conducts .dirty)

theorem markClean_conducts : Conducting bound markClean := by
  intro live orderly le
  let turned : LiveRun := { live with run :=
    { live.run with record := { live.run.record with heads := live.run.graph.heads } } }
  have turning : Conducts live turned :=
    { Conducts.refl orderly with
      orderly := { orderly with
        heads_nodup := orderly.graph.heads_nodup
        heads_lt := orderly.graph.heads_lt } }
  exact .bind (.current (.bind (.update ((stampRecord_conducts _).goes_on turning le))))

/-! ## The nodes and the continuation -/

theorem writeCheckpoint_conducts : Conducting bound writeCheckpoint := by
  intro live orderly le
  refine .bind (.current ?_)
  cases held : live.run.checkpoint with
  | none => exact .pure (.refl orderly)
  | some checkpoint =>
      have persisting : Conducting bound
          (update fun run => { run with checkpointPersisted := true }) := .update fun _ => rfl
      refine .bind ((Conducting.commit orderly (.checkpoint (orderly.checkpoint _ held))).mono ?_ ?_)
      · exact fun _ _ conducted => persisting.goes_on conducted.2 le
      · exact fun _ _ conducted => conducted.2

/-- The store of a run is replaced by an orderly one. -/
theorem storing_conducts {store : NodeStore} (same : between.run = live.run)
    (conducted : Conducts live between)
    (fits : store.IsOrderly live.run.place live.run.hint live.run.graph.nextId) :
    Conducts live { between with run := { between.run with store } } := by
  refine conducted.trans { Conducts.refl conducted.orderly with orderly := ?_ }
  rw [← same] at fits
  exact { conducted.orderly with store := fits }

theorem storeNode_conducts {node : Node} (new : node.IsOrderly bound) :
    Conducting bound (storeNode node) := by
  intro live orderly le
  have fits := new.mono le
  have placed := orderly.store
  unfold NodeStore.IsOrderly at placed
  refine .storeNode (fun directory atomic store => ?writes)
    fun file nodes unflushed fault store => ?waits
  case writes =>
    simp only [Run.holdings, store] at placed
    obtain ⟨kind, rfl⟩ := placed
    exact (Conducting.commit orderly (.node kind fits)).mono
      (fun _ _ ⟨same, conducted⟩ => storing_conducts same conducted ⟨kind, rfl⟩)
      fun _ _ conducted => conducted.2
  case waits =>
    simp only [Run.holdings, store] at placed
    obtain ⟨kind, here, inside⟩ := placed
    exact storing_conducts rfl (.refl orderly) ⟨kind, here, inside.insert fits⟩

theorem storeStep_conducts {node : Node} (new : node.IsOrderly bound) :
    Conducting bound (storeStep node) := by
  refine .bind (storeNode_conducts new) fun _ => ?_
  cases node.kind.closes with
  | none => exact .pure ()
  | some start =>
      intro live orderly le
      refine .bind (.current ?_)
      cases stored : live.run.graph.get? start with
      | none => exact .throw (.refl orderly)
      | some opener =>
          exact storeNode_conducts (orderly.graph.nodes start opener stored) live orderly
            (Nat.le_refl _)

theorem flushStore_conducts : Conducting bound flushStore := by
  intro live orderly le
  have placed := orderly.store
  unfold NodeStore.IsOrderly at placed
  refine .flushStore (fun _ => .refl orderly) fun file nodes unflushed fault store => ?_
  simp only [Run.holdings, store] at placed
  obtain ⟨kind, rfl, inside⟩ := placed
  exact (Conducting.commit orderly (.batch kind inside)).mono
    (fun _ _ ⟨same, conducted⟩ => storing_conducts same conducted ⟨kind, rfl, inside⟩)
    fun _ _ conducted => conducted.2

theorem removeCheckpoint_conducts :
    Conducting bound (do onMachine (RunFiles.removeCheckpoint (← current).place)) := by
  intro live orderly le
  refine .bind (.current (.onMachine_bind (.onMachine_get ?_)))
  dsimp only
  split
  · exact .onMachine_pure (.refl orderly)
  · exact (Conducting.commit orderly .drop).mono (fun _ _ conducted => conducted.2)
      fun _ _ conducted => conducted.2

/-! ## Safe points and the end -/

theorem reachSafePoint_conducts : Conducting bound reachSafePoint :=
  Conducting.catches.reachSafePoint flushStore_conducts writeCheckpoint_conducts markClean_conducts

theorem conclude_conducts {nodes : List Node} (result : RunResult)
    (new : ∀ node ∈ nodes, node.IsOrderly bound) : Conducting bound (conclude nodes result) := by
  have ending : Conducting bound (update fun run =>
      { run with record := { run.record with status := .complete, result } }) :=
    .update fun _ => rfl
  have stores : Conducting bound (nodes.forM storeStep) :=
    Conducting.catches.forM fun node inside => storeStep_conducts (new node inside)
  have persists : Conducting bound (persistEnd nodes result) :=
    .bind markDirty_conducts fun _ => .bind stores fun _ => .bind flushStore_conducts fun _ =>
      .bind ending fun _ => .bind markClean_conducts fun _ => removeCheckpoint_conducts
  refine .bind (Conducting.catches.noted persists) fun _ => .bind ?_ fun _ => ?_
  · -- In memory the continuation is dropped even where the disk keeps it.
    intro live orderly _
    refine .update { Conducts.refl orderly with orderly := ?_ }
    exact { orderly with checkpoint := fun _ none => by cases none }
  · exact fun live orderly _ => .of_same orderly rfl rfl rfl

theorem endAsFailed_conducts (reason : String) : Conducting bound (endAsFailed reason) := by
  intro live orderly le
  refine .bind (.current ?_)
  cases applied : (RepairPlan.make live.run.graph reason).apply live.run.graph with
  | mk graph outcome =>
      obtain ⟨grown, higher, nodes⟩ := orderly.graph.repaired applied
      have growing : Conducts live { live with run := { live.run with graph } } :=
        { Conducts.refl orderly with
          orderly := orderly.grown grown higher
          nextId_le := higher
          writes := ⟨[], by simp, rfl, by simp⟩ }
      refine .bind (.update ?_)
      cases outcome with
      | ok appended =>
          exact (conclude_conducts .failure (nodes appended rfl)).goes_on_here growing
      | error fault =>
          have none : ∀ node ∈ ([] : List Node), node.IsOrderly bound := by simp
          exact (conclude_conducts .failure none).goes_on growing le

/-! ## Operations -/

/-- A graph that admits a node grows by it, with its actions. -/
theorem grow_conducts {kind : NodeKind} {parents : List Nat} {name : String}
    {actions : List Action} (fits : ∀ action ∈ actions, action.Storable)
    (orderly : live.run.holdings.IsOrderly) :
    Ends (grow kind parents name actions) live
      (fun node after => Conducts live after ∧ node.IsOrderly after.run.graph.nextId)
      (fun _ => Conducts live) := by
  rw [grow_eq]
  refine .bind (.get ?_)
  cases grown : live.run.graph.append kind parents name with
  | error fault => exact .throw (.refl orderly)
  | ok made =>
      obtain ⟨graph, node⟩ := made
      obtain ⟨orderlyGraph, next, new⟩ := orderly.graph.append grown
      have given : ∀ action ∈ actionsOf kind actions live.machine.now, action.Storable :=
        actionsOf_storable fits
      obtain ⟨orderlyNow, same⟩ := orderlyGraph.attachAll node.id given
      have higher : live.run.graph.nextId ≤
          (RepairPlan.attachAll graph node.id (actionsOf kind actions live.machine.now)).nextId := by
        rw [same, next]
        exact Nat.le_succ _
      refine .bind (.update (.pure ⟨?_, orderlyNow.getD (same.symm ▸ new) node.id⟩))
      exact { Conducts.refl orderly with
        orderly := orderly.grown orderlyNow higher
        nextId_le := higher
        writes := ⟨[], by simp, rfl, by simp⟩ }

theorem growOrClose_conducts {kind : NodeKind} {parents : List Nat} {name : String}
    {actions : List Action} (fits : ∀ action ∈ actions, action.Storable)
    (orderly : live.run.holdings.IsOrderly) :
    Ends (growOrClose kind parents name actions) live
      (fun node after => Conducts live after ∧ node.IsOrderly after.run.graph.nextId)
      (fun _ => Conducts live) := by
  refine .bind (.attempt ((grow_conducts fits orderly).mono ?_ ?_))
  · exact fun _ _ grown => .pure grown
  · intro error refused conducted
    have closes : Conducting 0 (endAsFailed error.message) := endAsFailed_conducts _
    dsimp only
    split
    · refine .bind ((closes.goes_on conducted (Nat.zero_le _)).mono ?_ fun _ _ => id)
      exact fun _ _ closed => .throw closed
    · exact .throw conducted

theorem wrapUp_conducts (node : Node) (point : Bool) : Conducting bound (wrapUp node point) :=
  Conducting.catches.wrapUp reachSafePoint_conducts markClean_conducts node point

theorem append_conducts {draft : NodeDraft} (fits : draft.Storable) :
    Conducting bound (append draft) := by
  intro live orderly _
  refine .append (fun _ => .refl orderly) (fun _ => .refl orderly) fun _ _ => ?_
  refine (growOrClose_conducts fits orderly).mono ?_ fun _ _ => id
  rintro node grown ⟨conducted, new⟩
  have stores := Conducting.catches.storing node markDirty_conducts (storeStep_conducts new)
    (wrapUp_conducts node node.kind.closes.isSome)
  exact stores.goes_on_here conducted

theorem attach_conducts {action : Action} (id : Nat) (fits : action.Storable) :
    Conducting bound (attach id action) := by
  intro live orderly _
  refine .attach (fun _ => .refl orderly) (fun _ _ => .refl orderly) fun _ graph node attached => ?_
  obtain ⟨orderlyNow, same, new⟩ := orderly.graph.attach attached fits
  have growing : Conducts live { live with run := { live.run with graph } } :=
    { Conducts.refl orderly with
      orderly := orderly.grown orderlyNow (Nat.le_of_eq same.symm)
      nextId_le := Nat.le_of_eq same.symm
      writes := ⟨[], by simp, rfl, by simp⟩ }
  have stores := Conducting.catches.storing node markDirty_conducts (storeNode_conducts new)
    (.bind .current fun run => wrapUp_conducts node run.phase.holdsAppends)
  exact stores.goes_on_here growing

theorem takeCheckpoint_conducts (blob : Bytes) : Conducting bound (takeCheckpoint blob) := by
  have held : Conducting bound heldCheckpoint :=
    Conducting.catches.heldCheckpoint markDirty_conducts reachSafePoint_conducts
  have prompt : Conducting bound promptCheckpoint :=
    Conducting.catches.promptCheckpoint markDirty_conducts writeCheckpoint_conducts
      markClean_conducts
  intro live orderly le
  have holding : Conducts live
      { live with run := live.run.holding blob live.machine.now } := by
    refine { Conducts.refl orderly with orderly := { orderly with checkpoint := ?_ } }
    rintro checkpoint same small head inside
    obtain rfl := Option.some.inj same
    exact Nat.lt_of_lt_of_le (orderly.graph.heads_lt head inside) small
  exact .takeCheckpoint (fun _ => .refl orderly) (fun _ _ => held.goes_on holding le)
    (fun _ _ => prompt.goes_on holding le) fun _ => holding

theorem pausing_conducts : Conducting bound pausing := by
  refine .bind (.update fun _ => rfl) fun _ => .bind reachSafePoint_conducts.attempt fun outcome => ?_
  cases outcome with
  | ok => exact .update fun _ => rfl
  | error error =>
      exact .bind (.update fun _ => rfl) fun _ => .bind (Conducting.catches.noteFault error)
        fun _ => .throw error

theorem unpausing_conducts (flag : CleanFlag) : Conducting bound (unpausing flag) :=
  .bind (.update fun _ => rfl) fun _ =>
    .bind (Conducting.catches.noted (stampRecord_conducts flag)) fun _ => .update fun _ => rfl

theorem finish_conducts (outcome : Outcome) : Conducting bound (finish outcome) := by
  have fits : ∀ action ∈ outcome.actions, action.Storable := by
    cases outcome with
    | ok => simp [Outcome.actions]
    | error message => simp [Outcome.actions, Action.Storable]
  intro live orderly _
  refine .requireLive (fun _ => .refl orderly) fun _ => .bind (.current (.bind ?_))
  refine (growOrClose_conducts fits orderly).mono ?_ fun _ _ => id
  rintro node grown ⟨conducted, new⟩
  have concludes : Conducting grown.run.graph.nextId (conclude [node] outcome.result) :=
    conclude_conducts _ (by simpa using new)
  exact .bind ((concludes.goes_on_here conducted).mono (fun _ _ later => .pure later) fun _ _ => id)

theorem enterResuming_conducts : Conducting bound enterResuming := by
  refine .update fun run => ?_
  split <;> rfl

theorem leaveResuming_conducts : Conducting bound leaveResuming := by
  refine .update fun run => ?_
  split <;> rfl

end Run

/-- The actions that a deed brings along can be written. -/
def Deed.Storable : Deed → Prop
  | .command given => given.Storable
  | _ => True

/-- Every command keeps a run orderly and makes orderly changes only. -/
theorem Command.perform_conducts {command : Command} (fits : command.Storable) :
    Conducting bound command.perform := by
  have laws : Catches (Conducting bound) := Conducting.catches
  refine laws.perform ?_
  cases command with
  | append draft => exact laws.reply .node (append_conducts fits)
  | finish outcome => exact laws.reply .node (finish_conducts outcome)
  | attach id action => exact laws.reply .node (attach_conducts id fits)
  | checkpoint blob => exact laws.reply (fun _ => .done) (takeCheckpoint_conducts blob)
  | flush => exact laws.reply (fun _ => .done) (laws.flush reachSafePoint_conducts)
  | pause => exact laws.reply (fun _ => .done) (laws.pause pausing_conducts)
  | unpause => exact laws.reply (fun _ => .done) (laws.unpause unpausing_conducts)
  | shutdown => exact laws.reply (fun _ => .done) (laws.shutdown reachSafePoint_conducts)
  | look => exact laws.reply .seen .current

/-- Every deed keeps a run orderly and makes orderly changes only. -/
theorem Deed.carryOut_conducts {deed : Deed} (fits : deed.Storable) :
    Conducting bound deed.carryOut := by
  cases deed with
  | fail reason => exact Conducting.catches.fail (endAsFailed_conducts reason)
  | enterResuming => exact enterResuming_conducts
  | leaveResuming => exact leaveResuming_conducts
  | command given => exact .bind (Command.perform_conducts fits) fun _ => .pure ()

/-- What deeds leave of an orderly run is orderly, and so is all that they wrote. -/
theorem LiveRun.afterDeeds_conducts (orderly : live.run.holdings.IsOrderly)
    {deeds : List (Instant × Deed)} (fits : ∀ given ∈ deeds, given.2.Storable) :
    Conducts live (live.afterDeeds deeds) := by
  refine afterDeeds_of_kept (.refl orderly) fun given inside between conducted => ?_
  have conducts : Conducting 0 given.2.carryOut := Deed.carryOut_conducts (fits given inside)
  have timely : Conducts live (between.atTime given.1) :=
    conducted.trans (.of_same conducted.orderly rfl rfl rfl)
  exact conducts.goes_on timely (Nat.zero_le _)

end Conduct
end DurableRuns
