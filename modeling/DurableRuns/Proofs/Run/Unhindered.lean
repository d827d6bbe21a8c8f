/-
# DurableRuns.Proofs.Run.Unhindered -- a run whose writes are all taken

A run that was opened on what others left may lack nodes, its recorded heads among them.  As
long as the device refuses nothing, it all the same knows what its directory shows of its
nodes (`Unhindered`): no step that writes fails, and after each operation the store has every
node of the graph.

What this is for is the end: however damaged the run was when it was opened, and whatever was
done to it since, a run that has ended is on its disk as it is in memory (`Run.EndedOn`).
-/
import DurableRuns.Proofs.Run.Upkeep

namespace DurableRuns

set_option autoImplicit false

open NodeStore (directoryName batchFileName nodeFile)
open Run RunM

/-- The device refuses nothing, and a run that is `base` in memory knows the nodes that its
directory shows, but for some that changed in memory and have not reached the store. -/
structure Unhindered (base : Snapshot) (pending : List Nat) (live : LiveRun) (image : Image) :
    Prop where
  snapshot_eq : live.run.snapshot = base
  willing : ∀ refusal ∈ live.machine.refusals, refusal = false
  shows : Shows live.machine.disk live.run.place live.run.hint.storageKind image
  store : live.run.StoreKnows image
  kept : ∀ id, id ∉ pending → (live.run.kept image).get? id = base.graph.get? id
  unfailed : live.run.storageFault = none

/-- A run that has ended is on its disk as it is in memory. -/
structure Run.EndedOn (run : Run) (image : Image) : Prop where
  record : image.record = some run.record
  nodes : image.nodes = run.graph.table
  checkpoint : image.checkpoint = none
  heads : run.record.heads = run.graph.heads
  clean : run.record.clean = .clean
  status : run.record.status = .complete
  phase : run.phase = .complete run.record.result

/-- A run with a graph that can be used is unhindered between two operations, and on its disk once
it has ended. -/
def LiveRun.IsUnhindered (live : LiveRun) : Prop :=
  live.run.graph.IsUsable ∧ ∃ image, Unhindered live.run.snapshot [] live image ∧
    (live.run.phase.isComplete = true → live.run.EndedOn image)

/-- A change that the disk admits is made where nothing is refused. -/
theorem RunM.Ends.commit_of_willing {live : LiveRun} {change : Change}
    {toError : DiskFault → Error} {disk : Disk} {done : Unit → LiveRun → Prop}
    {failed : Error → LiveRun → Prop}
    (willing : ∀ refusal ∈ live.machine.refusals, refusal = false)
    (made : change.apply live.machine.disk = .ok disk)
    (holds : done () { live with machine := live.machine.changed change disk }) :
    Ends (onMachine (Machine.commit change toError)) live done failed := by
  rw [Ends, onMachine, Machine.commit_eq_ok willing made]
  exact holds

section Unhindered

variable {base : Snapshot} {pending later : List Nat} {live : LiveRun} {image : Image}

namespace Unhindered

/-- What a run is in memory may change by steps that do not touch its nodes. -/
theorem changed (unhindered : Unhindered base pending live image) (run : Run)
    (place : run.place = live.run.place) (hint : run.hint = live.run.hint)
    (store : run.store = live.run.store) (fault : run.storageFault = live.run.storageFault)
    (graph : run.graph = live.run.graph) :
    Unhindered run.snapshot pending { live with run } image := by
  have same : live.run.graph = base.graph := congrArg Snapshot.graph unhindered.snapshot_eq
  constructor
  case snapshot_eq => rfl
  case willing => exact unhindered.willing
  case shows =>
    rw [place, hint]
    exact unhindered.shows
  case store =>
    have knows := unhindered.store
    unfold StoreKnows at knows ⊢
    rw [store, place, hint]
    exact knows
  case kept =>
    intro id other
    have kept : run.kept image = live.run.kept image := kept_congr store rfl
    rw [kept, show run.snapshot.graph = base.graph from graph.trans same]
    exact unhindered.kept id other
  case unfailed => exact fault.trans unhindered.unfailed

/-- A graph has grown in memory by nodes that are pending. -/
theorem grown {graph : Graph} (unhindered : Unhindered base [] live image)
    (lacks : ∀ id, id ∉ pending → graph.get? id = live.run.graph.get? id) :
    Unhindered { base with graph } pending { live with run := { live.run with graph } } image where
  snapshot_eq :=
    congrArg (fun snapshot : Snapshot => { snapshot with graph }) unhindered.snapshot_eq
  willing := unhindered.willing
  shows := unhindered.shows
  store := unhindered.store
  kept := by
    intro id other
    have same : live.run.graph = base.graph := congrArg Snapshot.graph unhindered.snapshot_eq
    exact (unhindered.kept id (List.not_mem_nil)).trans (same ▸ (lacks id other).symm)
  unfailed := unhindered.unfailed

/-- The store was written, or what it wrote reached the disk. -/
theorem stored {machine : Machine} {store : NodeStore} {nodes : NodeTable}
    (unhindered : Unhindered base pending live image)
    (willing : ∀ refusal ∈ machine.refusals, refusal = false)
    (shows : Shows machine.disk live.run.place live.run.hint.storageKind { image with nodes })
    (knows : StoreKnows { live.run with store } { image with nodes })
    (kept : ∀ id, id ∉ later →
      (Run.kept { live.run with store } { image with nodes }).get? id = base.graph.get? id) :
    Unhindered base later { run := { live.run with store }, machine } { image with nodes } where
  snapshot_eq := unhindered.snapshot_eq
  willing := willing
  shows := shows
  store := knows
  kept := kept
  unfailed := unhindered.unfailed

/-- A run that goes on, in whatever phase, is unhindered between two operations. -/
theorem rephased (unhindered : Unhindered base [] live image) (usable : base.graph.IsUsable)
    {phase : Phase} (running : phase.isComplete = false) :
    LiveRun.IsUnhindered { live with run := { live.run with phase } } := by
  have same : live.run.graph = base.graph := congrArg Snapshot.graph unhindered.snapshot_eq
  refine ⟨same.symm ▸ usable, image, unhindered.changed _ rfl rfl rfl rfl rfl, fun ended => ?_⟩
  cases ended.symm.trans running

theorem isUnhindered (unhindered : Unhindered base [] live image) (usable : base.graph.IsUsable)
    (running : base.phase.isComplete = false) : live.IsUnhindered :=
  have phase : live.run.phase = base.phase := congrArg Snapshot.phase unhindered.snapshot_eq
  unhindered.rephased usable (phase ▸ running)

end Unhindered

namespace Run

/-! ## The record -/

/-- The record is written, and the directory shows it. -/
theorem stampRecord_unhindered (unhindered : Unhindered base pending live image)
    (flag : CleanFlag) :
    Ends (stampRecord flag) live
      (fun _ after => Unhindered base pending after (stampedImage live image flag) ∧
        after.run = { live.run with
          record := stamped live.run.record flag live.machine.now, diskFlag := flag })
      fun _ _ => False := by
  obtain ⟨written, ok, shows⟩ :=
    unhindered.shows.writeRecord (stamped live.run.record flag live.machine.now)
  refine .bind (.get (.bind (.update (.bind (.current (.bind
    (.commit_of_willing unhindered.willing ok (.update ⟨?_, rfl⟩))))))))
  exact { unhindered with shows, willing := Machine.willing_changed unhindered.willing }

theorem markDirty_unhindered (unhindered : Unhindered base pending live image) :
    Ends markDirty live (fun _ after => ∃ image', Unhindered base pending after image')
      fun _ _ => False := by
  refine .bind (.current ?_)
  split
  · exact .pure ⟨image, unhindered⟩
  · refine .bind (.attempt ((stampRecord_unhindered unhindered .dirty).mono ?_ fun _ _ => False.elim))
    exact fun _ _ ⟨stamped, _⟩ => .pure ⟨_, stamped⟩

/-- The record is written as clean, with the heads in memory. -/
theorem markClean_unhindered (unhindered : Unhindered base pending live image) :
    Ends markClean live
      (fun _ after =>
        Unhindered base pending after { image with record := some after.run.record } ∧
        after.run.record.clean = .clean ∧ after.run.record.heads = base.graph.heads)
      fun _ _ => False := by
  have graph : live.run.graph = base.graph := congrArg Snapshot.graph unhindered.snapshot_eq
  have headed : Unhindered base pending
      { live with run := { live.run with
          record := { live.run.record with heads := live.run.graph.heads } } } image := by
    have same := unhindered.changed { live.run with
      record := { live.run.record with heads := live.run.graph.heads } } rfl rfl rfl rfl rfl
    exact unhindered.snapshot_eq ▸ same
  have flag : (if live.run.storageFault.isSome then CleanFlag.dirty else .clean) = .clean := by
    rw [unhindered.unfailed]
    rfl
  refine .bind (.current (.bind (.update ?_)))
  rw [flag]
  refine (stampRecord_unhindered headed .clean).mono ?_ fun _ _ => id
  rintro _ after ⟨stamped, run⟩
  rw [run]
  exact ⟨stamped, rfl, congrArg Graph.heads graph⟩

/-! ## The nodes and the continuation -/

theorem writeCheckpoint_unhindered (unhindered : Unhindered base pending live image) :
    Ends writeCheckpoint live (fun _ after => ∃ image', Unhindered base pending after image')
      fun _ _ => False := by
  refine .bind (.current ?_)
  cases live.run.checkpoint with
  | none => exact .pure ⟨image, unhindered⟩
  | some checkpoint =>
      obtain ⟨written, ok, shows⟩ := unhindered.shows.writeCheckpoint checkpoint
      refine .bind (.commit_of_willing unhindered.willing ok
        (.update ⟨{ image with checkpoint := some checkpoint }, ?_⟩))
      exact { unhindered with shows, willing := Machine.willing_changed unhindered.willing }

/-- A node that was stored is pending no more. -/
theorem storeNode_unhindered {node : Node} (unhindered : Unhindered base pending live image)
    (stored : base.graph.get? node.id = some node)
    (covers : ∀ id ∈ pending, id = node.id ∨ id ∈ later) :
    Ends (storeNode node) live (fun _ after => ∃ image', Unhindered base later after image')
      fun _ _ => False := by
  have knows := unhindered.store
  have kept := unhindered.kept
  refine .storeNode (fun directory atomic store => ?writes)
    fun file nodes unflushed fault store => ?waits
  case writes =>
    simp only [StoreKnows, store] at knows
    simp only [Run.kept, store] at kept
    obtain ⟨kind, rfl⟩ := knows
    have shows := unhindered.shows
    rw [kind] at shows
    obtain ⟨written, ok, shown⟩ := shows.writeNode node
    rw [← kind] at shown
    refine .commit_of_willing unhindered.willing ok
      ⟨{ image with nodes := image.nodes.insert node }, ?_⟩
    exact unhindered.stored (Machine.willing_changed unhindered.willing) shown ⟨kind, rfl⟩
      (get?_insert_of_kept kept stored covers)
  case waits =>
    simp only [StoreKnows, store] at knows
    simp only [Run.kept, store] at kept
    obtain ⟨kind, place, -⟩ := knows
    exact ⟨image, unhindered.stored unhindered.willing unhindered.shows
      ⟨kind, place, fun none => absurd none (Nat.succ_ne_zero _)⟩
      (get?_insert_of_kept kept stored covers)⟩

theorem storeStep_unhindered {node : Node} (unhindered : Unhindered base pending live image)
    (stored : base.graph.get? node.id = some node)
    (opened : ∀ start, node.kind.closes = some start → base.graph.contains start = true)
    (covers : ∀ id ∈ pending, id ∈ node.touched ∨ id ∈ later) :
    Ends (storeStep node) live (fun _ after => ∃ image', Unhindered base later after image')
      fun _ _ => False := by
  have rest : ∀ id ∈ pending, id = node.id ∨ id ∈ node.kind.closes.toList ++ later := by
    intro id inside
    simpa [Node.touched, or_assoc] using covers id inside
  refine .bind ((storeNode_unhindered unhindered stored rest).mono ?_ fun _ _ => id)
  rintro _ between ⟨image₁, unhindered⟩
  cases closes : node.kind.closes with
  | none =>
      rw [closes] at unhindered
      exact .pure ⟨image₁, unhindered⟩
  | some start =>
      rw [closes] at unhindered
      obtain ⟨opener, there⟩ := (base.graph.contains_iff start).1 (opened start closes)
      have number : opener.id = start := NodeTable.get?_id there
      have same : between.run.graph = base.graph := congrArg Snapshot.graph unhindered.snapshot_eq
      refine .bind (.current ?_)
      rw [same, there]
      exact storeNode_unhindered unhindered (number.symm ▸ there) (by simp [number])

theorem storeSteps_unhindered {nodes : List Node} (unhindered : Unhindered base pending live image)
    (stored : ∀ node ∈ nodes, base.graph.get? node.id = some node)
    (opened : ∀ node ∈ nodes, ∀ start, node.kind.closes = some start →
      base.graph.contains start = true)
    (covers : ∀ id ∈ pending, id ∈ nodes.flatMap Node.touched) :
    Ends (nodes.forM storeStep) live (fun _ after => ∃ image', Unhindered base [] after image')
      fun _ _ => False := by
  induction nodes generalizing live image pending with
  | nil =>
      obtain rfl : pending = [] := List.eq_nil_iff_forall_not_mem.2 fun id inside => by
        simpa using covers id inside
      exact .pure ⟨image, unhindered⟩
  | cons node rest ih =>
      obtain ⟨first, others⟩ := List.forall_mem_cons.1 stored
      obtain ⟨opens, othersOpen⟩ := List.forall_mem_cons.1 opened
      have split : ∀ id ∈ pending, id ∈ node.touched ∨ id ∈ rest.flatMap Node.touched := by
        intro id inside
        simpa using covers id inside
      refine .bind ((storeStep_unhindered unhindered first opens split).mono ?_ fun _ _ => id)
      exact fun _ between ⟨_, later⟩ => ih later others othersOpen fun _ => id

/-- Once the store is flushed the directory shows the nodes that it has. -/
theorem flushStore_unhindered (unhindered : Unhindered base pending live image) :
    Ends flushStore live
      (fun _ after => ∃ image', Unhindered base pending after image' ∧
        image'.nodes = after.run.kept image') fun _ _ => False := by
  have knows := unhindered.store
  have kept := unhindered.kept
  refine .flushStore (fun flushed => ⟨image, unhindered, (kept_of_isFlushed knows flushed).symm⟩) ?_
  intro file nodes unflushed fault store
  simp only [StoreKnows, store] at knows
  simp only [Run.kept, store] at kept
  obtain ⟨kind, rfl, -⟩ := knows
  have shows := unhindered.shows
  rw [kind] at shows
  obtain ⟨written, ok, shown⟩ := shows.writeBatch nodes
  rw [← kind] at shown
  refine .commit_of_willing unhindered.willing ok ⟨{ image with nodes }, ?_, rfl⟩
  exact unhindered.stored (Machine.willing_changed unhindered.willing) shown
    ⟨kind, rfl, fun _ => rfl⟩ kept

/-- The continuation is removed, be there one or not. -/
theorem removeCheckpoint_unhindered (unhindered : Unhindered base pending live image) :
    Ends (do onMachine (RunFiles.removeCheckpoint (← current).place)) live
      (fun _ after => Unhindered base pending after { image with checkpoint := none } ∧
        after.run = live.run) fun _ _ => False := by
  refine .bind (.current (.onMachine_bind (.onMachine_get ?_)))
  have standing := unhindered.shows.checkpoint
  rw [← RunFiles.path_checkpointFile] at standing
  dsimp only
  split
  next absent =>
    have nothing : image.checkpoint = none := by
      rw [absent.1] at standing
      simpa using standing.symm
    refine .onMachine_pure ⟨?_, rfl⟩
    rw [← nothing]
    exact unhindered
  next present =>
    cases there : image.checkpoint with
    | none =>
        refine absurd ⟨by simpa [there] using standing, ?_⟩ present
        apply Disk.missing_eq_notFound
        rw [RunFiles.path_checkpointFile, List.dropLast_concat]
        exact unhindered.shows.reached.isFree
    | some checkpoint =>
        obtain ⟨without, ok, shows⟩ := unhindered.shows.removeCheckpoint there
        refine .commit_of_willing unhindered.willing ok ⟨?_, rfl⟩
        exact { unhindered with shows, willing := Machine.willing_changed unhindered.willing }

/-! ## Safe points and the end -/

theorem reachSafePoint_unhindered (unhindered : Unhindered base pending live image) :
    Ends reachSafePoint live (fun _ after => ∃ image', Unhindered base pending after image')
      fun _ _ => False := by
  have clean (between : LiveRun) (image : Image) (unhindered : Unhindered base pending between image) :
      Ends markClean between (fun _ after => ∃ image', Unhindered base pending after image')
        fun _ _ => False :=
    (markClean_unhindered unhindered).mono (fun _ _ ⟨cleaned, _⟩ => ⟨_, cleaned⟩) fun _ _ => id
  refine .bind ((flushStore_unhindered unhindered).mono ?_ fun _ _ => id)
  rintro _ flushed ⟨image₁, unhindered, -⟩
  refine .bind (.current ?_)
  split
  · refine .bind ((writeCheckpoint_unhindered unhindered).mono ?_ fun _ _ => id)
    exact fun _ written ⟨image₂, unhindered⟩ => clean written image₂ unhindered
  · exact clean flushed image₁ unhindered

theorem settle_unhindered (unhindered : Unhindered base pending live image) :
    Ends settle live (fun _ after => ∃ image', Unhindered base pending after image')
      fun _ _ => False := by
  refine .bind (.current ?_)
  split
  · exact .noted ((markClean_unhindered unhindered).mono (fun _ _ ⟨cleaned, _⟩ => ⟨_, cleaned⟩)
      fun _ _ => False.elim)
  · exact .pure ⟨image, unhindered⟩

theorem persistEnd_unhindered {nodes : List Node} (unhindered : Unhindered base pending live image)
    (stored : ∀ node ∈ nodes, base.graph.get? node.id = some node)
    (opened : ∀ node ∈ nodes, ∀ start, node.kind.closes = some start →
      base.graph.contains start = true)
    (covers : ∀ id ∈ pending, id ∈ nodes.flatMap Node.touched) (result : RunResult) :
    Ends (persistEnd nodes result) live
      (fun _ after => ∃ image',
        Unhindered (after.run.ended result).snapshot []
          { after with run := after.run.ended result } image' ∧
        (after.run.ended result).EndedOn image' ∧ after.run.graph = base.graph)
      fun _ _ => False := by
  refine .bind ((markDirty_unhindered unhindered).mono ?_ fun _ _ => id)
  rintro _ marked ⟨image₁, unhindered⟩
  refine .bind ((storeSteps_unhindered unhindered stored opened covers).mono ?_ fun _ _ => id)
  rintro _ written ⟨image₂, unhindered⟩
  refine .bind ((flushStore_unhindered unhindered).mono ?_ fun _ _ => id)
  rintro _ flushed ⟨image₃, unhindered, shown⟩
  have nodes : image₃.nodes = base.graph.table :=
    shown.trans (NodeTable.eq_of_get? fun id => unhindered.kept id (List.not_mem_nil))
  have graph : flushed.run.graph = base.graph := congrArg Snapshot.graph unhindered.snapshot_eq
  have told := unhindered.changed (flushed.run.endedOnRecord result) rfl rfl rfl rfl rfl
  refine .bind (.update (.bind ((markClean_unhindered told).mono ?_ fun _ _ => id)))
  rintro _ cleaned ⟨unhindered, clean, heads⟩
  refine (removeCheckpoint_unhindered unhindered).mono ?_ fun _ _ => id
  rintro _ after ⟨unhindered, run⟩
  have same := unhindered.snapshot_eq
  have status : after.run.record.status = .complete := congrArg Snapshot.status same
  have how : after.run.record.result = result := congrArg Snapshot.result same
  have graphNow : after.run.graph = base.graph := (congrArg Snapshot.graph same).trans graph
  -- The record was told of the end before it was written, so the end in memory adds nothing to it.
  have record : (after.run.ended result).record = after.run.record := by
    rw [ended, ← status, ← how]
  refine ⟨_, unhindered.changed (after.run.ended result) rfl rfl rfl rfl rfl, ?_, graphNow⟩
  constructor
  case record =>
    rw [record, run]
  case nodes => exact nodes.trans (congrArg Graph.table graphNow.symm)
  case checkpoint => rfl
  case heads =>
    have told : after.run.record.heads = flushed.run.graph.heads := run ▸ heads
    rw [record]
    exact told.trans (congrArg Graph.heads (graph.trans graphNow.symm))
  case clean => rw [record, run, clean]
  case status => rfl
  case phase => rfl

/-- A run that ends is on its disk. -/
theorem conclude_unhindered {nodes : List Node} (unhindered : Unhindered base pending live image)
    (usable : base.graph.IsUsable) (stored : ∀ node ∈ nodes, base.graph.get? node.id = some node)
    (opened : ∀ node ∈ nodes, ∀ start, node.kind.closes = some start →
      base.graph.contains start = true)
    (covers : ∀ id ∈ pending, id ∈ nodes.flatMap Node.touched) (result : RunResult) :
    Ends (conclude nodes result) live
      (fun _ after => after.IsUnhindered ∧ after.run.graph = base.graph ∧
        after.run.phase = .complete result) fun _ _ => False := by
  refine .bind (.noted ((persistEnd_unhindered unhindered stored opened covers result).mono ?_
    fun _ _ => False.elim))
  rintro _ after ⟨image', unhindered, onDisk, graph⟩
  have usableNow : after.run.graph.IsUsable := graph ▸ usable
  exact .bind (.update ⟨⟨usableNow, image', { unhindered with }, fun _ => onDisk⟩, graph, rfl⟩)

/-- A run is closed as failed: its graph is repaired, and it is on its disk. -/
theorem endAsFailed_unhindered (unhindered : Unhindered live.run.snapshot [] live image)
    (usable : live.run.graph.IsUsable) (reason : String) :
    Ends (endAsFailed reason) live
      (fun _ after => after.IsUnhindered ∧ after.run.graph = live.run.graph.repaired reason ∧
        after.run.phase = .complete .failure) fun _ _ => False := by
  have extended := usable.extendsBy_repaired reason
  refine .bind (.current ?_)
  rw [usable.apply_make]
  have grown := unhindered.grown fun id => extended.get?_of_not_mem_touched
  exact .bind (.update (conclude_unhindered grown (extended.isUsable usable)
    (extended.stored usable) extended.start_stored (fun _ => id) .failure))

/-! ## Growing -/

/-- After its nodes were stored, an operation ends at a safe point, or settles. -/
theorem wrapUp_unhindered (node : Node) (point : Bool)
    (unhindered : Unhindered base pending live image) :
    EndsIn (wrapUp node point) live fun after => ∃ image', Unhindered base pending after image' := by
  cases point with
  | true =>
      exact .bind (.noted ((reachSafePoint_unhindered unhindered).mono (fun _ _ met => .pure met)
        fun _ _ => False.elim))
  | false =>
      exact .bind ((settle_unhindered unhindered).mono (fun _ _ met => .pure met)
        fun _ _ => False.elim)

/-- A node that is in memory is marked and stored, and what is left to do is done. -/
theorem storing_unhindered {node : Node} {store : RunM Unit} {rest : RunM Node}
    (unhindered : Unhindered base pending live image)
    (running : base.phase.isComplete = false) (usable : base.graph.IsUsable)
    (stores : ∀ {marked image}, Unhindered base pending marked image →
      Ends store marked (fun _ after => ∃ image', Unhindered base [] after image') fun _ _ => False)
    (wraps : ∀ {stored image}, Unhindered base [] stored image →
      EndsIn rest stored fun after => ∃ image', Unhindered base [] after image') :
    EndsIn (storing node store rest) live LiveRun.IsUnhindered := by
  refine .bind (.attempt ((markDirty_unhindered unhindered).mono ?_ fun _ _ => False.elim))
  rintro _ marked ⟨_, unhindered⟩
  refine .bind (.attempt ((stores unhindered).mono ?_ fun _ _ => False.elim))
  rintro _ stored ⟨_, unhindered⟩
  exact (wraps unhindered).mono (fun _ _ ⟨_, met⟩ => met.isUnhindered usable running)
    fun _ _ ⟨_, met⟩ => met.isUnhindered usable running

theorem append_unhindered (unhindered : live.IsUnhindered) (draft : NodeDraft) :
    EndsIn (append draft) live LiveRun.IsUnhindered := by
  refine .append (fun _ => unhindered) (fun _ => unhindered) fun running _ => ?_
  obtain ⟨usable, image, unhindered, -⟩ := unhindered
  refine (growOrClose_ends usable fun reason => ?_).mono ?_ fun _ _ => id
  · exact (endAsFailed_unhindered unhindered usable reason).mono (fun _ _ closed => closed.1)
      fun _ _ => False.elim
  · rintro node _ ⟨graph, rfl, extended, -⟩
    refine storing_unhindered (unhindered.grown fun _ => extended.get?_of_not_mem_touched)
      running (extended.isUsable usable) ?_ ?_
    · exact fun unhindered => storeStep_unhindered unhindered extended.stored
        (fun _ => extended.start_stored) fun _ => .inl
    · exact fun unhindered => wrapUp_unhindered node _ unhindered

theorem attach_unhindered (unhindered : live.IsUnhindered) (id : Nat) (action : Action) :
    EndsIn (attach id action) live LiveRun.IsUnhindered := by
  refine .attach (fun _ => unhindered) (fun _ _ => unhindered) fun running graph node attached => ?_
  obtain ⟨usable, image, unhindered, -⟩ := unhindered
  have extended := Graph.attach_attached attached
  obtain ⟨old, stored, -⟩ := Graph.attach_eq_ok.1 attached
  obtain rfl : node.id = id := NodeTable.get?_id extended.stored
  have lacks : ∀ other, other ∉ [node.id] → graph.get? other = live.run.graph.get? other :=
    fun other apart => extended.others other (by simpa using apart)
  refine storing_unhindered (unhindered.grown lacks) running
    (extended.isUsable (Graph.contains_of_get? stored) usable) ?_ ?_
  · exact fun unhindered => storeNode_unhindered unhindered extended.stored (by simp)
  · exact fun unhindered => .bind (.current (wrapUp_unhindered node _ unhindered))

/-- While a run is paused its continuation is written at a safe point. -/
theorem heldCheckpoint_unhindered (unhindered : Unhindered base pending live image) :
    EndsIn heldCheckpoint live fun after => ∃ image', Unhindered base pending after image' := by
  refine .bind (.attempt ((markDirty_unhindered unhindered).mono ?_ fun _ _ => False.elim))
  rintro _ marked ⟨_, unhindered⟩
  exact .notedAndThrown ((reachSafePoint_unhindered unhindered).mono (fun _ _ => id)
    fun _ _ => False.elim)

/-- A run that writes every step writes its continuation at once. -/
theorem promptCheckpoint_unhindered (unhindered : Unhindered base pending live image) :
    EndsIn promptCheckpoint live fun after => ∃ image', Unhindered base pending after image' := by
  refine .bind (.attempt ((markDirty_unhindered unhindered).mono ?_ fun _ _ => False.elim))
  rintro _ marked ⟨_, unhindered⟩
  refine .bind (.notedAndThrown ((writeCheckpoint_unhindered unhindered).mono ?_
    fun _ _ => False.elim))
  rintro _ written ⟨image₂, unhindered⟩
  refine .bind (.current ?_)
  split
  · exact (markClean_unhindered unhindered).mono (fun _ _ ⟨met, _⟩ => ⟨_, met⟩)
      fun _ _ => False.elim
  · exact .pure ⟨image₂, unhindered⟩

theorem takeCheckpoint_unhindered (unhindered : live.IsUnhindered) (blob : Bytes) :
    EndsIn (takeCheckpoint blob) live LiveRun.IsUnhindered := by
  have ⟨usable, image, met, _⟩ := unhindered
  have holding := met.changed (live.run.holding blob live.machine.now) rfl rfl rfl rfl rfl
  have stays (running : live.run.phase.isComplete = false) {step : RunM Unit}
      (ends : EndsIn step { live with run := live.run.holding blob live.machine.now } fun after =>
        ∃ image', Unhindered (live.run.holding blob live.machine.now).snapshot [] after image') :
      EndsIn step { live with run := live.run.holding blob live.machine.now }
        LiveRun.IsUnhindered :=
    ends.mono (fun _ _ ⟨_, met⟩ => met.isUnhindered usable running)
      fun _ _ ⟨_, met⟩ => met.isUnhindered usable running
  exact .takeCheckpoint (fun _ => unhindered)
    (fun running _ => stays running (heldCheckpoint_unhindered holding))
    (fun running _ => stays running (promptCheckpoint_unhindered holding))
    fun running => holding.isUnhindered usable running

/-! ## Safe points, pauses and the end -/

/-- A safe point is reached, and the run goes on. -/
theorem safePoint_unhindered (usable : live.run.graph.IsUsable)
    (unhindered : Unhindered live.run.snapshot [] live image)
    (running : live.run.phase.isComplete = false) :
    EndsIn reachSafePoint live LiveRun.IsUnhindered :=
  (reachSafePoint_unhindered unhindered).mono
    (fun _ _ ⟨_, met⟩ => met.isUnhindered usable running) fun _ _ => False.elim

theorem flush_unhindered (unhindered : live.IsUnhindered) :
    EndsIn flush live LiveRun.IsUnhindered := by
  refine .flush (fun _ => unhindered) (fun _ => unhindered) fun running => ?_
  obtain ⟨usable, image, unhindered, -⟩ := unhindered
  exact safePoint_unhindered usable unhindered running

theorem shutdown_unhindered (unhindered : live.IsUnhindered) :
    EndsIn shutdown live LiveRun.IsUnhindered := by
  refine .shutdown (fun _ => unhindered) fun running => ?_
  obtain ⟨usable, image, unhindered, -⟩ := unhindered
  exact safePoint_unhindered usable unhindered running

theorem pausing_unhindered (usable : live.run.graph.IsUsable)
    (unhindered : Unhindered live.run.snapshot [] live image) :
    EndsIn pausing live LiveRun.IsUnhindered := by
  have told := unhindered.changed { live.run with
    phase := .pausing, record := { live.run.record with status := .paused } } rfl rfl rfl rfl rfl
  refine .bind (.update (.bind (.attempt ((reachSafePoint_unhindered told).mono ?_
    fun _ _ => False.elim))))
  exact fun _ _ ⟨_, met⟩ => .update (met.rephased usable rfl)

theorem pause_unhindered (unhindered : live.IsUnhindered) :
    EndsIn pause live LiveRun.IsUnhindered := by
  refine .pause (fun _ => unhindered) (fun _ => unhindered) fun _ _ => ?_
  obtain ⟨usable, image, unhindered, -⟩ := unhindered
  exact pausing_unhindered usable unhindered

theorem unpausing_unhindered (usable : live.run.graph.IsUsable)
    (unhindered : Unhindered live.run.snapshot [] live image) (flag : CleanFlag) :
    EndsIn (unpausing flag) live LiveRun.IsUnhindered := by
  have told := unhindered.changed { live.run with
    record := { live.run.record with status := .running } } rfl rfl rfl rfl rfl
  refine .bind (.update (.bind (.noted ((stampRecord_unhindered told flag).mono ?_
    fun _ _ => False.elim))))
  exact fun _ _ ⟨met, _⟩ => .update (met.rephased usable rfl)

theorem unpause_unhindered (unhindered : live.IsUnhindered) :
    EndsIn unpause live LiveRun.IsUnhindered := by
  refine .unpause (fun _ => unhindered) (fun _ => unhindered) fun _ _ => ?_
  obtain ⟨usable, image, unhindered, -⟩ := unhindered
  exact unpausing_unhindered usable unhindered live.run.diskFlag

theorem finish_unhindered (unhindered : live.IsUnhindered) (outcome : Outcome) :
    EndsIn (finish outcome) live LiveRun.IsUnhindered := by
  refine .requireLive (fun _ => unhindered) fun _ => .bind (.current ?_)
  obtain ⟨usable, image, unhindered, -⟩ := unhindered
  refine .bind ((growOrClose_ends usable fun reason => ?_).mono ?_ fun _ _ => id)
  · exact (endAsFailed_unhindered unhindered usable reason).mono (fun _ _ closed => closed.1)
      fun _ _ => False.elim
  · rintro node _ ⟨graph, rfl, extended, -⟩
    have grown := unhindered.grown fun _ => extended.get?_of_not_mem_touched
    have stored : ∀ other ∈ [node], graph.get? other.id = some other := by
      simpa using extended.stored
    have opened : ∀ other ∈ [node], ∀ start, other.kind.closes = some start →
        graph.contains start = true := by
      simpa using fun start => extended.start_stored
    exact .bind ((conclude_unhindered grown (extended.isUsable usable) stored opened (by simp)
      outcome.result).mono (fun _ _ closed => .pure closed.1) fun _ _ => False.elim)

/-- A run that has ended stays as it is; any other is closed, with its graph repaired. -/
theorem fail_unhindered (unhindered : live.IsUnhindered) (reason : String) :
    Ends (fail reason) live
      (fun _ after => after.IsUnhindered ∧ after.run.phase.isComplete = true ∧
        if live.run.phase.isComplete then after = live
        else after.run.phase = .complete .failure ∧
          after.run.graph = live.run.graph.repaired reason)
      fun _ _ => False := by
  refine .bind (.current ?_)
  cases complete : live.run.phase.isComplete with
  | true => exact .pure ⟨unhindered, complete, rfl⟩
  | false =>
      obtain ⟨usable, image, unhindered, -⟩ := unhindered
      refine (endAsFailed_unhindered unhindered usable reason).mono ?_ fun _ _ => id
      exact fun _ _ ⟨met, graph, phase⟩ => ⟨met, by rw [phase]; rfl, phase, graph⟩

theorem enterResuming_unhindered (unhindered : live.IsUnhindered) :
    EndsIn enterResuming live LiveRun.IsUnhindered := by
  refine .enterResuming (fun _ => ?_) unhindered
  obtain ⟨usable, image, unhindered, -⟩ := unhindered
  exact unhindered.rephased usable rfl

theorem leaveResuming_unhindered (unhindered : live.IsUnhindered) :
    EndsIn leaveResuming live LiveRun.IsUnhindered := by
  refine .leaveResuming (fun _ => ?_) unhindered
  obtain ⟨usable, image, unhindered, -⟩ := unhindered
  exact unhindered.rephased usable rfl

end Run

/-- Every command leaves a run unhindered, whatever it comes to. -/
theorem Command.perform_unhindered (unhindered : live.IsUnhindered) (command : Command) :
    EndsIn command.perform live LiveRun.IsUnhindered := by
  refine .bind (.current ?_)
  split
  · exact .pure unhindered
  · cases command with
    | append draft => exact reply_ends (append_unhindered unhindered draft)
    | finish outcome => exact reply_ends (finish_unhindered unhindered outcome)
    | attach id action => exact reply_ends (attach_unhindered unhindered id action)
    | checkpoint blob => exact reply_ends (takeCheckpoint_unhindered unhindered blob)
    | flush => exact reply_ends (flush_unhindered unhindered)
    | pause => exact reply_ends (pause_unhindered unhindered)
    | unpause => exact reply_ends (unpause_unhindered unhindered)
    | shutdown => exact reply_ends (shutdown_unhindered unhindered)
    | look => exact reply_ends (.current unhindered)

/-- So does every deed. -/
theorem Deed.carryOut_unhindered (unhindered : live.IsUnhindered) (deed : Deed) :
    EndsIn deed.carryOut live LiveRun.IsUnhindered := by
  cases deed with
  | fail reason => exact (fail_unhindered unhindered reason).mono (fun _ _ met => met.1) fun _ _ => False.elim
  | enterResuming => exact enterResuming_unhindered unhindered
  | leaveResuming => exact leaveResuming_unhindered unhindered
  | command given =>
      exact .bind ((given.perform_unhindered unhindered).mono (fun _ _ met => .pure met) fun _ _ => id)

end Unhindered
end DurableRuns
