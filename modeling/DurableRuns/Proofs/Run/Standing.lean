/-
# DurableRuns.Proofs.Run.Standing -- where a run stands with its disk

A `Standing` is all of a run that bears on whether the record on disk can be trusted: the
graph, the store, the flag as last written, the disk.  A node *stands* if the disk has it in
its latest version, and is *kept* if the store would write it so.

Each part of which the operations are made, be its changes taken or refused, is `Quiet`: it
leaves the record on disk alone and loses no node that stood or was kept.  Only the steps that
write the record are not (`stampRecord_ends`), and they lose no node either.  A step that would
have written the record as dirty and was refused misses the mark (`Standing.MissesMark`).
-/
import DurableRuns.Proofs.Disk.Entries
import DurableRuns.Proofs.Disk.Places
import DurableRuns.Proofs.Flow.WellFormed
import DurableRuns.Proofs.Run.Refusals
import DurableRuns.Proofs.Run.Written

namespace DurableRuns

set_option autoImplicit false

open NodeStore (directoryName batchFileName nodeFile)
open Run RunM

/-- The disk of a run has a node as it is. -/
def Disk.HoldsNode (disk : Disk) (place : Place) (kind : StorageKind) (node : Node) : Prop :=
  match kind with
  | .immediate => disk.at? (nodeFile (place.join directoryName) node.id).path =
      some (.file node.toJson.pretty)
  | .batched => ∃ table : NodeTable, disk.at? (place.join batchFileName).path =
      some (.file (Json.array (table.nodes.map Node.toJson)).pretty) ∧
        table.get? node.id = some node

/-- A change writes the record of a run with a flag. -/
def Change.Stamps (place : Place) (flag : CleanFlag) (change : Change) : Prop :=
  ∃ (record : Record) (atomic : Bool),
    change = .write (RunFiles.recordFile place).path record.toJson.pretty atomic ∧
      record.clean = flag

/-- What of a run bears on whether the record on its disk can be trusted. -/
structure Standing where
  place : Place
  hint : Hint
  graph : Graph
  store : NodeStore
  diskFlag : CleanFlag
  /-- The heads in the record that the run has in memory. -/
  heads : List Nat
  version : Nat
  /-- A write has failed. -/
  failed : Bool
  disk : Disk
  /-- The changes that were asked for and not made. -/
  missed : List Change

/-- Where a run stands. -/
def LiveRun.standing (live : LiveRun) : Standing :=
  { place := live.run.place, hint := live.run.hint, graph := live.run.graph
    store := live.run.store, diskFlag := live.run.diskFlag, heads := live.run.record.heads
    version := live.run.record.version, failed := live.run.storageFault.isSome
    disk := live.machine.disk, missed := live.machine.missed }

namespace Standing

/-- A record is on disk. -/
def Shows (standing : Standing) (record : Record) : Prop :=
  standing.disk.at? (RunFiles.recordFile standing.place).path = some (.file record.toJson.pretty)

/-- A node is on disk as it is. -/
def Stands (standing : Standing) (node : Node) : Prop :=
  standing.disk.HoldsNode standing.place standing.hint.storageKind node

/-- A node is in the store as it is. -/
def Keeps (standing : Standing) (node : Node) : Prop :=
  match standing.store with
  | .immediate directory _ =>
      standing.disk.at? (nodeFile directory node.id).path = some (.file node.toJson.pretty)
  | .batched _ nodes _ _ => nodes.get? node.id = some node

/-- A node is in the graph. -/
def Has (standing : Standing) (node : Node) : Prop := standing.graph.get? node.id = some node

/-- The store is the one of the run. -/
def IsPlaced (standing : Standing) : Prop :=
  match standing.store with
  | .immediate directory _ =>
      standing.hint.storageKind = .immediate ∧ directory = standing.place.join directoryName
  | .batched file _ _ _ =>
      standing.hint.storageKind = .batched ∧ file = standing.place.join batchFileName

/-- If nothing waits in the store then the disk has what is in it. -/
def IsHonest (standing : Standing) : Prop :=
  match standing.store with
  | .immediate .. => True
  | .batched file nodes unflushed _ => unflushed = 0 →
      standing.disk.at? file.path = some (.file (Json.array (nodes.nodes.map Node.toJson)).pretty)

/-- The store has every node of the graph but some, unless it failed to write one. -/
def IsSynced (standing : Standing) (pending : List Nat) : Prop :=
  standing.failed = false ∨ standing.store.kind = .batched →
    ∀ node, standing.Has node → node.id ∉ pending → standing.Keeps node

/-- Every node of the graph stands, unless a write has failed. -/
def IsWritten (standing : Standing) : Prop :=
  standing.failed = false → ∀ node, standing.Has node → standing.Stands node

/-- From one standing to the other the record was to be marked as dirty, and the write was not
made. -/
def MissesMark (before after : Standing) : Prop :=
  ∃ missed, after.missed = before.missed ++ missed ∧
    ∃ change ∈ missed, change.Stamps before.place .dirty

end Standing

/-- A step lost no node of the graph. -/
structure Steady (before after : Standing) : Prop where
  place : after.place = before.place
  hint : after.hint = before.hint
  graph : after.graph = before.graph
  kind : after.store.kind = before.store.kind
  version : after.version = before.version
  failed : after.failed = false → before.failed = false
  missed : before.missed <+: after.missed
  keeps : ∀ node, before.Has node → before.Keeps node → after.Keeps node
  stands : ∀ node, before.Has node → before.Stands node → after.Stands node
  placed : before.IsPlaced → after.IsPlaced
  honest : before.IsHonest → after.IsHonest

/-- A step lost no node of the graph, and left the record on disk alone. -/
structure Quiet (before after : Standing) : Prop extends Steady before after where
  diskFlag : after.diskFlag = before.diskFlag
  heads : after.heads = before.heads
  shows : ∀ record, before.Shows record → after.Shows record

/-- A step lost no node of the graph, and wrote a record with a flag. -/
structure Recorded (before after : Standing) (flag : CleanFlag) (record : Record) : Prop extends
    Steady before after where
  diskFlag : after.diskFlag = flag
  heads : after.heads = before.heads
  shows : after.Shows record
  record_clean : record.clean = flag
  record_heads : record.heads = before.heads
  record_version : record.version = before.version

namespace Steady

variable {first between last : Standing}

theorem refl (standing : Standing) : Steady standing standing :=
  ⟨rfl, rfl, rfl, rfl, rfl, id, List.prefix_refl _, fun _ _ => id, fun _ _ => id, id, id⟩

theorem has_iff (steady : Steady first last) (node : Node) : last.Has node ↔ first.Has node := by
  rw [Standing.Has, Standing.Has, steady.graph]

theorem trans (early : Steady first between) (late : Steady between last) : Steady first last where
  place := late.place.trans early.place
  hint := late.hint.trans early.hint
  graph := late.graph.trans early.graph
  kind := late.kind.trans early.kind
  version := late.version.trans early.version
  failed := fun none => early.failed (late.failed none)
  missed := early.missed.trans late.missed
  keeps := fun node has kept =>
    late.keeps node ((early.has_iff node).2 has) (early.keeps node has kept)
  stands := fun node has stood =>
    late.stands node ((early.has_iff node).2 has) (early.stands node has stood)
  placed := fun placed => late.placed (early.placed placed)
  honest := fun honest => late.honest (early.honest honest)

/-- What the store had it has still. -/
theorem synced (steady : Steady first last) {pending : List Nat}
    (synced : first.IsSynced pending) : last.IsSynced pending := by
  intro able node has other
  have before := (steady.has_iff node).1 has
  refine steady.keeps node before (synced ?_ node before other)
  exact able.imp steady.failed fun batched => steady.kind.symm.trans batched

/-- A mark that was missed on the way was missed on the whole. -/
theorem missesMark_first (late : Steady between last) (missed : first.MissesMark between) :
    first.MissesMark last := by
  obtain ⟨earlier, same, change, inside, stamps⟩ := missed
  obtain ⟨later, rest⟩ := late.missed
  refine ⟨earlier ++ later, ?_, change, List.mem_append_left later inside, stamps⟩
  rw [← rest, same, List.append_assoc]

theorem missesMark_last (early : Steady first between) (missed : between.MissesMark last) :
    first.MissesMark last := by
  obtain ⟨later, rest, change, inside, stamps⟩ := missed
  obtain ⟨earlier, same⟩ := early.missed
  refine ⟨earlier ++ later, ?_, change, List.mem_append_right earlier inside, early.place ▸ stamps⟩
  rw [rest, ← same, List.append_assoc]

/-- What was written is written still. -/
theorem written (steady : Steady first last) (written : first.IsWritten) : last.IsWritten := by
  intro none node has
  have before := (steady.has_iff node).1 has
  exact steady.stands node before (written (steady.failed none) node before)

/-- A change of the disk that spares the nodes loses none. -/
theorem of_disk {standing : Standing} {disk : Disk} (placed : standing.IsPlaced)
    (batch : standing.disk.StaysAt disk (standing.place.join batchFileName).path)
    (nodes : ∀ node, standing.Has node →
      standing.disk.at? (nodeFile (standing.place.join directoryName) node.id).path =
          some (.file node.toJson.pretty) →
        disk.at? (nodeFile (standing.place.join directoryName) node.id).path =
          some (.file node.toJson.pretty)) :
    Steady standing { standing with disk } := by
  refine ⟨rfl, rfl, rfl, rfl, rfl, id, List.prefix_refl _, ?_, ?_, id, ?_⟩
  · intro node has kept
    unfold Standing.IsPlaced at placed
    unfold Standing.Keeps at kept ⊢
    cases store : standing.store with
    | immediate directory atomic =>
        simp only [store] at placed kept ⊢
        obtain ⟨-, rfl⟩ := placed
        exact nodes node has kept
    | batched file table unflushed fault =>
        simp only [store] at kept ⊢
        exact kept
  · intro node has stood
    unfold Standing.Stands Disk.HoldsNode at stood ⊢
    cases kind : standing.hint.storageKind with
    | immediate =>
        simp only [kind] at stood ⊢
        exact nodes node has stood
    | batched =>
        simp only [kind] at stood ⊢
        obtain ⟨table, written, stored⟩ := stood
        exact ⟨table, batch _ written, stored⟩
  · intro honest
    unfold Standing.IsPlaced at placed
    unfold Standing.IsHonest at honest ⊢
    cases store : standing.store with
    | immediate directory atomic => simp only []
    | batched file table unflushed fault =>
        simp only [store] at placed honest ⊢
        obtain ⟨-, rfl⟩ := placed
        exact fun none => batch _ (honest none)

end Steady

namespace Quiet

variable {first between last : Standing}

theorem refl (standing : Standing) : Quiet standing standing :=
  ⟨.refl standing, rfl, rfl, fun _ => id⟩

theorem trans (early : Quiet first between) (late : Quiet between last) : Quiet first last :=
  ⟨early.toSteady.trans late.toSteady, late.diskFlag.trans early.diskFlag, late.heads.trans early.heads,
    fun record shown => late.shows record (early.shows record shown)⟩

/-- A change that is not made leaves all as it was. -/
theorem missing (standing : Standing) (change : Change) :
    Quiet standing { standing with missed := standing.missed ++ [change] } :=
  ⟨⟨rfl, rfl, rfl, rfl, rfl, id, List.prefix_append _ _, fun _ _ => id, fun _ _ => id, id, id⟩,
    rfl, rfl, fun _ => id⟩

/-- A failure that is noted changes nothing else. -/
theorem faulted (live : LiveRun) (error : Error) :
    Quiet live.standing (Ends.faulted live error).standing := by
  refine ⟨⟨rfl, rfl, rfl, rfl, rfl, ?_, List.prefix_refl _, fun _ _ => id, fun _ _ => id, id, id⟩,
    rfl, rfl, fun _ => id⟩
  intro none
  cases fault : live.run.storageFault with
  | none => simp [LiveRun.standing, Ends.faulted, fault] at none
  | some first => simp [LiveRun.standing, Ends.faulted, fault] at none

end Quiet

/-! ## The files of a run are different files -/

namespace RunFiles

variable (place : Place) (id : Nat)

theorem recordFile_ne_nodeFile :
    (recordFile place).path ≠ (nodeFile (place.join directoryName) id).path := by
  rw [path_recordFile, NodeStore.path_nodeFile, NodeStore.path_nodeDirectory]
  simp

theorem recordFile_ne_batchFile :
    (recordFile place).path ≠ (place.join batchFileName).path := by
  rw [path_recordFile, NodeStore.path_batchFile]
  simp [batchFileName]

theorem recordFile_ne_checkpointFile :
    (recordFile place).path ≠ (checkpointFile place).path := by
  rw [path_recordFile, path_checkpointFile]
  simp

theorem nodeFile_ne_checkpointFile :
    (nodeFile (place.join directoryName) id).path ≠ (checkpointFile place).path := by
  rw [path_checkpointFile, NodeStore.path_nodeFile, NodeStore.path_nodeDirectory]
  simp

theorem nodeFile_ne_batchFile :
    (nodeFile (place.join directoryName) id).path ≠ (place.join batchFileName).path := by
  rw [NodeStore.path_batchFile, NodeStore.path_nodeFile, NodeStore.path_nodeDirectory]
  simp

theorem batchFile_ne_checkpointFile :
    (place.join batchFileName).path ≠ (checkpointFile place).path := by
  rw [path_checkpointFile, NodeStore.path_batchFile]
  simp [batchFileName]

theorem nodeFile_ne_nodeFile {other : Nat} (apart : other ≠ id) :
    (nodeFile (place.join directoryName) other).path ≠
      (nodeFile (place.join directoryName) id).path := by
  rw [NodeStore.path_nodeFile, NodeStore.path_nodeFile]
  simpa [NodeStore.fileName_inj] using apart

end RunFiles

/-! ## The parts of the operations -/

namespace Run

variable {live : LiveRun}

/-- A record is written with a flag, or this write is missed and nothing is changed. -/
theorem stampRecord_ends (live : LiveRun) (placed : live.standing.IsPlaced) (flag : CleanFlag) :
    Ends (stampRecord flag) live
      (fun _ after => ∃ record, Recorded live.standing after.standing flag record)
      (fun _ after => ∃ change, change.Stamps live.standing.place flag ∧
        after.standing = { live.standing with missed := live.standing.missed ++ [change] }) := by
  let record : Record := { live.run.record with clean := flag, updatedAt := live.machine.now }
  refine .bind (.get (.bind (.update (.bind (.current (.bind (.commit ?_ ?_)))))))
  · intro disk written
    refine .update ⟨record, ?_⟩
    have others : ∀ path, path ≠ (RunFiles.recordFile live.run.place).path →
        live.machine.disk.StaysAt disk path := fun path => Disk.staysAt_of_write written
    have steady : Steady live.standing { live.standing with disk } :=
      .of_disk placed (others _ (RunFiles.recordFile_ne_batchFile _).symm)
        fun node _ stood => others _ (RunFiles.recordFile_ne_nodeFile _ _).symm _ stood
    refine ⟨{ steady with }, rfl, rfl, ?_, rfl, rfl, rfl⟩
    exact (Disk.at?_write written _).trans (if_pos rfl)
  · exact fun fault => ⟨_, ⟨record, _, rfl, rfl⟩, rfl⟩

/-- The record is marked dirty once it is; otherwise the mark is missed and the failure noted. -/
theorem markDirty_ends (placed : live.standing.IsPlaced) :
    Ends markDirty live
      (fun _ after => live.standing.diskFlag = .dirty ∧ after = live ∨
        ∃ record, Recorded live.standing after.standing .dirty record)
      (fun _ after => Quiet live.standing after.standing ∧
        live.standing.MissesMark after.standing) := by
  refine .bind (.current ?_)
  by_cases already : live.run.diskFlag = .dirty
  · rw [if_pos already]
    exact .pure (.inl ⟨already, rfl⟩)
  · rw [if_neg already]
    refine .bind (.attempt ((stampRecord_ends live placed .dirty).mono ?_ ?_))
    · exact fun _ after recorded => .pure (.inr recorded)
    · rintro error after ⟨change, stamps, same⟩
      have noted := Quiet.faulted after error
      rw [same] at noted
      refine .bind (.noteFault (.throw ⟨(Quiet.missing live.standing change).trans noted, ?_⟩))
      exact noted.missesMark_first ⟨[change], rfl, change, List.mem_singleton_self change, stamps⟩

/-- The record is marked clean at the present heads unless a write has failed before. -/
theorem markClean_ends (placed : live.standing.IsPlaced) :
    Ends markClean live
      (fun _ after => ∃ record,
        Recorded { live.standing with heads := live.standing.graph.heads } after.standing
          (if live.standing.failed then .dirty else .clean) record)
      (fun _ after =>
        Quiet { live.standing with heads := live.standing.graph.heads } after.standing) := by
  refine .bind (.current (.bind (.update ((stampRecord_ends { live with run :=
    { live.run with record := { live.run.record with heads := live.run.graph.heads } } } placed
    _).mono (fun _ _ => id) ?_))))
  rintro _ after ⟨change, -, same⟩
  exact same ▸ Quiet.missing _ change

theorem staysAt_of_nodeFile {disk written : Disk} {place : Place} {node : Node}
    (ok : disk.write (nodeFile (place.join directoryName) node.id).path node.toJson.pretty =
      .ok written) {other : Node} (same : other.id = node.id → other = node)
    (stood : disk.at? (nodeFile (place.join directoryName) other.id).path =
      some (.file other.toJson.pretty)) :
    written.at? (nodeFile (place.join directoryName) other.id).path =
      some (.file other.toJson.pretty) := by
  by_cases one : other.id = node.id
  · obtain rfl := same one
    exact (Disk.at?_write ok _).trans (if_pos rfl)
  · exact Disk.staysAt_of_write ok (RunFiles.nodeFile_ne_nodeFile _ _ one) _ stood

/-- A node is saved in the store, or its write is missed. -/
theorem storeNode_ends {node : Node} (placed : live.standing.IsPlaced)
    (has : live.standing.Has node) :
    Ends (storeNode node) live
      (fun _ after => Quiet live.standing after.standing ∧ after.standing.Keeps node ∧
        after.standing.IsHonest)
      (fun _ after => Quiet live.standing after.standing ∧
        live.standing.store.kind = .immediate) := by
  have same : ∀ other, live.standing.Has other → other.id = node.id → other = node := by
    intro other there one
    rw [Standing.Has, one] at there
    exact Option.some.inj (there.symm.trans has)
  refine .storeNode (fun directory atomic store => ?writes)
    fun file nodes unflushed fault store => ?waits
  case writes =>
    have here := placed
    simp only [Standing.IsPlaced, LiveRun.standing, store] at here
    obtain ⟨-, rfl⟩ := here
    refine .commit ?_ fun fault =>
      ⟨.missing live.standing _, by simp [LiveRun.standing, store, NodeStore.kind]⟩
    intro disk written
    have others : ∀ path, path ≠ (nodeFile (live.run.place.join directoryName) node.id).path →
        live.machine.disk.StaysAt disk path := fun path => Disk.staysAt_of_write written
    have steady : Steady live.standing { live.standing with disk } :=
      .of_disk placed (others _ (RunFiles.nodeFile_ne_batchFile _ _).symm)
        fun other there stood => staysAt_of_nodeFile written (same other there) stood
    have stays := others _ (RunFiles.recordFile_ne_nodeFile _ node.id)
    have made : disk.at? (nodeFile (live.run.place.join directoryName) node.id).path =
        some (.file node.toJson.pretty) := (Disk.at?_write written _).trans (if_pos rfl)
    have quiet : Quiet live.standing { live.standing with disk } :=
      ⟨steady, rfl, rfl, fun _ shown => stays _ shown⟩
    simp only [LiveRun.standing, store, Machine.changed] at quiet ⊢
    exact ⟨quiet, made, trivial⟩
  case waits =>
    refine ⟨⟨⟨rfl, rfl, rfl, ?_, rfl, id, List.prefix_refl _, ?_, fun _ _ => id, ?_, ?_⟩, rfl, rfl,
      fun _ => id⟩, ?_, fun none => absurd none (Nat.succ_ne_zero _)⟩
    · simp only [LiveRun.standing, store, NodeStore.kind]
    · intro other there kept
      simp only [Standing.Keeps, LiveRun.standing, store] at kept ⊢
      rw [NodeTable.get?_insert]
      split
      next one => exact congrArg some (same other there one).symm
      next => exact kept
    · intro here
      simpa only [Standing.IsPlaced, LiveRun.standing, store] using here
    · exact fun _ none => absurd none (Nat.succ_ne_zero _)
    · simp [Standing.Keeps, LiveRun.standing, NodeTable.get?_insert]

/-- A node is saved with the start it closes, or the store failed to write one of them. -/
theorem storeStep_ends {node : Node} (placed : live.standing.IsPlaced)
    (has : live.standing.Has node)
    (opened : ∀ start, node.kind.closes = some start →
      live.standing.graph.contains start = true) :
    Ends (storeStep node) live
      (fun _ after => Quiet live.standing after.standing ∧
        ∀ other, live.standing.Has other → other.id ∈ node.touched → after.standing.Keeps other)
      (fun _ after => Quiet live.standing after.standing ∧
        live.standing.store.kind = .immediate) := by
  refine .bind ((storeNode_ends placed has).mono ?_ ?_)
  · rintro _ between ⟨quiet, kept, -⟩
    have one : ∀ other, live.standing.Has other → other.id = node.id →
        between.standing.Keeps other := by
      intro other there same
      rw [Standing.Has, same] at there
      obtain rfl := Option.some.inj (there.symm.trans has)
      exact kept
    cases closes : node.kind.closes with
    | none =>
        refine .pure ⟨quiet, fun other there touched => one other there ?_⟩
        simpa [Node.touched, closes] using touched
    | some id =>
        obtain ⟨start, stored⟩ := (Graph.contains_iff _ _).1 (opened id closes)
        have number : start.id = id := NodeTable.get?_id stored
        have here : between.run.graph.get? id = some start :=
          (congrArg (fun graph : Graph => graph.get? id) quiet.graph).trans stored
        refine .bind (.current ?_)
        simp only [here]
        have current : between.standing.Has start := by
          rw [Standing.Has, number]
          exact here
        refine (storeNode_ends (quiet.placed placed) current).mono ?_ ?_
        · rintro _ after ⟨later, keptStart, -⟩
          refine ⟨quiet.trans later, fun other there touched => ?_⟩
          have inside : other.id = node.id ∨ other.id = id := by
            simpa [Node.touched, closes] using touched
          rcases inside with same | same
          · exact later.keeps other ((quiet.has_iff other).2 there) (one other there same)
          · have twice : live.run.graph.get? other.id = some other := there
            rw [same] at twice
            obtain rfl := Option.some.inj (twice.symm.trans stored)
            exact keptStart
        · rintro _ after ⟨later, immediate⟩
          exact ⟨quiet.trans later, quiet.kind.symm.trans immediate⟩
  · exact fun _ after failed => failed

/-- What waits in the store is written, or its write is missed. -/
theorem flushStore_ends (placed : live.standing.IsPlaced)
    (kept : live.standing.store.kind = .batched →
      ∀ node, live.standing.Has node → live.standing.Keeps node) :
    Ends flushStore live
      (fun _ after => Quiet live.standing after.standing ∧
        after.standing.store.isFlushed = true)
      (fun _ after => Quiet live.standing after.standing) := by
  refine .flushStore (fun flushed => ⟨.refl _, flushed⟩) ?_
  intro file nodes unflushed fault store
  have here := placed
  simp only [Standing.IsPlaced, LiveRun.standing, store] at here
  obtain ⟨kind, rfl⟩ := here
  refine .commit (fun disk written => ⟨?_, rfl⟩) fun _ => .missing live.standing _
  have others : ∀ path, path ≠ (live.run.place.join batchFileName).path →
      live.machine.disk.StaysAt disk path := fun path => Disk.staysAt_of_write written
  have made : disk.at? (live.run.place.join batchFileName).path =
      some (.file (Json.array (nodes.nodes.map Node.toJson)).pretty) :=
    (Disk.at?_write written _).trans (if_pos rfl)
  have all : ∀ node, live.run.graph.get? node.id = some node →
      nodes.get? node.id = some node := by
    intro node has
    have stored := kept (by simp only [LiveRun.standing, store, NodeStore.kind]) node has
    simpa only [Standing.Keeps, LiveRun.standing, store] using stored
  refine ⟨⟨rfl, rfl, rfl, ?_, rfl, id, List.prefix_refl _, ?_, ?_, ?_, ?_⟩, rfl, rfl, ?_⟩
  · simp only [LiveRun.standing, store, NodeStore.kind]
  · exact fun node has _ => all node has
  · intro node has _
    simp only [Standing.Stands, Disk.HoldsNode, LiveRun.standing, kind]
    exact ⟨nodes, made, all node has⟩
  · exact fun _ => ⟨kind, rfl⟩
  · exact fun _ _ => made
  · exact fun _ shown => others _ (RunFiles.recordFile_ne_batchFile _) _ shown

/-- A relation between runs with which it is in keeping to write a file that is not the record, and
to put another store at the place of the run. -/
structure WritesBeside (related failed : LiveRun → LiveRun → Prop) : Prop where
  still : ∀ live, related live live
  writes : ∀ {live : LiveRun} {file : Place} {value : Json} {atomic : Bool},
    (live.standing.IsPlaced → (RunFiles.recordFile live.run.place).path ≠ file.path) →
    Ends (onMachine (Machine.writeJson file value atomic)) live
      (fun _ written => written.run = live.run ∧ related live written) fun _ => failed live
  stores : ∀ {live between : LiveRun} {store : NodeStore}, between.run = live.run →
    related live between →
    (live.standing.IsPlaced → Standing.IsPlaced { live.standing with store }) →
    related live { between with run := { between.run with store } }

namespace WritesBeside

variable {related failed : LiveRun → LiveRun → Prop} (beside : WritesBeside related failed)

include beside

theorem storeNode (node : Node) :
    Ends (storeNode node) live (fun _ => related live) fun _ => failed live := by
  refine .storeNode (fun directory atomic store => ?writes)
    fun file nodes unflushed fault store => ?waits
  case writes =>
    refine (beside.writes fun placed => ?_).mono ?_ fun _ _ => id
    · simp only [Standing.IsPlaced, LiveRun.standing, store] at placed
      obtain ⟨-, rfl⟩ := placed
      exact RunFiles.recordFile_ne_nodeFile _ _
    · rintro _ written ⟨same, step⟩
      refine beside.stores same step fun placed => ?_
      simpa only [Standing.IsPlaced, LiveRun.standing, store] using placed
  case waits =>
    refine beside.stores rfl (beside.still live) fun placed => ?_
    simpa only [Standing.IsPlaced, LiveRun.standing, store] using placed

theorem flushStore : Ends flushStore live (fun _ => related live) fun _ => failed live := by
  refine .flushStore (fun _ => beside.still live) fun file nodes unflushed fault store => ?_
  refine (beside.writes fun placed => ?_).mono ?_ fun _ _ => id
  · simp only [Standing.IsPlaced, LiveRun.standing, store] at placed
    obtain ⟨-, rfl⟩ := placed
    exact RunFiles.recordFile_ne_batchFile _
  · rintro _ written ⟨same, step⟩
    refine beside.stores same step fun placed => ?_
    simpa only [Standing.IsPlaced, LiveRun.standing, store] using placed

end WritesBeside

/-- A change of the file of the continuation is quiet. -/
theorem quiet_of_checkpointFile {standing : Standing} {disk : Disk} (placed : standing.IsPlaced)
    (others : ∀ path, path ≠ (RunFiles.checkpointFile standing.place).path →
      standing.disk.StaysAt disk path) : Quiet standing { standing with disk } := by
  have steady : Steady standing { standing with disk } :=
    .of_disk placed (others _ (RunFiles.batchFile_ne_checkpointFile _))
      fun node _ stood => others _ (RunFiles.nodeFile_ne_checkpointFile _ _) _ stood
  exact ⟨steady, rfl, rfl, fun _ shown =>
    others _ (RunFiles.recordFile_ne_checkpointFile _) _ shown⟩

theorem writeCheckpoint_ends (placed : live.standing.IsPlaced) :
    Ends writeCheckpoint live (fun _ after => Quiet live.standing after.standing)
      (fun _ after => Quiet live.standing after.standing) := by
  refine .bind (.current ?_)
  cases live.run.checkpoint with
  | none => exact .pure (.refl _)
  | some checkpoint =>
      refine .bind (.commit ?_ fun _ => .missing live.standing _)
      intro disk written
      exact .update (quiet_of_checkpointFile placed fun _ => Disk.staysAt_of_write written)

theorem removeCheckpoint_ends (placed : live.standing.IsPlaced) :
    Ends (onMachine (RunFiles.removeCheckpoint live.run.place)) live
      (fun _ after => Quiet live.standing after.standing)
      (fun _ after => Quiet live.standing after.standing) := by
  refine .onMachine_bind (.onMachine_get ?_)
  dsimp only
  split
  · exact .onMachine_pure (.refl _)
  · refine .commit ?_ fun _ => .missing live.standing _
    intro disk removed
    exact quiet_of_checkpointFile placed fun _ => Disk.staysAt_of_remove removed

end Run
end DurableRuns
