/-
# DurableRuns.Proofs.Run.Mirror -- what a run says of its disk is so

A run may have been opened on what others left, and any of its writes may be refused.  Until a
write that failed is noted, the run still knows its disk (`Mirrors`): its store has every node
of the graph, the continuation that counts as persisted is there, and a record that was last
written as clean is the one in memory, with heads from which the graph in memory is regained.

In the midst of an operation some of this is suspended.  `pending` lists the nodes that changed
in memory and may not have reached the store; `told` is false from a change of what the record
is to tell until the record is written.  Failures that are only returned leave a run in this
state as they find it; all others are noted, and nothing is claimed from then on.
-/
import DurableRuns.Proofs.Run.Conduct

namespace DurableRuns

set_option autoImplicit false

open NodeStore (directoryName batchFileName nodeFile)
open Run RunM

/-- The record on a disk is that of a run, but for its heads and the time it was written.  Whether
with its heads or with those in memory, the graph of the run is regained from its nodes. -/
structure Run.IsRecorded (run : Run) (image : Image) : Prop where
  record : ∃ heads updatedAt,
    image.record = some { run.record with heads, clean := .clean, updatedAt } ∧
      Graph.regain run.graph.table heads = run.graph
  heads : Graph.regain run.graph.table run.record.heads = run.graph

/-- A run with a graph knows what its directory shows of it, but for some nodes and, unless that
is told, for what its record tells. -/
structure Mirrors (graph : Graph) (told : Prop) (pending : List Nat) (run : Run) (disk : Disk)
    (image : Image) : Prop where
  graph_eq : run.graph = graph
  shows : Shows disk run.place run.hint.storageKind image
  store : run.StoreKnows image
  kept : ∀ id, id ∉ pending → (run.kept image).get? id = graph.get? id
  persisted : run.checkpointPersisted = true → image.checkpoint = run.checkpoint
  recorded : told → run.diskFlag = .clean → run.IsRecorded image

/-- Unless a write has failed and was noted, a run knows what its directory shows of it. -/
def Mirrored (graph : Graph) (told : Prop) (pending : List Nat) (live : LiveRun) : Prop :=
  live.run.storageFault = none →
    ∃ image, Mirrors graph told pending live.run live.machine.disk image

/-- Unless a write has failed and was noted, the directory of a run mirrors the run between two
operations. -/
def LiveRun.IsMirrored (live : LiveRun) : Prop :=
  live.run.storageFault = none → live.run.graph.IsGrown ∧
    ∃ image, Mirrors live.run.graph True [] live.run live.machine.disk image

/-- A failure is remembered once it is noted. -/
theorem RunM.Ends.storageFault_faulted (live : LiveRun) (error : Error) :
    (Ends.faulted live error).run.storageFault ≠ none := by
  intro none
  cases fault : live.run.storageFault with
  | none => simp [Ends.faulted, fault] at none
  | some first => simp [Ends.faulted, fault] at none

section Mirror

variable {graph : Graph} {told : Prop} {pending later : List Nat} {live : LiveRun} {image : Image}

namespace Mirrors

theorem mirrored (mirrors : Mirrors graph told pending live.run live.machine.disk image) :
    Mirrored graph told pending live := fun _ => ⟨image, mirrors⟩

/-- A graph has grown in memory by nodes that are pending. -/
theorem grown {after : Graph} (mirrors : Mirrors graph True [] live.run live.machine.disk image)
    (lacks : ∀ id, id ∉ pending → after.get? id = graph.get? id) :
    Mirrors after False pending { live.run with graph := after } live.machine.disk image where
  graph_eq := rfl
  shows := mirrors.shows
  store := mirrors.store
  kept := fun id other => (mirrors.kept id (List.not_mem_nil)).trans (lacks id other).symm
  persisted := mirrors.persisted
  recorded := False.elim

end Mirrors

namespace Mirrored

/-- Once a failure is noted nothing is claimed. -/
theorem faulted (live : LiveRun) (error : Error) :
    Mirrored graph told pending (Ends.faulted live error) :=
  fun none => absurd none (Ends.storageFault_faulted live error)

/-- Whatever heeds a failure that was noted may go on from it. -/
theorem of_fault {α : Type} {step : RunM α} (tells : TellsAll False Excused step)
    (fault : live.run.storageFault.isSome = true) :
    EndsIn step live (Mirrored graph told pending) := by
  -- From a noted failure on nothing is claimed, so all that counts is that it stays noted.
  have claims {after : LiveRun} (heeds : Heeds False live after) :
      Mirrored graph told pending after := by
    intro none
    have still := heeds.fault fault
    simp [none] at still
  exact (tells live).mono (fun _ _ noted => claims noted.toHeeds) fun _ _ noted =>
    claims noted.toHeeds

/-- Between two operations nothing is pending, and the record tells what it is to tell. -/
theorem isMirrored (mirrored : Mirrored graph True [] live) (grown : graph.IsGrown) :
    live.IsMirrored := by
  intro none
  obtain ⟨image, mirrors⟩ := mirrored none
  obtain rfl := mirrors.graph_eq
  exact ⟨grown, image, mirrors⟩

/-- The phase does not bear on it. -/
theorem rephased (mirrored : Mirrored graph told pending live) (phase : Phase) :
    Mirrored graph told pending { live with run := { live.run with phase } } := by
  intro none
  obtain ⟨image, mirrors⟩ := mirrored none
  exact ⟨image, { mirrors with recorded := fun tells clean => { mirrors.recorded tells clean with } }⟩

/-- The record in memory is to tell something else. -/
theorem retold (mirrored : Mirrored graph told pending live) (status : RecordStatus)
    (result : RunResult) (phase : Phase) : Mirrored graph False pending
      { live with run :=
        { live.run with phase, record := { live.run.record with status, result } } } := by
  intro none
  obtain ⟨image, mirrors⟩ := mirrored none
  exact ⟨image, { mirrors with recorded := False.elim }⟩

end Mirrored

namespace Run

/-! ## The record -/

/-- A record that was written is that of the run.  One that was not leaves the old one. -/
theorem stampRecord_mirrored {flag : CleanFlag} (mirrored : Mirrored graph told pending live)
    (regains : flag = .clean → live.run.storageFault = none →
      Graph.regain graph.table live.run.record.heads = graph) :
    Ends (stampRecord flag) live (fun _ => Mirrored graph True pending)
      fun _ => Mirrored graph told pending := by
  refine .bind (.get (.bind (.update (.bind (.current (.bind (.commit ?_ ?_)))))))
  · intro disk made
    refine .update fun none => ?_
    obtain ⟨image, mirrors⟩ := mirrored none
    obtain rfl := mirrors.graph_eq
    obtain ⟨written, ok, shows⟩ := mirrors.shows.writeRecord
      { live.run.record with clean := flag, updatedAt := live.machine.now }
    obtain rfl := Except.ok.inj (ok.symm.trans made)
    refine ⟨_, { mirrors with shows := shows, recorded := fun _ clean => ?_ }⟩
    obtain rfl : flag = .clean := clean
    exact ⟨⟨_, _, rfl, regains rfl none⟩, regains rfl none⟩
  · intro fault none
    obtain ⟨image, mirrors⟩ := mirrored none
    exact ⟨image,
      { mirrors with recorded := fun tells clean => { mirrors.recorded tells clean with } }⟩

/-- Once the record is dirty, or a failure is noted, it tells nothing that is not so. -/
theorem markDirty_mirrored (mirrored : Mirrored graph told pending live) :
    EndsIn markDirty live (Mirrored graph True pending) := by
  refine .bind (.current ?_)
  split
  -- A dirty record makes no claim, so there is nothing to write anew.
  next dirty =>
    refine .pure fun none => ?_
    obtain ⟨image, mirrors⟩ := mirrored none
    exact ⟨image, { mirrors with recorded := fun _ clean => by cases dirty.symm.trans clean }⟩
  next =>
    have stamps : Ends (stampRecord .dirty) live (fun _ => Mirrored graph True pending)
        fun _ => Mirrored graph told pending :=
      stampRecord_mirrored mirrored fun clean => by cases clean
    refine .bind (.attempt (stamps.mono ?_ ?_))
    · exact fun _ _ stamped => .pure stamped
    · exact fun error failed _ => .bind (.noteFault (.throw (.faulted failed error)))

theorem markClean_mirrored (mirrored : Mirrored graph told pending live) (grown : graph.IsGrown) :
    Ends markClean live (fun _ => Mirrored graph True pending)
      fun _ => Mirrored graph told pending := by
  refine .bind (.current (.bind (.update (stampRecord_mirrored ?_ ?_))))
  · intro none
    obtain ⟨image, mirrors⟩ := mirrored none
    obtain rfl := mirrors.graph_eq
    refine ⟨image, { mirrors with recorded := fun tells clean => ?_ }⟩
    exact ⟨(mirrors.recorded tells clean).record, grown.regain_eq⟩
  · intro _ none
    obtain ⟨image, mirrors⟩ := mirrored none
    obtain rfl := mirrors.graph_eq
    exact grown.regain_eq

/-! ## The nodes and the continuation -/

theorem writeCheckpoint_mirrored (mirrored : Mirrored graph told pending live) :
    EndsIn writeCheckpoint live (Mirrored graph told pending) := by
  refine .bind (.current ?_)
  cases held : live.run.checkpoint with
  | none => exact .pure mirrored
  | some checkpoint =>
      refine .bind (.commit ?_ fun _ => mirrored)
      intro disk made
      refine .update fun none => ?_
      obtain ⟨image, mirrors⟩ := mirrored none
      obtain ⟨written, ok, shows⟩ := mirrors.shows.writeCheckpoint checkpoint
      obtain rfl := Except.ok.inj (ok.symm.trans made)
      refine ⟨_, { mirrors with
        shows := shows
        persisted := fun _ => held.symm
        recorded := fun tells clean => { mirrors.recorded tells clean with } }⟩

/-- A table that lacks nothing of a graph but what is pending lacks less with a node of it. -/
theorem get?_insert_of_kept {old : NodeTable} {node : Node}
    (kept : ∀ id, id ∉ pending → old.get? id = graph.get? id)
    (stored : graph.get? node.id = some node)
    (covers : ∀ id ∈ pending, id = node.id ∨ id ∈ later) (id : Nat) (other : id ∉ later) :
    (old.insert node).get? id = graph.get? id := by
  rw [NodeTable.get?_insert]
  split
  next same => exact same ▸ stored.symm
  next apart => exact kept id fun inside => (covers id inside).elim apart other

/-- A node that was stored is pending no more. -/
theorem storeNode_mirrored {node : Node} (mirrored : Mirrored graph told pending live)
    (stored : graph.get? node.id = some node)
    (covers : ∀ id ∈ pending, id = node.id ∨ id ∈ later) :
    Ends (storeNode node) live (fun _ => Mirrored graph told later) fun _ _ => True := by
  refine .storeNode (fun directory atomic store => ?writes)
    fun file nodes unflushed fault store => ?waits
  case writes =>
    refine .commit (fun disk made none => ?_) fun _ => trivial
    obtain ⟨image, mirrors⟩ := mirrored none
    have knows := mirrors.store
    have kept := mirrors.kept
    simp only [StoreKnows, store] at knows
    simp only [Run.kept, store] at kept
    obtain ⟨kind, rfl⟩ := knows
    have shows := mirrors.shows
    rw [kind] at shows
    obtain ⟨written, ok, shown⟩ := shows.writeNode node
    obtain rfl := Except.ok.inj (ok.symm.trans made)
    exact ⟨{ image with nodes := image.nodes.insert node }, { mirrors with
      shows := kind.symm ▸ shown
      store := ⟨kind, rfl⟩
      kept := get?_insert_of_kept kept stored covers
      recorded := fun tells clean => { mirrors.recorded tells clean with } }⟩
  case waits =>
    intro none
    obtain ⟨image, mirrors⟩ := mirrored none
    have knows := mirrors.store
    have kept := mirrors.kept
    simp only [StoreKnows, store] at knows
    simp only [Run.kept, store] at kept
    obtain ⟨kind, place, -⟩ := knows
    exact ⟨image, { mirrors with
      store := ⟨kind, place, fun none => absurd none (Nat.succ_ne_zero _)⟩
      kept := get?_insert_of_kept kept stored covers
      recorded := fun tells clean => { mirrors.recorded tells clean with } }⟩

theorem storeStep_mirrored {node : Node} (mirrored : Mirrored graph told pending live)
    (stored : graph.get? node.id = some node)
    (opened : ∀ start, node.kind.closes = some start → graph.contains start = true)
    (covers : ∀ id ∈ pending, id ∈ node.touched ∨ id ∈ later) :
    Ends (storeStep node) live (fun _ => Mirrored graph told later) fun _ _ => True := by
  have rest : ∀ id ∈ pending, id = node.id ∨ id ∈ node.kind.closes.toList ++ later := by
    intro id inside
    simpa [Node.touched, or_assoc] using covers id inside
  refine .bind ((storeNode_mirrored mirrored stored rest).mono ?_ fun _ _ => id)
  intro _ between mirrored
  cases closes : node.kind.closes with
  | none =>
      rw [closes] at mirrored
      exact .pure mirrored
  | some start =>
      rw [closes] at mirrored
      obtain ⟨opener, there⟩ := (graph.contains_iff start).1 (opened start closes)
      have number : opener.id = start := NodeTable.get?_id there
      refine .bind (.current ?_)
      -- That the run still has this graph is known only as long as no failure is noted; after one
      -- the start is stored if it is found, and nothing is claimed.
      cases fault : between.run.storageFault with
      | some error =>
          cases between.run.graph.get? start with
          | none => exact .throw trivial
          | some other =>
              exact (Mirrored.of_fault (storeNode_tells other) (by simp [fault])).mono
                (fun _ _ => id) fun _ _ _ => trivial
      | none =>
          obtain ⟨image, mirrors⟩ := mirrored fault
          have found : between.run.graph.get? start = some opener := mirrors.graph_eq.symm ▸ there
          rw [found]
          exact storeNode_mirrored mirrored (number.symm ▸ there) (by simp [number])

theorem storeSteps_mirrored {nodes : List Node} (mirrored : Mirrored graph told pending live)
    (stored : ∀ node ∈ nodes, graph.get? node.id = some node)
    (opened : ∀ node ∈ nodes, ∀ start, node.kind.closes = some start →
      graph.contains start = true)
    (covers : ∀ id ∈ pending, id ∈ nodes.flatMap Node.touched) :
    Ends (nodes.forM storeStep) live (fun _ => Mirrored graph told []) fun _ _ => True := by
  -- What is pending shrinks, node by node, to what the nodes that are left touch.
  induction nodes generalizing live pending with
  | nil =>
      obtain rfl : pending = [] := List.eq_nil_iff_forall_not_mem.2 fun id inside => by
        simpa using covers id inside
      exact .pure mirrored
  | cons node rest ih =>
      obtain ⟨first, others⟩ := List.forall_mem_cons.1 stored
      obtain ⟨opens, othersOpen⟩ := List.forall_mem_cons.1 opened
      have split : ∀ id ∈ pending, id ∈ node.touched ∨ id ∈ rest.flatMap Node.touched := by
        intro id inside
        simpa using covers id inside
      refine .bind ((storeStep_mirrored mirrored first opens split).mono ?_ fun _ _ => id)
      exact fun _ between later => ih later others othersOpen fun _ => id

/-- Nodes that wait are written, or nothing is. -/
theorem flushStore_mirrored (mirrored : Mirrored graph told pending live) :
    EndsIn flushStore live (Mirrored graph told pending) := by
  refine .flushStore (fun _ => mirrored) fun file nodes unflushed fault store => ?_
  refine .commit (fun disk made none => ?_) fun _ => mirrored
  obtain ⟨image, mirrors⟩ := mirrored none
  have knows := mirrors.store
  have kept := mirrors.kept
  simp only [StoreKnows, store] at knows
  simp only [Run.kept, store] at kept
  obtain ⟨kind, rfl, -⟩ := knows
  have shows := mirrors.shows
  rw [kind] at shows
  obtain ⟨written, ok, shown⟩ := shows.writeBatch nodes
  obtain rfl := Except.ok.inj (ok.symm.trans made)
  exact ⟨{ image with nodes }, { mirrors with
    shows := kind.symm ▸ shown
    store := ⟨kind, rfl, fun _ => rfl⟩
    kept := kept
    recorded := fun tells clean => { mirrors.recorded tells clean with } }⟩

/-! ## Safe points -/

/-- A safe point that is reached tells what the record is to tell.  One that is not leaves the run
as it was. -/
theorem reachSafePoint_mirrored (mirrored : Mirrored graph told pending live)
    (grown : graph.IsGrown) : Ends reachSafePoint live (fun _ => Mirrored graph True pending)
      fun _ => Mirrored graph told pending := by
  refine .bind ((flushStore_mirrored mirrored).mono ?_ fun _ _ => id)
  intro _ flushed mirrored
  refine .bind (.current ?_)
  split
  · refine .bind ((writeCheckpoint_mirrored mirrored).mono ?_ fun _ _ => id)
    exact fun _ _ mirrored => markClean_mirrored mirrored grown
  · exact markClean_mirrored mirrored grown

theorem settle_mirrored (mirrored : Mirrored graph True pending live) (grown : graph.IsGrown) :
    EndsIn settle live (Mirrored graph True pending) := by
  refine .bind (.current ?_)
  split
  · exact .noted ((markClean_mirrored mirrored grown).mono (fun _ _ => id)
      fun error failed _ => .faulted failed error)
  · exact .pure mirrored

end Run
end Mirror
end DurableRuns
