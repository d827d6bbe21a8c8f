/-
# DurableRuns.Proofs.Recovery.StartedOver -- a run that is started over what was left

A start looks for a record where it is to begin a run, and for nothing else.  If a continuation or
nodes lie there without a record, they stay, and the next process takes them for those of the run:
it opens it with the leftover nodes beside the first one (`Disk.HasLeftover`) and with the leftover
continuation, and resumes it from there if that was taken at the first node
(`Run.start_over_leftovers`).
-/
import DurableRuns.Proofs.Disk.Tree
import DurableRuns.Proofs.Recovery.Decision
import DurableRuns.Proofs.Run.Development
import DurableRuns.Proofs.Run.Standing
import DurableRuns.Proofs.Storage.Listing

namespace DurableRuns

set_option autoImplicit false

open NodeStore (directoryName batchFileName nodeFile fileName room isNodeFileName)
open Run RunM

/-! ## What is left -/

/-- The nodes that a batched store finds when it is opened. -/
def NodeStore.batchOn (disk : Disk) (place : Place) : NodeTable :=
  match disk.readJson (place.join batchFileName).path (Node.listOfJson? room) with
  | .ok nodes => .ofList nodes
  | .error _ => .empty

/-- A node lies in the directory of a run, beside the one that a start writes there. -/
def Disk.HasLeftover (disk : Disk) (place : Place) (kind : StorageKind) (node : Node) : Prop :=
  match kind with
  | .immediate => ∃ name, name ≠ fileName firstId ∧
      disk.at? ((place.join directoryName).path ++ [name]) ≠ none ∧ isNodeFileName name = true ∧
      disk.readJson ((place.join directoryName).join name).path (Node.ofJson? room) = .ok node
  | .batched => node.id ≠ firstId ∧ (NodeStore.batchOn disk place).get? node.id = some node

/-- A disk was changed, at the place of a run, only in the files that a start writes. -/
structure Disk.Spared (before after : Disk) (place : Place) : Prop where
  reached : after.IsReached place.path
  checkpoint : after.at? (RunFiles.checkpointFile place).path =
    before.at? (RunFiles.checkpointFile place).path
  nodes : ∀ name, name ≠ fileName firstId →
    after.at? ((place.join directoryName).path ++ [name]) =
      before.at? ((place.join directoryName).path ++ [name])

/-- The first node is on disk as a start writes it. -/
def Disk.HasFirst (before after : Disk) (place : Place) : StorageKind → Prop
  | .immediate => after.at? (place.join directoryName).path = some .directory ∧
      after.at? (nodeFile (place.join directoryName) firstId).path =
        some (.file Graph.firstNode.toJson.pretty)
  | .batched => after.at? (place.join batchFileName).path = some (.file (Json.array
      (((NodeStore.batchOn before place).insert Graph.firstNode).nodes.map Node.toJson)).pretty)

section StartedOver

variable {before disk made written : Disk} {place : Place} {hint : Hint} {machine after : Machine}
  {live : LiveRun} {content : Bytes}

namespace Disk

/-- What is read from a file does not depend on the rest of the disk. -/
theorem readJson_congr {α : Type} {other : Disk} {path : Path}
    (same : other.at? path = disk.at? path) (there : disk.at? path ≠ none)
    (reader : Json → Option α) : other.readJson path reader = disk.readJson path reader := by
  rw [readJson, readJson, Disk.read, Disk.read, same]
  cases stands : disk.at? path with
  | none => exact absurd stands there
  | some entry => cases entry <;> rfl

theorem readJson_eq_ok_congr {α : Type} {other : Disk} {path : Path}
    (same : other.at? path = disk.at? path) {reader : Json → Option α} {found : α} :
    other.readJson path reader = .ok found ↔ disk.readJson path reader = .ok found := by
  by_cases there : disk.at? path = none
  · have unread {any : Disk} (nothing : any.at? path = none) :
        any.readJson path reader ≠ .ok found := by
      simp [readJson, Disk.read, nothing]
    exact iff_of_false (unread (same.trans there)) (unread there)
  · rw [readJson_congr same there]

end Disk

theorem RunFiles.checkpointOn_congr {other : Disk}
    (same : other.at? (checkpointFile place).path = disk.at? (checkpointFile place).path) :
    checkpointOn other place = checkpointOn disk place := by
  rw [checkpointOn, checkpointOn, Disk.exists?, Disk.exists?, same]
  by_cases there : disk.at? (checkpointFile place).path = none
  · simp [there]
  · rw [Disk.readJson_congr same there]

namespace NodeStore

theorem batchOn_congr {other : Disk} (same : other.at? (place.join batchFileName).path =
    disk.at? (place.join batchFileName).path) : batchOn other place = batchOn disk place := by
  have read := @Disk.readJson_eq_ok_congr _ _ _ _ same (Node.listOfJson? room)
  rw [batchOn, batchOn]
  cases there : disk.readJson (place.join batchFileName).path (Node.listOfJson? room) with
  | ok nodes => rw [read.2 there]
  | error fault =>
      cases here : other.readJson (place.join batchFileName).path (Node.listOfJson? room) with
      | ok nodes => cases (read.1 here).symm.trans there
      | error => rfl

/-- A batched store is opened with the nodes it finds, be it that it cannot tell why there are none. -/
theorem openBatched_eq_batchOn (disk : Disk) (place : Place) :
    ∃ fault, openBatched disk place =
      .batched (place.join batchFileName) (batchOn disk place) 0 fault := by
  rw [openBatched, batchOn, Disk.exists?]
  cases stands : disk.at? (place.join batchFileName).path with
  | none => exact ⟨none, by simp [Disk.readJson, Disk.read, stands]⟩
  | some entry =>
      cases disk.readJson (place.join batchFileName).path (Node.listOfJson? room) with
      | ok nodes => exact ⟨none, rfl⟩
      | error fault => exact ⟨some fault, rfl⟩

end NodeStore

namespace Disk

/-- To make a directory changes nothing below it. -/
theorem at?_makeDirectories_below {directory : Path} (ok : disk.makeDirectories directory = .ok made)
    (name : String) (rest : List String) :
    made.at? (directory ++ name :: rest) = disk.at? (directory ++ name :: rest) := by
  rw [at?_makeDirectories ok, if_neg]
  intro up
  have short := up.length_le
  rw [List.length_append, List.length_cons] at short
  omega

theorem Spared.of_makeDirectories (ok : disk.makeDirectories place.path = .ok made) :
    disk.Spared made place := by
  constructor
  case reached => exact fun above up => (at?_makeDirectories ok above).trans (if_pos up)
  case checkpoint =>
    rw [RunFiles.path_checkpointFile]
    exact at?_makeDirectories_below ok _ _
  case nodes =>
    intro name _
    rw [NodeStore.path_nodeDirectory, List.append_assoc]
    exact at?_makeDirectories_below ok _ _

/-- A write below a directory changes nothing else there, and nothing deeper. -/
theorem at?_write_below {directory below : Path} (some : below ≠ [])
    (ok : disk.write (directory ++ below) content = .ok written) {other : Path}
    (apart : other ≠ below) (beside : ¬ other <+: below.dropLast) :
    written.at? (directory ++ other) = disk.at? (directory ++ other) := by
  rw [at?_write ok, if_neg (by simpa using apart), if_neg]
  rw [List.dropLast_append_of_ne_nil some, List.prefix_append_right_inj]
  exact beside

theorem Spared.write_below (spared : before.Spared disk place) (below : Path) (some : below ≠ [])
    (checkpoint : ["program.json"] ≠ below ∧ ¬ ["program.json"] <+: below.dropLast)
    (nodes : ∀ name, name ≠ fileName firstId →
      [directoryName, name] ≠ below ∧ ¬ [directoryName, name] <+: below.dropLast)
    (ok : disk.write (place.path ++ below) content = .ok written) :
    before.Spared written place := by
  constructor
  case reached =>
    intro above up
    rw [at?_write ok]
    split
    next here =>
      have short := up.length_le
      have long := List.length_pos_iff.2 some
      rw [here, List.length_append] at short
      omega
    next =>
      rw [if_pos]
      rw [List.dropLast_append_of_ne_nil some]
      exact up.trans (List.prefix_append ..)
  case checkpoint =>
    rw [← spared.checkpoint, RunFiles.path_checkpointFile]
    exact at?_write_below some ok checkpoint.1 checkpoint.2
  case nodes =>
    intro name other
    rw [← spared.nodes name other, NodeStore.path_nodeDirectory, List.append_assoc]
    exact at?_write_below some ok (nodes name other).1 (nodes name other).2

theorem Spared.writeRecord (spared : before.Spared disk place)
    (ok : disk.write (RunFiles.recordFile place).path content = .ok written) :
    before.Spared written place := by
  rw [RunFiles.path_recordFile] at ok
  exact spared.write_below ["execution.json"] (by simp) (by decide) (by simp) ok

theorem Spared.writeBatch (spared : before.Spared disk place)
    (ok : disk.write (place.join batchFileName).path content = .ok written) :
    before.Spared written place := by
  rw [NodeStore.path_batchFile] at ok
  exact spared.write_below [batchFileName] (by simp) (by decide) (by simp) ok

theorem Spared.writeFirst (spared : before.Spared disk place)
    (ok : disk.write (nodeFile (place.join directoryName) firstId).path content = .ok written) :
    before.Spared written place := by
  rw [NodeStore.path_nodeFile, NodeStore.path_nodeDirectory, List.append_assoc] at ok
  refine spared.write_below [directoryName, fileName firstId] (by simp) ?_ ?_ ok
  · simp [directoryName]
  · intro name other
    refine ⟨by simpa using other, fun up => ?_⟩
    simpa using up.length_le

end Disk

/-! ## The start -/

/-- A run that a start has begun to write. -/
structure LiveRun.IsBeginning (live : LiveRun) (before : Disk) (place : Place) (hint : Hint) :
    Prop where
  place_eq : live.run.place = place
  graph : live.run.graph = .first
  unfailed : live.run.storageFault = none
  untaken : live.run.checkpointPersisted = true
  recordHint : live.run.record.hint = hint
  version : live.run.record.version = 1
  status : live.run.record.status = .running
  spared : before.Spared live.machine.disk place

namespace Run

/-- A record is written over the old one, beside what there is. -/
theorem stampRecord_begins (begins : live.IsBeginning before place hint) (flag : CleanFlag) :
    Ends (stampRecord flag) live
      (fun _ after => after.IsBeginning before place hint ∧ after.run.store = live.run.store ∧
        after.run.record = { live.run.record with clean := flag, updatedAt := live.machine.now } ∧
        after.machine.disk.at? (RunFiles.recordFile place).path =
          some (.file after.run.record.toJson.pretty) ∧
        ∀ path, path ≠ (RunFiles.recordFile place).path →
          after.machine.disk.at? path = live.machine.disk.at? path)
      (fun _ _ => True) := by
  obtain ⟨rfl, graph, unfailed, untaken, recordHint, version, status, spared⟩ := begins
  refine .bind (.get (.bind (.update (.bind (.current (.bind (.commit ?_ fun _ => trivial)))))))
  intro written ok
  have ok : live.machine.disk.write (RunFiles.recordFile live.run.place).path _ = .ok written := ok
  refine .update ⟨?_, rfl, rfl, ?_, ?_⟩
  · exact ⟨rfl, graph, unfailed, untaken, recordHint, version, status, spared.writeRecord ok⟩
  · exact (Disk.at?_write ok _).trans (if_pos rfl)
  · intro path other
    rw [RunFiles.path_recordFile] at ok other
    exact (Disk.at?_write_of_isReached spared.reached ok path).trans (if_neg other)

theorem markDirty_begins (begins : live.IsBeginning before place hint)
    (unmarked : live.run.diskFlag = .unknown) :
    Ends markDirty live
      (fun _ after => after.IsBeginning before place hint ∧ after.run.store = live.run.store)
      (fun _ _ => True) := by
  refine .bind (.current ?_)
  rw [if_neg (by simp [unmarked])]
  refine .bind (.attempt ((stampRecord_begins begins .dirty).mono ?_ ?_))
  · exact fun _ after ⟨begins, store, _⟩ => .pure ⟨begins, store⟩
  · exact fun error after _ => .bind (.noteFault (.throw trivial))

/-- The first node is saved: it is on disk, or it waits beside the nodes that were left. -/
theorem storeFirst_begins (begins : live.IsBeginning before place hint) {fault : Option ReadFault}
    (store : live.run.store =
      match hint.storageKind with
      | .immediate => NodeStore.openImmediate place hint.writesAtomically
      | .batched => .batched (place.join batchFileName) (NodeStore.batchOn before place) 0 fault) :
    Ends (storeNode Graph.firstNode) live
      (fun _ after => after.IsBeginning before place hint ∧
        match hint.storageKind with
        | .immediate => before.HasFirst after.machine.disk place .immediate ∧
            after.run.store = NodeStore.openImmediate place hint.writesAtomically
        | .batched => after.run.store = .batched (place.join batchFileName)
            ((NodeStore.batchOn before place).insert Graph.firstNode) 1 fault)
      (fun _ _ => True) := by
  obtain ⟨here, graph, unfailed, untaken, recordHint, version, status, spared⟩ := begins
  rw [storeNode_eq]
  refine .bind (.current (.bind ?_))
  rw [NodeStore.save_eq]
  cases kind : hint.storageKind with
  | immediate =>
      rw [kind] at store
      rw [store]
      refine .onMachine_bind (.commit ?_ fun _ => trivial)
      intro written ok
      have ok : live.machine.disk.write (nodeFile (place.join directoryName) firstId).path _ =
        .ok written := ok
      refine .onMachine_pure (.update ⟨?_, ?_, rfl⟩)
      · exact ⟨here, graph, unfailed, untaken, recordHint, version, status, spared.writeFirst ok⟩
      · refine ⟨(Disk.at?_write ok _).trans ?_, (Disk.at?_write ok _).trans (if_pos rfl)⟩
        rw [NodeStore.path_nodeFile, List.dropLast_concat, if_neg (by simp),
          if_pos (List.prefix_refl _)]
  | batched =>
      rw [kind] at store
      rw [store]
      refine .onMachine_pure (.update ⟨?_, rfl⟩)
      exact ⟨here, graph, unfailed, untaken, recordHint, version, status, spared⟩

/-- Once the store is flushed, the first node is on disk. -/
theorem flushFirst_begins (begins : live.IsBeginning before place hint) {fault : Option ReadFault}
    (saved : match hint.storageKind with
      | .immediate => before.HasFirst live.machine.disk place .immediate ∧
          live.run.store = NodeStore.openImmediate place hint.writesAtomically
      | .batched => live.run.store = .batched (place.join batchFileName)
          ((NodeStore.batchOn before place).insert Graph.firstNode) 1 fault) :
    Ends flushStore live
      (fun _ after => after.IsBeginning before place hint ∧
        before.HasFirst after.machine.disk place hint.storageKind)
      (fun _ _ => True) := by
  obtain ⟨here, graph, unfailed, untaken, recordHint, version, status, spared⟩ := begins
  rw [flushStore_eq]
  refine .bind (.current (.bind ?_))
  rw [NodeStore.flush_eq]
  cases kind : hint.storageKind with
  | immediate =>
      rw [kind] at saved
      obtain ⟨first, store⟩ := saved
      rw [store]
      refine .onMachine_pure (.update ⟨?_, first⟩)
      exact ⟨here, graph, unfailed, untaken, recordHint, version, status, spared⟩
  | batched =>
      rw [kind] at saved
      simp only at saved
      rw [saved]
      refine .onMachine_bind (.onMachine_get ?_)
      rw [if_neg (by simp)]
      refine .onMachine_bind (.commit ?_ fun _ => trivial)
      intro written ok
      have ok : live.machine.disk.write (place.join batchFileName).path _ = .ok written := ok
      refine .onMachine_pure (.update ⟨?_, ?_⟩)
      · exact ⟨here, graph, unfailed, untaken, recordHint, version, status, spared.writeBatch ok⟩
      · exact (Disk.at?_write ok _).trans (if_pos rfl)

/-- What a start leaves: a clean record of a run with one node, and this node, beside what was
there. -/
structure LeavesBegun (before : Disk) (place : Place) (hint : Hint) (run : Run) (disk : Disk) :
    Prop where
  spared : before.Spared disk place
  first : before.HasFirst disk place hint.storageKind
  recorded : disk.at? (RunFiles.recordFile place).path = some (.file run.record.toJson.pretty)
  recordHint : run.record.hint = hint
  version : run.record.version = 1
  status : run.record.status = .running
  clean : run.record.clean = .clean
  heads : run.record.heads = [firstId]

theorem markClean_begins (begins : live.IsBeginning before place hint)
    (first : before.HasFirst live.machine.disk place hint.storageKind) :
    Ends markClean live (fun _ after => LeavesBegun before place hint after.run after.machine.disk)
      (fun _ _ => True) := by
  obtain ⟨here, graph, unfailed, untaken, recordHint, version, status, spared⟩ := begins
  refine .bind (.current (.bind (.update ?_)))
  have begins : LiveRun.IsBeginning
      { live with run := { live.run with record := { live.run.record with
        heads := live.run.graph.heads } } } before place hint :=
    ⟨here, graph, unfailed, untaken, recordHint, version, status, spared⟩
  refine (stampRecord_begins begins _).mono ?_ fun _ _ => id
  rintro _ after ⟨begins, -, record, recorded, stays⟩
  constructor
  case spared => exact begins.spared
  case first =>
    cases kind : hint.storageKind with
    | immediate =>
        rw [kind] at first
        refine ⟨(stays _ ?_).trans first.1,
          (stays _ (RunFiles.recordFile_ne_nodeFile _ _).symm).trans first.2⟩
        rw [RunFiles.path_recordFile, NodeStore.path_nodeDirectory]
        simp [directoryName]
    | batched =>
        rw [kind] at first
        exact (stays _ (RunFiles.recordFile_ne_batchFile _).symm).trans first
  case recorded => exact recorded
  case recordHint => rw [record, recordHint]
  case version => rw [record, version]
  case status => rw [record, status]
  case clean => simp [record, unfailed]
  case heads =>
    rw [record]
    exact congrArg Graph.heads graph

/-- What begins a run leaves it begun, or fails. -/
theorem beginning_leavesBegun (begins : live.IsBeginning before place hint)
    (unmarked : live.run.diskFlag = .unknown) {fault : Option ReadFault}
    (store : live.run.store =
      match hint.storageKind with
      | .immediate => NodeStore.openImmediate place hint.writesAtomically
      | .batched => .batched (place.join batchFileName) (NodeStore.batchOn before place) 0 fault) :
    Ends beginning live (fun _ after => LeavesBegun before place hint after.run after.machine.disk)
      (fun _ _ => True) := by
  refine .bind ((markDirty_begins begins unmarked).mono ?_ fun _ _ => id)
  rintro _ marked ⟨begins, same⟩
  refine .bind ((storeFirst_begins begins (same.trans store)).mono ?_ fun _ _ => id)
  rintro _ stored ⟨begins, saved⟩
  refine .bind ((flushFirst_begins begins saved).mono ?_ fun _ _ => id)
  rintro _ flushed ⟨begins, first⟩
  refine .bind (.current ?_)
  rw [begins.untaken]
  exact markClean_begins begins first

/-- A start that succeeds leaves a run begun, beside what there was. -/
theorem start_leavesBegun [Numbering]
    {runId : String} {asked : Option Hint} {config : Config} {run : Run}
    {after : Machine} (started : start place runId asked config machine = .ok run after) :
    LeavesBegun machine.disk place (config.hintFor asked) run after.disk := by
  obtain ⟨reached, done, begins⟩ := of_start_eq_ok started
  rcases machine.commit_cases (.makeDirectories place.path) .disk with
    ⟨made, directories, taken⟩ | ⟨fault, refused⟩
  · cases taken.symm.trans done
    have spared := Disk.Spared.of_makeDirectories directories
    have batch : NodeStore.batchOn made place = NodeStore.batchOn machine.disk place := by
      apply NodeStore.batchOn_congr
      rw [NodeStore.path_batchFile]
      exact Disk.at?_makeDirectories_below directories _ _
    obtain ⟨fault, opened⟩ := NodeStore.openBatched_eq_batchOn made place
    have begun : LiveRun.IsBeginning
        ⟨begun (machine.changed (.makeDirectories place.path) made) place runId
          (config.hintFor asked), machine.changed (.makeDirectories place.path) made⟩
        machine.disk place (config.hintFor asked) := ⟨rfl, rfl, rfl, rfl, rfl, rfl, rfl, spared⟩
    have store : NodeStore.ofRun made place (config.hintFor asked) =
        match (config.hintFor asked).storageKind with
        | .immediate => NodeStore.openImmediate place (config.hintFor asked).writesAtomically
        | .batched => .batched (place.join batchFileName) (NodeStore.batchOn machine.disk place) 0
            fault := by
      rw [NodeStore.ofRun]
      cases (config.hintFor asked).storageKind with
      | immediate => rfl
      | batched => exact batch ▸ opened
    have ends := beginning_leavesBegun begun rfl store
    rw [Ends, begins] at ends
    exact ends
  · cases refused.symm.trans done

/-! ## What the next process finds -/

end Run

/-- What is found in a batched store can be written again. -/
theorem NodeStore.storable_of_batchOn {node : Node} {id : Nat}
    (stored : (batchOn disk place).get? id = some node) : node.Storable := by
  unfold batchOn at stored
  split at stored
  next nodes read =>
    obtain ⟨content, -, found⟩ := Disk.content_of_readJson read
    obtain ⟨value, -, listed⟩ := Option.bind_eq_some_iff.1 found
    rw [NodeTable.get?_ofList] at stored
    have inside := List.mem_reverse.1 (List.mem_of_find?_eq_some stored)
    obtain ⟨item, one⟩ := Json.exists_of_list? listed inside
    exact Node.storable_of_ofJson? one
  next => cases stored

namespace Run

variable {runId : String} {asked : Option Hint} {config : Config} {run : Run}

/-- Beside the file of the first node the files that were there before are read as they were. -/
theorem LeavesBegun.lists_immediate (tree : before.IsTree)
    (begun : LeavesBegun before place hint run machine.disk)
    (kind : hint.storageKind = .immediate) :
    ∃ loaded, (NodeStore.ofRun machine.disk place hint).readAll machine = .ok loaded machine ∧
      ∀ node, node ∈ loaded.nodes ↔
        node = Graph.firstNode ∨ before.HasLeftover place .immediate node := by
  have first := begun.first
  rw [kind] at first
  obtain ⟨directory, file⟩ := first
  have read : machine.disk.readJson (nodeFile (place.join directoryName) firstId).path
      (Node.ofJson? room) = .ok Graph.firstNode :=
    Disk.readJson_eq_ok file (Node.isOrdinary_toJson Graph.firstNode_storable)
      (Node.ofJson?_toJson Graph.firstNode_storable (by decide))
  obtain ⟨loaded, listed, members⟩ := NodeStore.readAll_of_directory hint.writesAtomically directory
  refine ⟨loaded, by rw [NodeStore.ofRun, kind]; exact listed, fun node => ?_⟩
  rw [members]
  constructor
  · rintro ⟨name, stands, nodeFile, found⟩
    by_cases same : name = fileName firstId
    · subst same
      exact .inl (Except.ok.inj (found.symm.trans read))
    · have untouched := begun.spared.nodes name same
      rw [untouched] at stands
      have step : Place.IsStep name := tree.plain _ stands name (by simp)
      rw [← (place.join directoryName).path_join step] at untouched
      exact .inr ⟨name, same, stands, nodeFile, (Disk.readJson_eq_ok_congr untouched).1 found⟩
  · rintro (rfl | ⟨name, other, stands, nodeFile, found⟩)
    · rw [NodeStore.path_nodeFile] at file
      exact ⟨fileName firstId, file ▸ Option.some_ne_none _, NodeStore.isNodeFileName_fileName _,
        read⟩
    · have untouched := begun.spared.nodes name other
      have step : Place.IsStep name := tree.plain _ stands name (by simp)
      refine ⟨name, by rwa [untouched], nodeFile, ?_⟩
      rw [← (place.join directoryName).path_join step] at untouched
      exact (Disk.readJson_eq_ok_congr untouched).2 found

/-- The one file holds the nodes that were in it before, with the first node among them. -/
theorem LeavesBegun.lists_batched (begun : LeavesBegun before place hint run machine.disk)
    (kind : hint.storageKind = .batched) :
    ∃ loaded, (NodeStore.ofRun machine.disk place hint).readAll machine = .ok loaded machine ∧
      ∀ node, node ∈ loaded.nodes ↔
        node = Graph.firstNode ∨ before.HasLeftover place .batched node := by
  have first := begun.first
  rw [kind] at first
  have storable : ∀ node ∈ ((NodeStore.batchOn before place).insert Graph.firstNode).nodes,
      node.Storable := by
    intro node inside
    rw [NodeTable.mem_nodes_iff, NodeTable.get?_insert] at inside
    split at inside
    · exact Option.some.inj inside ▸ Graph.firstNode_storable
    · exact NodeStore.storable_of_batchOn inside
  have back := Node.listOfJson?_toJson storable (show 5 ≤ room by decide)
  have read := Disk.readJson_eq_ok first (Node.isOrdinary_listToJson storable) back
  have table : NodeStore.batchOn machine.disk place =
      (NodeStore.batchOn before place).insert Graph.firstNode := by
    rw [NodeStore.batchOn, read]
    exact NodeTable.ofList_nodes _
  obtain ⟨fault, opened⟩ := NodeStore.openBatched_eq_batchOn machine.disk place
  refine ⟨_, by rw [NodeStore.ofRun, kind, opened]; rfl, fun node => ?_⟩
  rw [table, NodeTable.mem_nodes_iff, NodeTable.get?_insert]
  by_cases same : node.id = Graph.firstNode.id
  · rw [if_pos same]
    constructor
    · exact fun found => .inl (Option.some.inj found).symm
    · rintro (rfl | ⟨other, -⟩)
      · rfl
      · exact absurd same other
  · rw [if_neg same]
    constructor
    · exact fun found => .inr ⟨same, found⟩
    · rintro (rfl | ⟨-, found⟩)
      · exact absurd rfl same
      · exact found

/-- Where a run was begun the first node is listed, and what was left beside it. -/
theorem LeavesBegun.lists (tree : before.IsTree)
    (begun : LeavesBegun before place hint run machine.disk) :
    ∃ loaded, (NodeStore.ofRun machine.disk place hint).readAll machine = .ok loaded machine ∧
      ∀ node, node ∈ loaded.nodes ↔
        node = Graph.firstNode ∨ before.HasLeftover place hint.storageKind node := by
  cases kind : hint.storageKind with
  | immediate => exact begun.lists_immediate tree kind
  | batched => exact begun.lists_batched kind

/-- Where a run was begun its record is read. -/
theorem LeavesBegun.reads (begun : LeavesBegun before place hint run machine.disk) :
    RunFiles.readRecord place machine = .ok run.record machine := by
  have storable : run.record.Storable := by
    constructor
    case version_lt =>
      rw [begun.version]
      decide
    case heads =>
      rw [begun.heads]
      decide
  exact RunFiles.readRecord_eq_ok_of_found (Disk.readJson_eq_ok begun.recorded
    (Record.isOrdinary_toJson storable) (Record.ofJson?_toJson storable))

/-- A run that goes on from its first node has no other head, whatever lies beside it. -/
theorem restored_heads [Numbering] (heads : run.record.heads = [firstId]) {nodes : List Node}
    (inside : Graph.firstNode ∈ nodes) (store : NodeStore) (checkpoint : Option Checkpoint) :
    (restored place run.record store nodes checkpoint).graph.heads = [firstId] := by
  have there : (NodeTable.ofList nodes).contains firstId = true :=
    (NodeTable.contains_ofList nodes firstId).2 ⟨_, inside, rfl⟩
  have stored : (Graph.ofParts nodes [firstId]).contains firstId = true := there
  simp only [restored, heads, Graph.usableHeads]
  simp [Graph.ofParts, Graph.contains, there]

/-- A run that goes on from its first node alone is as it was started. -/
theorem restored_first [Numbering] (heads : run.record.heads = [firstId]) {nodes : List Node}
    (alone : ∀ node, node ∈ nodes ↔ node = Graph.firstNode) (store : NodeStore)
    (checkpoint : Option Checkpoint) :
    (restored place run.record store nodes checkpoint).graph = .first := by
  have table : NodeTable.ofList nodes = Graph.first.table := by
    apply NodeTable.ofList_eq
    intro node
    rw [alone]
    show _ ↔ Graph.first.get? node.id = some node
    rw [Graph.get?_first]
    constructor
    · rintro rfl
      rfl
    · split
      · exact fun same => (Option.some.inj same).symm
      · nofun
  have same : NodeTable.ofList nodes = NodeTable.ofList Graph.first.table.nodes :=
    table.trans (NodeTable.ofList_nodes _).symm
  rw [restored_congr place run.record store checkpoint same]
  have whole : Graph.ofParts Graph.first.table.nodes run.record.heads = .first := by
    rw [heads]
    exact Graph.ofParts_first
  simp only [restored, whole, Graph.wellFormed_first.usableHeads_eq]

/-- What a run is opened with where it was begun: its first node and its leftovers. -/
structure OpensWithLeftovers (before : Disk) (place : Place) (kind : StorageKind) (opened : Run) :
    Prop where
  heads : opened.graph.heads = [firstId]
  contains : ∀ id, opened.graph.contains id = true ↔
    id = firstId ∨ ∃ node, before.HasLeftover place kind node ∧ node.id = id
  alone : (¬ ∃ node, before.HasLeftover place kind node) → opened.graph = .first
  checkpoint : opened.checkpoint = continuation? (RunFiles.checkpointOn before place)

/-- Where a run was begun it is opened. -/
theorem LeavesBegun.opens [Numbering] (tree : before.IsTree)
    (begun : LeavesBegun before place hint run machine.disk) :
    ∃ opened report, openReporting place machine = .ok (opened, report) machine ∧
      OpensWithLeftovers before place hint.storageKind opened := by
  obtain ⟨loaded, listed, members⟩ := begun.lists tree
  rw [← begun.recordHint] at listed
  have first : Graph.firstNode ∈ loaded.nodes := (members _).2 (.inl rfl)
  refine ⟨_, _, openReporting_of_reads begun.reads listed, ?_⟩
  constructor
  case heads => exact restored_heads begun.heads first _ _
  case contains =>
    intro id
    refine (NodeTable.contains_ofList loaded.nodes id).trans ?_
    constructor
    · rintro ⟨node, inside, rfl⟩
      rcases (members node).1 inside with rfl | left
      · exact .inl rfl
      · exact .inr ⟨node, left, rfl⟩
    · rintro (rfl | ⟨node, left, rfl⟩)
      · exact ⟨_, first, rfl⟩
      · exact ⟨node, (members node).2 (.inr left), rfl⟩
  case alone =>
    intro none
    apply restored_first begun.heads
    intro node
    rw [members]
    exact or_iff_left fun left => none ⟨node, left⟩
  case checkpoint =>
    rw [← RunFiles.checkpointOn_congr begun.spared.checkpoint]
    rfl

theorem continuation?_eq_some_iff {found : Except ContinuationFault (Option Checkpoint)}
    {checkpoint : Checkpoint} :
    continuation? found = some checkpoint ↔ found = .ok (some checkpoint) := by
  cases found with
  | ok found => simp [continuation?]
  | error fault => simp [continuation?]

/-- Where a run was begun, its recovery is decided by what was left. -/
theorem LeavesBegun.decided [Numbering] (tree : before.IsTree)
    (begun : LeavesBegun before place hint run machine.disk) {coordinator : Coordinator}
    (unclaimed : place.path ∉ coordinator.claimed) :
    ∃ loaded opened report kept left,
      (∀ node, node ∈ loaded ↔ node = Graph.firstNode ∨
        before.HasLeftover place hint.storageKind node) ∧
      openAt place machine = .ok opened machine ∧
      coordinator.recoverRun place machine = .ok (report, kept) left ∧
      Coordinator.Decided coordinator opened run.record loaded place machine report left := by
  obtain ⟨loaded, listed, members⟩ := begun.lists tree
  rw [← begun.recordHint] at listed
  have unfinished : run.record.isComplete = false := by
    rw [Record.isComplete, begun.status]
    rfl
  obtain ⟨opened, report, left, opens, recovers, decided⟩ :=
    coordinator.recoverRun_of_reads begun.reads unfinished listed unclaimed
  exact ⟨_, opened, report, _, left, members, opens, recovers, decided⟩

/-- Where a run was begun it survives the end of the process after a clean one, or if it does not
wait with its writes. -/
theorem LeavesBegun.isFit_iff {disk : Disk} (begun : LeavesBegun before place hint run disk)
    (termination : Termination) :
    run.record.IsFit termination ↔ termination = .clean ∨ hint ≠ .performanceOptimized := by
  rw [Record.IsFit, Record.isPaused, begun.status, begun.clean, begun.recordHint]
  simp

/-- Where a run was begun it is resumed exactly from a continuation that was left of its first
node. -/
theorem LeavesBegun.recovered [Numbering] (tree : before.IsTree)
    (begun : LeavesBegun before place hint run machine.disk) {coordinator : Coordinator}
    (unclaimed : place.path ∉ coordinator.claimed) :
    ∃ opened report kept left, openAt place machine = .ok opened machine ∧
      coordinator.recoverRun place machine = .ok (report, kept) left ∧
      (report.outcome = .resumed ↔
        (coordinator.termination = .clean ∨ hint ≠ .performanceOptimized) ∧
        ∃ checkpoint, RunFiles.checkpointOn before place = .ok (some checkpoint) ∧
          checkpoint.heads = [firstId] ∧
          coordinator.resumer.Accepts opened.resuming machine checkpoint.blob) ∧
      (report.outcome ≠ .resumed → ∃ reason, report.outcome = .failed reason) := by
  obtain ⟨loaded, opened, report, kept, left, members, opens, recovers, decided⟩ :=
    begun.decided tree unclaimed
  refine ⟨opened, report, kept, left, opens, recovers, decided.resumed_iff.trans ?_,
    decided.failed⟩
  have fit := begun.isFit_iff coordinator.termination
  have loadedHeads : ∀ head ∈ run.record.heads, ∃ node ∈ loaded, node.id = head := by
    intro head inside
    rw [begun.heads, List.mem_singleton] at inside
    exact ⟨_, (members _).2 (.inl rfl), inside.symm⟩
  have same := RunFiles.checkpointOn_congr begun.spared.checkpoint
  constructor
  · rintro ⟨checkpoint, ⟨survives, -, continuation, taken⟩, accepts⟩
    exact ⟨fit.1 survives, checkpoint, same ▸ RunFiles.checkpointOn_eq_some_iff.2 continuation,
      taken.trans begun.heads, accepts⟩
  · rintro ⟨survives, checkpoint, held, taken, accepts⟩
    exact ⟨checkpoint, ⟨fit.2 survives, loadedHeads,
      RunFiles.checkpointOn_eq_some_iff.1 (same.trans held), taken.trans begun.heads.symm⟩, accepts⟩

/-- **A run started over what was left**: let a start succeed, wherever it is made on a disk that
is a tree, and let the process be killed at once.  The run is then opened at its first node.  With
this node it has exactly the nodes that lay in its directory before the start, so it is as it was
started if there were none; and it has the continuation that lay there.  Its recovery resumes it
exactly if the run survives the end of the process and this continuation was taken at the first
node and is accepted; otherwise it is closed as failed.

A program that checks its arithmetic stops where a number has none after it, be it that of a node
that lay there, so it must come as far as the graph and the report. -/
theorem start_over_leftovers [Numbering] {after : Machine} (tree : machine.disk.IsTree)
    (started : start place runId asked config machine = .ok run after) (later : Machine)
    (killed : later.disk = after.disk)
    (counted : ∀ opened, openAt place later = .ok opened later → opened.graph.IsCounted) :
    let hint := config.hintFor asked
    ∃ opened report, openReporting place later = .ok (opened, report) later ∧
      opened.graph.IsCounted ∧ opened.graph.heads = [firstId] ∧
      (∀ id, opened.graph.contains id = true ↔ id = firstId ∨
        ∃ node, machine.disk.HasLeftover place hint.storageKind node ∧ node.id = id) ∧
      ((¬ ∃ node, machine.disk.HasLeftover place hint.storageKind node) →
        opened.graph = .first) ∧
      opened.checkpoint = continuation? (RunFiles.checkpointOn machine.disk place) ∧
      ∀ coordinator : Coordinator, place.path ∉ coordinator.claimed →
        (∀ report kept left,
          coordinator.recoverRun place later = .ok (report, kept) left → report.IsCounted) →
        ∃ report kept left, coordinator.recoverRun place later = .ok (report, kept) left ∧
          report.IsCounted ∧
          (report.outcome = .resumed ↔
            (coordinator.termination = .clean ∨ hint ≠ .performanceOptimized) ∧
            ∃ checkpoint, opened.checkpoint = some checkpoint ∧ checkpoint.heads = [firstId] ∧
              coordinator.resumer.Accepts opened.resuming later checkpoint.blob) ∧
          (report.outcome ≠ .resumed → ∃ reason, report.outcome = .failed reason) := by
  intro hint
  have begun : LeavesBegun machine.disk place hint run later.disk :=
    killed ▸ start_leavesBegun started
  obtain ⟨opened, report, opens, found⟩ := begun.opens tree
  have openedAt := openAt_eq_ok_iff.2 ⟨_, opens⟩
  refine ⟨opened, report, opens, counted _ openedAt, found.heads, found.contains, found.alone,
    found.checkpoint, ?_⟩
  intro coordinator unclaimed reported
  obtain ⟨again, report, kept, left, opens', recovers, resumed, failed⟩ :=
    begun.recovered tree unclaimed
  cases opens'.symm.trans openedAt
  refine ⟨report, kept, left, recovers, reported _ _ _ recovers, ?_, failed⟩
  rw [resumed, found.checkpoint]
  simp only [continuation?_eq_some_iff]

end Run

end StartedOver

/-! ## A run that is started over another -/

namespace Coordinator

/-- A node of an earlier run. -/
def oldNode : Node := { id := 2, kind := .atom, name := "old", parents := [1] }

/-- What an earlier run wrote, of which the record was removed. -/
def makingLeftovers : List Change :=
  [.makeDirectories ["run"],
    .write ["run", "program.json"] pausedCheckpoint.toJson.pretty true,
    .write ["run", "nodes", "2.json"] oldNode.toJson.pretty true,
    .write ["run", "nodes.json"]
      (Json.array ([Graph.firstNode, oldNode].map Node.toJson)).pretty true]

/-- A machine with what this run left. -/
def leftovers : Machine :=
  { disk := ⟨[(["run"], .directory),
      (["run", "program.json"], .file pausedCheckpoint.toJson.pretty),
      (["run", "nodes"], .directory), (["run", "nodes", "2.json"], .file oldNode.toJson.pretty),
      (["run", "nodes.json"],
        .file (Json.array ([Graph.firstNode, oldNode].map Node.toJson)).pretty)]⟩
    now := .sample }

theorem leftovers_isTree : leftovers.disk.IsTree := by
  have made : Disk.empty.replay makingLeftovers = .ok leftovers.disk := rfl
  exact Disk.IsTree.empty.replay (by decide) made

theorem oldNode_storable : oldNode.Storable :=
  ⟨by decide, trivial, by decide, by simp [oldNode]⟩

/-- The continuation that was left is read. -/
theorem leftovers_checkpoint :
    RunFiles.checkpointOn leftovers.disk .sample = .ok (some pausedCheckpoint) :=
  RunFiles.checkpointOn_eq_some_iff.2 (Disk.readJson_eq_ok (by decide +kernel)
    (Checkpoint.isOrdinary_toJson pausedCheckpoint_storable)
    (Checkpoint.ofJson?_toJson pausedCheckpoint_storable))

/-- The node that was left is a leftover, however the nodes of a run are kept. -/
theorem leftovers_hasLeftover (kind : StorageKind) :
    leftovers.disk.HasLeftover .sample kind oldNode := by
  cases kind with
  | immediate =>
      exact ⟨fileName 2, by decide, by decide +kernel, NodeStore.isNodeFileName_fileName 2,
        Disk.readJson_eq_ok (by decide +kernel) (Node.isOrdinary_toJson oldNode_storable)
          (Node.ofJson?_toJson oldNode_storable (by decide))⟩
  | batched =>
      have storable : ∀ node ∈ [Graph.firstNode, oldNode], node.Storable := by
        simp [Graph.firstNode_storable, oldNode_storable]
      have read : leftovers.disk.readJson (Place.sample.join batchFileName).path
          (Node.listOfJson? room) = .ok [Graph.firstNode, oldNode] :=
        Disk.readJson_eq_ok (by decide +kernel) (Node.isOrdinary_listToJson storable)
          (Node.listOfJson?_toJson storable (by decide))
      refine ⟨by decide, ?_⟩
      rw [NodeStore.batchOn, read]
      rfl

/-- The graph of a run that was started over the leftovers. -/
def leftoverGraph : Graph := .ofParts [Graph.firstNode, oldNode] [firstId]

theorem leftoverGraph_isUsable : leftoverGraph.IsUsable := by
  refine ⟨by decide, by decide, fun _ => by decide, fun id there => ?_⟩
  obtain ⟨node, stored⟩ := (leftoverGraph.contains_iff id).1 there
  obtain rfl := NodeTable.get?_id stored
  have all : ∀ node ∈ leftoverGraph.nodes, node.id < leftoverGraph.nextId := by decide
  exact all node ((leftoverGraph.mem_nodes_iff node).2 stored)

/-- The numbers last for a repair, and for another one after it. -/
theorem leftoverGraph_repaired_nextId_lt (reason : String) :
    (leftoverGraph.repaired reason).nextId + (leftoverGraph.repaired reason).size + 2 <
      UInt64.size := by
  have usable := (leftoverGraph_isUsable.extendsBy_repaired reason).isUsable leftoverGraph_isUsable
  have size := usable.size_le_nextId
  have next : (leftoverGraph.repaired reason).nextId ≤ 3 + 2 + 2 :=
    Graph.nextId_repaired_le leftoverGraph_isUsable reason
  exact Nat.lt_of_le_of_lt (m := 16) (by omega) (by decide +kernel)

/-- A run whose graph is this one is counted, if it is refused. -/
theorem isCounted_of_refused {opened : Run} {machine after : Machine} {report : RecoveryReport}
    (refused : Refused opened machine report after) (graph : opened.graph = leftoverGraph) :
    report.IsCounted := by
  intro run acted
  obtain ⟨obstacle, closed, -, acted', fails⟩ := refused.closed
  cases acted'.symm.trans acted
  have ends := fail_graph (closing opened obstacle).message { run := opened, machine }
  rw [EndsIn, Ends, fails] at ends
  have room : run.graph.nextId + run.graph.size + 2 < UInt64.size := by
    rcases ends with same | repaired
    · rw [same, graph]
      decide +kernel
    · rw [repaired, graph]
      exact leftoverGraph_repaired_nextId_lt _
  exact ⟨Graph.isCounted_of_lt (by omega), fun _ _ => Graph.isPlannable_of_lt room⟩

/-- A batched run that is started over the leftovers is opened with the old node.  After a dirty
end it is closed, and after a clean one it is resumed. -/
theorem batched_over_leftovers : ∃ run started opened,
    Run.start .sample "sample" (some .performanceOptimized) .default leftovers = .ok run started ∧
      openAt .sample started = .ok opened started ∧ opened.graph.contains 2 = true ∧
      (∃ report kept left, accepting.recoverRun .sample started = .ok (report, kept) left ∧
        ∃ reason, report.outcome = .failed reason) ∧
      ∃ report kept left, { accepting with termination := .clean }.recoverRun .sample started =
        .ok (report, kept) left ∧ report.outcome = .resumed := by
  have passed : Run.passes (fun _ started =>
      Run.passes (fun opened _ => decide (opened.graph = leftoverGraph)) (openAt .sample started) &&
        Run.passes (fun found _ => decide found.1.IsCounted)
          ({ accepting with termination := .clean }.recoverRun .sample started))
      (Run.start .sample "sample" (some .performanceOptimized) .default leftovers) = true := by
    decide +kernel
  obtain ⟨run, started, starts, computed⟩ := Run.of_passes passed
  obtain ⟨graph, afterClean⟩ := Bool.and_eq_true_iff.1 computed
  have counted (opened : Run) (opens : openAt .sample started = .ok opened started) :
      opened.graph.IsCounted := by
    have same : opened.graph = leftoverGraph := Run.holds_of_passes graph opens
    rw [same]
    decide +kernel
  have afterDirty (report : RecoveryReport) (kept : Coordinator) (left : Machine)
      (recovers : accepting.recoverRun .sample started = .ok (report, kept) left) :
      report.IsCounted := by
    have begun := Run.start_leavesBegun starts
    obtain ⟨loaded, opened, _, _, _, -, opens, recovers', decided⟩ :=
      begun.decided leftovers_isTree (show _ ∉ accepting.claimed from List.not_mem_nil)
    cases recovers'.symm.trans recovers
    cases decided with
    | handed resumable =>
        rcases (begun.isFit_iff _).1 resumable.fit with clean | other
        · cases clean
        · exact absurd rfl other
    | refused _ refused => exact isCounted_of_refused refused (Run.holds_of_passes graph opens)
  obtain ⟨opened, report, opens, -, -, contains, -, checkpoint, recovers⟩ :=
    Run.start_over_leftovers leftovers_isTree starts started rfl counted
  rw [leftovers_checkpoint] at checkpoint
  obtain ⟨dirty, _, _, recovered, -, resumed, failed⟩ :=
    recovers accepting List.not_mem_nil afterDirty
  obtain ⟨clean, kept, left, again, -, resumed', -⟩ :=
    recovers { accepting with termination := .clean } List.not_mem_nil
      fun _ _ _ recovers => Run.holds_of_passes afterClean recovers
  refine ⟨run, started, opened, starts, openAt_eq_ok_iff.2 ⟨_, opens⟩, ?_,
    ⟨dirty, _, _, recovered, failed ?_⟩, clean, kept, left, again, ?_⟩
  · exact (contains 2).2 (.inr ⟨oldNode, leftovers_hasLeftover _, rfl⟩)
  · intro accepted
    obtain ⟨survives | survives, -⟩ := resumed.1 accepted
    · cases survives
    · exact survives rfl
  · exact resumed'.2 ⟨.inl rfl, pausedCheckpoint, checkpoint, rfl, [], _, rfl⟩

/-- **Leftovers are taken up**: a run is started where an earlier one left its continuation and a
node, and the process is killed at once.  The next one opens it with this node, and resumes it from
this continuation. -/
theorem resumed_from_leftovers : ∃ run started opened report kept left,
    RunFiles.isRun leftovers.disk .sample = false ∧
      Run.start .sample "sample" (some .maxSurvivability) .default leftovers = .ok run started ∧
      openAt .sample started = .ok opened started ∧ opened.graph.contains 2 = true ∧
      opened.checkpoint = some pausedCheckpoint ∧
      accepting.recoverRun .sample started = .ok (report, kept) left ∧
      report.outcome = .resumed := by
  have passed : Run.passes (fun _ _ => true)
      (Run.start .sample "sample" (some .maxSurvivability) .default leftovers) = true := by
    decide +kernel
  obtain ⟨run, started, starts, -⟩ := Run.of_passes passed
  have begun := Run.start_leavesBegun starts
  obtain ⟨opened, _, opens, found⟩ := begun.opens leftovers_isTree
  obtain ⟨again, report, kept, left, opens', recovers, resumed, -⟩ :=
    begun.recovered leftovers_isTree
      (show Place.sample.path ∉ accepting.claimed from List.not_mem_nil)
  cases opens'.symm.trans (openAt_eq_ok_iff.2 ⟨_, opens⟩)
  refine ⟨run, started, opened, report, kept, left, by decide, starts, opens', ?_, ?_, recovers, ?_⟩
  · exact (found.contains 2).2 (.inr ⟨oldNode, leftovers_hasLeftover _, rfl⟩)
  · rw [found.checkpoint, leftovers_checkpoint]
    rfl
  · exact resumed.2 ⟨.inr nofun, pausedCheckpoint, leftovers_checkpoint, rfl, [], _, rfl⟩

end Coordinator
end DurableRuns
