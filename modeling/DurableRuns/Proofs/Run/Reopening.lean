/-
# DurableRuns.Proofs.Run.Reopening -- what a run is opened with

A directory that shows an image is opened with exactly this image: its record, its nodes, its
continuation, and no fault (`openReporting_eq`).  If the image has the nodes and the heads of
a well-formed graph, the opened run has this graph (`restored_graph`).
-/
import DurableRuns.Proofs.Run.Tracking
import DurableRuns.Proofs.Run.Written

namespace DurableRuns

set_option autoImplicit false

open NodeStore (directoryName batchFileName fileName)

/-- A file that holds an ordinary value is read as this value. -/
theorem Disk.readJson_eq_ok {α : Type} {disk : Disk} {path : Path} {value : Json}
    {reader : Json → Option α} {found : α} (stands : disk.at? path = some (.file value.pretty))
    (ordinary : value.IsOrdinary) (back : reader value = some found) :
    disk.readJson path reader = .ok found := by
  rw [readJson, Disk.read, stands]
  simp [Json.parse_pretty ordinary, back]

/-- What is read from a file is what its content says. -/
theorem Disk.content_of_readJson {α : Type} {disk : Disk} {path : Path} {reader : Json → Option α}
    {found : α} (read : disk.readJson path reader = .ok found) :
    ∃ content, disk.at? path = some (.file content) ∧
      (Json.parse content).bind reader = some found := by
  unfold readJson Disk.read at read
  split at read
  next => cases read
  next content here =>
    split at here
    next standing stands =>
      cases here
      refine ⟨content, stands, ?_⟩
      split at read
      next value back =>
        cases read
        exact back
      next => cases read
    next => cases here
    next => cases here

/-- What is read from a file that holds a value is read from this value. -/
theorem Disk.of_readJson {α : Type} {disk : Disk} {path : Path} {value : Json}
    {reader : Json → Option α} {found : α} (stands : disk.at? path = some (.file value.pretty))
    (back : value.IsReadBack) (read : disk.readJson path reader = .ok found) :
    reader value = some found := by
  obtain ⟨content, here, said⟩ := content_of_readJson read
  cases stands.symm.trans here
  rwa [back.parse_pretty, Option.bind_some] at said

/-- What is read from a file after a change was read from it before, if the change did not write
it. -/
theorem Disk.readJson_of_apply {α : Type} {disk made : Disk} {change : Change} {path : Path}
    {reader : Json → Option α} {found : α} (ok : change.apply disk = .ok made)
    (other : ∀ content atomic, change ≠ .write path content atomic)
    (read : made.readJson path reader = .ok found) : disk.readJson path reader = .ok found := by
  obtain ⟨content, stands, said⟩ := content_of_readJson read
  have stood := (file_of_apply ok stands).resolve_left fun ⟨atomic, written⟩ =>
    other content atomic written
  rw [readJson, Disk.read, stood]
  simp only [said]

/-- What an image holds can be written and read back. -/
structure Image.Storable (image : Image) : Prop where
  record : ∀ record, image.record = some record → record.Storable
  nodes : ∀ id node, image.nodes.get? id = some node → node.Storable
  checkpoint : ∀ checkpoint, image.checkpoint = some checkpoint → checkpoint.Storable

variable {disk : Disk} {place : Place} {kind : StorageKind} {image : Image}

namespace NodeStore

/-- The files of a directory of nodes are read without a fault. -/
theorem readFiles_spec {directory : Place} {table : NodeTable}
    (holds : HoldsNodes disk directory.path table)
    (storable : ∀ id node, table.get? id = some node → node.Storable) {names : List String}
    (present : ∀ name ∈ names, disk.at? (directory.path ++ [name]) ≠ none) :
    (readFiles disk directory names).faults = [] ∧
      ∀ node, node ∈ (readFiles disk directory names).nodes ↔
        table.get? node.id = some node ∧ fileName node.id ∈ names := by
  induction names with
  | nil => simp [readFiles]
  | cons name rest ih =>
      obtain ⟨here, presentRest⟩ := List.forall_mem_cons.1 present
      obtain ⟨faults, nodes⟩ := ih presentRest
      obtain ⟨id, rfl⟩ : ∃ id, name = fileName id := by
        by_contra foreign
        exact here (holds.others name fun id same => foreign ⟨id, same⟩)
      rw [holds.files] at here
      cases stored : table.get? id with
      | none => simp [stored] at here
      | some node =>
          have fits := storable id node stored
          have number := NodeTable.get?_id stored
          have stands := holds.files id
          rw [stored, ← directory.path_join (isStep_fileName id)] at stands
          have back : Node.ofJson? room node.toJson = some node :=
            Node.ofJson?_toJson fits (by decide)
          have read := Disk.readJson_eq_ok stands (Node.isOrdinary_toJson fits) back
          rw [readFiles, if_pos (isNodeFileName_fileName id)]
          simp only [read]
          refine ⟨faults, ?_⟩
          intro other
          rw [List.mem_cons, nodes, List.mem_cons, fileName_inj]
          constructor
          · rintro (rfl | ⟨there, member⟩)
            · exact ⟨number ▸ stored, .inl number⟩
            · exact ⟨there, .inr member⟩
          · rintro ⟨there, same | member⟩
            · rw [same, stored] at there
              exact .inl (Option.some.inj there).symm
            · exact .inr ⟨there, member⟩

/-- The store of a run whose directory shows an image. -/
def ofImage (place : Place) (hint : Hint) (nodes : NodeTable) : NodeStore :=
  match hint.storageKind with
  | .immediate => openImmediate place hint.writesAtomically
  | .batched => .batched (place.join batchFileName) nodes 0 none

/-- A store is opened with the nodes that the directory of its run shows. -/
theorem ofRun_eq {hint : Hint} (shows : Shows disk place hint.storageKind image)
    (storable : image.Storable) : ofRun disk place hint = ofImage place hint image.nodes := by
  rw [ofRun, ofImage]
  cases kind : hint.storageKind with
  | immediate => rfl
  | batched =>
      rw [kind] at shows
      show openBatched disk place = _
      rw [openBatched]
      rcases shows.nodes with stands | ⟨nothing, empty⟩
      · rw [← path_batchFile] at stands
        have fits : ∀ node ∈ image.nodes.nodes, node.Storable := by
          intro node inside
          exact storable.nodes node.id node ((NodeTable.mem_nodes_iff _ _).1 inside)
        have back : Node.listOfJson? room (.array (image.nodes.nodes.map Node.toJson)) =
            some image.nodes.nodes := Node.listOfJson?_toJson fits (by decide)
        have read := Disk.readJson_eq_ok stands (Node.isOrdinary_listToJson fits) back
        simp only [Disk.exists?, stands, Option.isSome_some, if_true, read,
          NodeTable.ofList_nodes]
      · rw [← path_batchFile] at nothing
        simp [Disk.exists?, nothing, empty]

/-- Every node that the directory of a run shows is loaded, and nothing else. -/
theorem readAll_ofImage {hint : Hint} {machine : Machine}
    (shows : Shows machine.disk place hint.storageKind image) (storable : image.Storable) :
    ∃ nodes, (ofImage place hint image.nodes).readAll machine = .ok ⟨nodes, []⟩ machine ∧
      NodeTable.ofList nodes = image.nodes := by
  rw [ofImage]
  cases kind : hint.storageKind with
  | batched => exact ⟨image.nodes.nodes, rfl, NodeTable.ofList_nodes _⟩
  | immediate =>
      rw [kind] at shows
      have holds : HoldsNodes machine.disk (place.join directoryName).path image.nodes := by
        rw [path_nodeDirectory]
        exact shows.nodes
      rcases holds.stands with stands | ⟨nothing, empty⟩
      · cases listed : machine.disk.names (place.join directoryName).path with
        | error fault => simp [Disk.names, stands] at listed
        | ok names =>
            have members := Disk.mem_names listed
            have spec := readFiles_spec holds storable.nodes fun name inside =>
              (members name).1 inside
            refine ⟨(readFiles machine.disk (place.join directoryName) names).nodes.mergeSort
              fun a b => a.id ≤ b.id, ?_, ?_⟩
            · rw [openImmediate, readAll, Machine.get_bind]
              simp only [listed, spec.1]
              rfl
            · apply NodeTable.ofList_eq
              intro node
              rw [List.mem_mergeSort, spec.2, members, holds.files]
              constructor
              · exact fun found => found.1
              · intro found
                simp [found]
      · refine ⟨[], ?_, by simp [empty]; rfl⟩
        have missing : machine.disk.missing (place.join directoryName).path = .notFound := by
          apply Disk.missing_eq_notFound
          rw [path_nodeDirectory, List.dropLast_concat]
          exact shows.reached.isFree
        have listed : machine.disk.names (place.join directoryName).path = .error .notFound := by
          rw [Disk.names, nothing, missing]
        rw [openImmediate, readAll, Machine.get_bind]
        simp only [listed]
        rfl

end NodeStore

namespace RunFiles

theorem readRecord_eq {record : Record} (shows : Shows disk place kind image)
    (recorded : image.record = some record) (storable : record.Storable) :
    disk.readJson (recordFile place).path Record.ofJson? = .ok record := by
  have stands := shows.record
  rw [recorded, ← path_recordFile] at stands
  exact Disk.readJson_eq_ok stands (Record.isOrdinary_toJson storable)
    (Record.ofJson?_toJson storable)

/-- The record that a directory shows is read. -/
theorem readRecord_eq_ok_of_found {machine : Machine} {record : Record}
    (found : machine.disk.readJson (recordFile place).path Record.ofJson? = .ok record) :
    readRecord place machine = .ok record machine := by
  rw [readRecord, Machine.readJson_eq, found]

theorem readRecord_eq_ok {machine : Machine} {record : Record}
    (shows : Shows machine.disk place kind image) (recorded : image.record = some record)
    (storable : record.Storable) : readRecord place machine = .ok record machine :=
  readRecord_eq_ok_of_found (readRecord_eq shows recorded storable)

theorem checkpointOn_eq (shows : Shows disk place kind image)
    (storable : ∀ checkpoint, image.checkpoint = some checkpoint → checkpoint.Storable) :
    checkpointOn disk place = .ok image.checkpoint := by
  have stands := shows.checkpoint
  rw [← path_checkpointFile] at stands
  rw [checkpointOn]
  cases there : image.checkpoint with
  | none =>
      rw [there] at stands
      simp [Disk.exists?, stands]
  | some checkpoint =>
      rw [there] at stands
      have fits := storable checkpoint there
      have read := Disk.readJson_eq_ok stands (Checkpoint.isOrdinary_toJson fits)
        (Checkpoint.ofJson?_toJson fits)
      simp [Disk.exists?, stands, read]

end RunFiles

namespace Run

/-- To open a run is to open it with a report, and to drop the report. -/
theorem openAt_eq_ok_iff [Numbering] {machine after : Machine} {run : Run} :
    openAt place machine = .ok run after ↔
      ∃ report, openReporting place machine = .ok (run, report) after := by
  constructor
  · intro opens
    obtain ⟨⟨_, report⟩, between, reports, gives⟩ := bind_eq_ok.1 opens
    cases gives
    exact ⟨report, reports⟩
  · rintro ⟨report, reports⟩
    exact bind_eq_ok.2 ⟨_, _, reports, rfl⟩

/-- What an opened run has beside its record, its nodes and its continuation depends only on
the table of the nodes. -/
theorem restored_congr [Numbering] (place : Place) (record : Record) (store : NodeStore)
    {nodes others : List Node} (checkpoint : Option Checkpoint)
    (same : NodeTable.ofList nodes = NodeTable.ofList others) :
    restored place record store nodes checkpoint =
      restored place record store others checkpoint := by
  simp only [restored, Graph.ofParts, same]

/-- The run that is opened where a directory shows a record, nodes and a continuation. -/
def ofImage (place : Place) (record : Record) (nodes : NodeTable)
    (checkpoint : Option Checkpoint) : Run :=
  restored place record (NodeStore.ofImage place record.hint nodes) nodes.nodes checkpoint

/-- A directory that shows an image is opened with it, without a fault, and nothing else in
the machine matters. -/
theorem openReporting_eq {machine : Machine} {record : Record}
    (shows : Shows machine.disk place record.hint.storageKind image)
    (recorded : image.record = some record) (storable : image.Storable) :
    openReporting place machine =
      .ok (ofImage place record image.nodes image.checkpoint,
        { nodeFaults := []
          missingHeads := record.heads.filter fun head =>
            !(ofImage place record image.nodes image.checkpoint).graph.contains head
          checkpointFault := none }) machine := by
  have record := RunFiles.readRecord_eq shows recorded (storable.record _ recorded)
  have checkpoint := RunFiles.checkpointOn_eq shows storable.checkpoint
  have store := NodeStore.ofRun_eq shows storable
  obtain ⟨nodes, loaded, table⟩ := NodeStore.readAll_ofImage shows storable
  have same : NodeTable.ofList nodes = NodeTable.ofList image.nodes.nodes :=
    table.trans (NodeTable.ofList_nodes _).symm
  have got : (get : MachineM Machine) machine = .ok machine machine := rfl
  simp only [openReporting, RunFiles.readRecord, Machine.readJson, bind, EStateM.bind, got, record,
    pure, EStateM.pure, store, loaded, checkpoint]
  rw [restored_congr _ _ _ _ same]
  rfl

theorem openAt_eq {machine : Machine} {record : Record}
    (shows : Shows machine.disk place record.hint.storageKind image)
    (recorded : image.record = some record) (storable : image.Storable) :
    openAt place machine = .ok (ofImage place record image.nodes image.checkpoint) machine := by
  simp only [openAt, bind, EStateM.bind, openReporting_eq shows recorded storable]
  rfl

/-- A run that is opened with the nodes and the heads of a well-formed graph has this graph. -/
theorem graph_ofImage (place : Place) {record : Record} {graph : Graph} (well : graph.WellFormed)
    (heads : record.heads = graph.heads) (checkpoint : Option Checkpoint) :
    (ofImage place record graph.table checkpoint).graph = graph := by
  have whole : Graph.ofParts graph.table.nodes record.heads = graph := by
    rw [heads]
    exact well.ofParts_eq
  simp only [ofImage, restored, whole, well.usableHeads_eq]

/-- A store that has what an image shows has nothing else. -/
theorem kept_ofImage {run : Run} {place : Place} {hint : Hint}
    (store : run.store = NodeStore.ofImage place hint image.nodes) :
    run.kept image = image.nodes := by
  rw [kept, store, NodeStore.ofImage]
  cases hint.storageKind with
  | immediate => rfl
  | batched => rfl

theorem storeKnows_ofImage {run : Run}
    (store : run.store = NodeStore.ofImage run.place run.hint image.nodes) :
    StoreKnows run image := by
  rw [StoreKnows, store, NodeStore.ofImage]
  cases kind : run.hint.storageKind with
  | immediate => exact ⟨rfl, rfl⟩
  | batched => exact ⟨rfl, rfl, fun _ => rfl⟩

end Run

end DurableRuns
