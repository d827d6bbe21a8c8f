/-
# DurableRuns.Proofs.Run.Directory -- what the directory of a run shows

An `Image` is what the directory of a run holds: its record, its nodes and its continuation.
`Shows` says that a disk shows an image at a place, file by file and with nothing else that
could be taken for a node.  Each file operation of a run changes the image at one point, and
goes through unless the device refuses it.
-/
import DurableRuns.Proofs.Disk.Entries
import DurableRuns.Proofs.Disk.Places
import DurableRuns.Proofs.Flow.Table

namespace DurableRuns

set_option autoImplicit false

open NodeStore (directoryName batchFileName fileName)

/-- What the directory of a run holds. -/
structure Image where
  record : Option Record
  nodes : NodeTable
  checkpoint : Option Checkpoint

namespace Image

/-- What an empty directory holds. -/
def blank : Image := ⟨none, .empty, none⟩

end Image

/-- A directory holds one file for each node, and nothing else. -/
structure HoldsNodes (disk : Disk) (directory : Path) (table : NodeTable) : Prop where
  stands : disk.at? directory = some .directory ∨
    disk.at? directory = none ∧ table = .empty
  files : ∀ id, disk.at? (directory ++ [fileName id]) =
    (table.get? id).map fun node => .file node.toJson.pretty
  others : ∀ name, (∀ id, name ≠ fileName id) → disk.at? (directory ++ [name]) = none

namespace HoldsNodes

variable {disk : Disk} {directory : Path} {table : NodeTable}

/-- The directory of the nodes comes with its first file, so it may not be there yet. -/
theorem isFree {above : Path} {name : String} (holds : HoldsNodes disk (above ++ [name]) table)
    (reached : disk.IsReached above) : disk.IsFree (above ++ [name]) := by
  intro path up content stands
  rcases List.prefix_concat_iff.1 up with rfl | higher
  · rcases holds.stands with directory | ⟨nothing, -⟩
    · cases directory.symm.trans stands
    · cases nothing.symm.trans stands
  · exact reached.isFree path higher content stands

theorem isVacant (holds : HoldsNodes disk directory table) (id : Nat) :
    disk.at? (directory ++ [fileName id]) ≠ some .directory := by
  rw [holds.files]
  cases table.get? id <;> simp

/-- A node whose file is written is put into the table. -/
theorem insert {written : Disk} {node : Node} (holds : HoldsNodes disk directory table)
    (ok : disk.write (directory ++ [fileName node.id]) node.toJson.pretty = .ok written) :
    HoldsNodes written directory (table.insert node) := by
  have inside (name : String) : written.at? (directory ++ [name]) =
      if name = fileName node.id then some (.file node.toJson.pretty)
      else disk.at? (directory ++ [name]) := by
    rw [Disk.at?_write ok, List.dropLast_concat, if_neg (Disk.not_concat_prefix _ _)]
    simp
  constructor
  case stands => exact .inl (Disk.isReached_of_write ok _ (List.prefix_refl _))
  case files =>
    intro id
    rw [inside, NodeTable.get?_insert]
    by_cases same : id = node.id
    · simp [same]
    · simp only [NodeStore.fileName_inj, same, if_false]
      exact holds.files id
  case others =>
    intro name foreign
    rw [inside, if_neg (foreign node.id)]
    exact holds.others name foreign

end HoldsNodes

/-- A file holds the nodes of a table; no file holds none. -/
def HoldsBatch (disk : Disk) (file : Path) (table : NodeTable) : Prop :=
  disk.at? file = some (.file (Json.array (table.nodes.map Node.toJson)).pretty) ∨
    disk.at? file = none ∧ table = .empty

/-- The name under which a run keeps its nodes. -/
def StorageKind.tableName : StorageKind → String
  | .immediate => directoryName
  | .batched => batchFileName

/-- The directory of a run holds the nodes of a table. -/
def HoldsTable (disk : Disk) (place : Place) : StorageKind → NodeTable → Prop
  | .immediate => HoldsNodes disk (place.path ++ [directoryName])
  | .batched => HoldsBatch disk (place.path ++ [batchFileName])

/-- A disk shows an image at the place of a run. -/
structure Shows (disk : Disk) (place : Place) (kind : StorageKind) (image : Image) : Prop where
  reached : disk.IsReached place.path
  record : disk.at? (place.path ++ ["execution.json"]) =
    image.record.map fun record => .file record.toJson.pretty
  checkpoint : disk.at? (place.path ++ ["program.json"]) =
    image.checkpoint.map fun checkpoint => .file checkpoint.toJson.pretty
  nodes : HoldsTable disk place kind image.nodes

variable {disk : Disk} {place : Place} {kind : StorageKind} {image : Image}

/-- Only what stands under the name of the table counts. -/
theorem HoldsTable.congr {other : Disk} {table : NodeTable}
    (same : ∀ below, other.at? (place.path ++ kind.tableName :: below) =
      disk.at? (place.path ++ kind.tableName :: below))
    (holds : HoldsTable disk place kind table) : HoldsTable other place kind table := by
  have here := same []
  cases kind with
  | immediate =>
      have inside (name : String) : other.at? (place.path ++ [directoryName] ++ [name]) =
          disk.at? (place.path ++ [directoryName] ++ [name]) := by
        simpa [StorageKind.tableName] using same [name]
      constructor
      case stands => exact here ▸ holds.stands
      case files =>
        intro id
        rw [inside]
        exact holds.files id
      case others =>
        intro name foreign
        rw [inside]
        exact holds.others name foreign
  | batched =>
      unfold HoldsTable HoldsBatch at holds ⊢
      exact here ▸ holds

namespace Shows

/-- An empty directory shows the blank image. -/
theorem of_empty (reached : disk.IsReached place.path)
    (nothing : ∀ path, place.path <+: path → path ≠ place.path → disk.at? path = none) :
    Shows disk place kind .blank := by
  have below (name : String) (rest : List String) : disk.at? (place.path ++ name :: rest) = none :=
    nothing _ (List.prefix_append ..) (by simp)
  constructor
  case reached => exact reached
  case record => exact below _ _
  case checkpoint => exact below _ _
  case nodes =>
    cases kind with
    | batched => exact .inr ⟨below _ _, rfl⟩
    | immediate =>
        have inside (name : String) :
            disk.at? (place.path ++ [directoryName] ++ [name]) = none := by
          simpa using below directoryName [name]
        exact ⟨.inr ⟨below _ _, rfl⟩, fun id => inside _, fun name _ => inside name⟩

/-- What a place shows is told by what stands above, at and below it. -/
theorem congr {other : Disk} (shows : Shows disk place kind image)
    (same : ∀ path, place.path <+: path ∨ path <+: place.path → other.at? path = disk.at? path) :
    Shows other place kind image := by
  constructor
  case reached => exact fun above up => (same above (.inr up)).trans (shows.reached above up)
  case record => exact (same _ (.inl (List.prefix_append ..))).trans shows.record
  case checkpoint => exact (same _ (.inl (List.prefix_append ..))).trans shows.checkpoint
  case nodes => exact shows.nodes.congr fun below => same _ (.inl (List.prefix_append ..))

/-! ## Changes -/

/-- Nothing but what stands under one name of the directory is changed. -/
def SameBut (disk other : Disk) (place : Place) (name : String) : Prop :=
  ∀ path, path ≠ place.path ++ [name] → other.at? path = disk.at? path

variable {other : Disk} {name : String}

theorem reached_of_sameBut (shows : Shows disk place kind image)
    (same : SameBut disk other place name) : other.IsReached place.path := by
  intro above up
  have different : above ≠ place.path ++ [name] := by
    rintro rfl
    exact Disk.not_concat_prefix _ _ up
  rw [same above different]
  exact shows.reached above up

theorem nodes_of_sameBut (shows : Shows disk place kind image)
    (same : SameBut disk other place name) (apart : kind.tableName ≠ name) :
    HoldsTable other place kind image.nodes := by
  refine shows.nodes.congr fun below => ?_
  apply same
  simp [apart]

theorem at?_of_sameBut (same : SameBut disk other place name) {sibling : String}
    (apart : sibling ≠ name) :
    other.at? (place.path ++ [sibling]) = disk.at? (place.path ++ [sibling]) := by
  apply same
  simpa using apart

theorem tableName_ne (kind : StorageKind) :
    kind.tableName ≠ "execution.json" ∧ kind.tableName ≠ "program.json" := by
  cases kind <;> decide

/-- A file can be written in the directory where no directory stands. -/
theorem write (shows : Shows disk place kind image)
    (vacant : disk.at? (place.path ++ [name]) ≠ some .directory) (content : Bytes) :
    ∃ written, disk.write (place.path ++ [name]) content = .ok written ∧
      SameBut disk written place name ∧
      written.at? (place.path ++ [name]) = some (.file content) := by
  obtain ⟨written, ok⟩ := Disk.write_succeeds_of_isReached shows.reached vacant content
  have after := Disk.at?_write_of_isReached shows.reached ok
  refine ⟨written, ok, ?_, by simp [after]⟩
  intro path different
  rw [after, if_neg different]

/-- The record can be written. -/
theorem writeRecord (shows : Shows disk place kind image) (record : Record) :
    ∃ written, disk.write (RunFiles.recordFile place).path record.toJson.pretty = .ok written ∧
      Shows written place kind { image with record := some record } := by
  rw [RunFiles.path_recordFile]
  have vacant : disk.at? (place.path ++ ["execution.json"]) ≠ some .directory := by
    rw [shows.record]
    cases image.record <;> simp
  obtain ⟨written, ok, same, here⟩ := shows.write vacant record.toJson.pretty
  refine ⟨written, ok, shows.reached_of_sameBut same, here, ?_, ?_⟩
  · exact (at?_of_sameBut same (by decide)).trans shows.checkpoint
  · exact shows.nodes_of_sameBut same (tableName_ne kind).1

/-- The continuation can be written. -/
theorem writeCheckpoint (shows : Shows disk place kind image) (checkpoint : Checkpoint) :
    ∃ written,
      disk.write (RunFiles.checkpointFile place).path checkpoint.toJson.pretty = .ok written ∧
      Shows written place kind { image with checkpoint := some checkpoint } := by
  rw [RunFiles.path_checkpointFile]
  have vacant : disk.at? (place.path ++ ["program.json"]) ≠ some .directory := by
    rw [shows.checkpoint]
    cases image.checkpoint <;> simp
  obtain ⟨written, ok, same, here⟩ := shows.write vacant checkpoint.toJson.pretty
  refine ⟨written, ok, shows.reached_of_sameBut same, ?_, here, ?_⟩
  · exact (at?_of_sameBut same (by decide)).trans shows.record
  · exact shows.nodes_of_sameBut same (tableName_ne kind).2

/-- Where the continuation was removed there is none. -/
theorem of_removeCheckpoint (shows : Shows disk place kind image) {removed : Disk}
    (ok : disk.remove (RunFiles.checkpointFile place).path = .ok removed) :
    Shows removed place kind { image with checkpoint := none } := by
  rw [RunFiles.path_checkpointFile] at ok
  have after := Disk.at?_remove ok
  have same : SameBut disk removed place "program.json" := by
    intro path different
    rw [after, if_neg different]
  refine ⟨shows.reached_of_sameBut same, ?_, by simp [after], ?_⟩
  · exact (at?_of_sameBut same (by decide)).trans shows.record
  · exact shows.nodes_of_sameBut same (tableName_ne kind).2

/-- A continuation that is there can be removed. -/
theorem removeCheckpoint (shows : Shows disk place kind image) {checkpoint : Checkpoint}
    (there : image.checkpoint = some checkpoint) :
    ∃ removed, disk.remove (RunFiles.checkpointFile place).path = .ok removed ∧
      Shows removed place kind { image with checkpoint := none } := by
  have stands := shows.checkpoint
  rw [there, ← RunFiles.path_checkpointFile] at stands
  obtain ⟨removed, ok⟩ := Disk.remove_succeeds stands
  exact ⟨removed, ok, shows.of_removeCheckpoint ok⟩

/-- The file of all nodes can be written. -/
theorem writeBatch (shows : Shows disk place .batched image) (table : NodeTable) :
    ∃ written,
      disk.write (place.join batchFileName).path
        (Json.array (table.nodes.map Node.toJson)).pretty = .ok written ∧
      Shows written place .batched { image with nodes := table } := by
  rw [NodeStore.path_batchFile]
  have vacant : disk.at? (place.path ++ [batchFileName]) ≠ some .directory := by
    rcases shows.nodes with stands | ⟨nothing, -⟩
    · simp [stands]
    · simp [nothing]
  obtain ⟨written, ok, same, here⟩ :=
    shows.write vacant (Json.array (table.nodes.map Node.toJson)).pretty
  refine ⟨written, ok, shows.reached_of_sameBut same, ?_, ?_, .inl here⟩
  · exact (at?_of_sameBut same (by decide)).trans shows.record
  · exact (at?_of_sameBut same (by decide)).trans shows.checkpoint

/-- The file of a node can be written. -/
theorem writeNode (shows : Shows disk place .immediate image) (node : Node) :
    ∃ written,
      disk.write (NodeStore.nodeFile (place.join directoryName) node.id).path
        node.toJson.pretty = .ok written ∧
      Shows written place .immediate { image with nodes := image.nodes.insert node } := by
  rw [NodeStore.path_nodeFile, NodeStore.path_nodeDirectory]
  have nodes : HoldsNodes disk (place.path ++ [directoryName]) image.nodes := shows.nodes
  obtain ⟨written, ok⟩ := Disk.write_succeeds (by simp)
    (by rw [List.dropLast_concat]; exact nodes.isFree shows.reached) (nodes.isVacant node.id)
    node.toJson.pretty
  have sibling {name : String} (apart : name ≠ directoryName) :
      written.at? (place.path ++ [name]) = disk.at? (place.path ++ [name]) := by
    rw [Disk.at?_write ok, List.dropLast_concat, if_neg (by simp [apart]), if_neg]
    intro up
    rcases List.prefix_concat_iff.1 up with here | higher
    · simp [apart] at here
    · exact Disk.not_concat_prefix _ _ higher
  refine ⟨written, ok, ?_⟩
  constructor
  case reached =>
    intro above up
    exact Disk.isReached_of_write ok above (up.trans (List.prefix_append ..))
  case record => exact (sibling (by decide)).trans shows.record
  case checkpoint => exact (sibling (by decide)).trans shows.checkpoint
  case nodes => exact nodes.insert ok

end Shows
end DurableRuns
