/-
# DurableRuns.Proofs.Recovery.Torn -- a torn file is noticed

A file that is rewritten in place is torn if the process is killed in the midst of it: some of its
first bytes are there, and the others are not.  Nothing that the library writes is read from a
torn file (`Json.IsTornFrom`), and so a recovery notices: it skips a run with a torn record, and
closes as failed a run with a torn continuation or with a torn head, in each case without a call
of the resumer (`Coordinator.torn_files_are_noticed`).

`Disk.HoldsRun` says what the directory of a run is, and every directory that runs leave is one,
whatever was refused or killed before (`Left.holdsRun`).
-/
import DurableRuns.Proofs.Json.Torn
import DurableRuns.Proofs.Recovery.Alone
import DurableRuns.Proofs.Recovery.Deeds
import DurableRuns.Proofs.Storage.Listing

namespace DurableRuns

set_option autoImplicit false

open NodeStore (directoryName nodeFile fileName room)
open Run RunM

/-- Some of the first bytes of a content, but not all. -/
def Json.IsTornFrom (torn whole : Bytes) : Prop := torn <+: whole ∧ torn ≠ whole

/-- A machine in which a file has another content. -/
def Machine.withFile (machine : Machine) (path : Path) (content : Bytes) : Machine :=
  { machine with disk := machine.disk.set path (.file content) }

/-- The directory of a run that has not ended: its record stands as it was written; and if the run
writes its nodes one by one, they can be listed, and a node that is read there stands where its
number tells. -/
structure Disk.HoldsRun (disk : Disk) (place : Place) (record : Record) : Prop where
  recorded : disk.at? (RunFiles.recordFile place).path = some (.file record.toJson.pretty)
  storable : record.Storable
  unfinished : record.isComplete = false
  listed : record.hint.storageKind = .immediate → ∀ fault,
    disk.names (place.join directoryName).path = .error fault → fault = .notFound
  placed : record.hint.storageKind = .immediate → ∀ name node,
    disk.at? ((place.join directoryName).path ++ [name]) ≠ none →
      disk.readJson ((place.join directoryName).join name).path (Node.ofJson? room) = .ok node →
        ((place.join directoryName).join name).path =
          (nodeFile (place.join directoryName) node.id).path

section Torn

variable {disk : Disk} {place : Place} {path other : Path} {content torn : Bytes} {record : Record}

/-! ## Files with another content -/

namespace Disk

theorem ne_root_of_file (stands : disk.at? path = some (.file content)) : path ≠ [] := by
  rintro rfl
  cases stands

/-- A file with another content is a file still. -/
theorem hasFileAbove_set (stands : disk.at? path = some (.file content)) (base : Path)
    (names : List String) :
    (disk.set path (.file torn)).hasFileAbove base names = disk.hasFileAbove base names := by
  induction names generalizing base with
  | nil => rfl
  | cons name rest ih =>
      rw [hasFileAbove, hasFileAbove, ih, at?_set disk (ne_root_of_file stands)]
      by_cases here : base = path
      · rw [if_pos here, here, stands]
      · rw [if_neg here]

/-- The names in a directory cannot be told for the same reason. -/
theorem names_set (stands : disk.at? path = some (.file content)) {directory : Path}
    {fault : DiskFault}
    (fails : (disk.set path (.file torn)).names directory = .error fault) :
    disk.names directory = .error fault := by
  unfold Disk.names missing at fails ⊢
  rw [at?_set disk (ne_root_of_file stands), hasFileAbove_set stands] at fails
  by_cases here : directory = path
  · rw [if_pos here] at fails
    rw [here, stands]
    exact fails
  · rw [if_neg here] at fails
    cases there : disk.at? directory with
    | none =>
        rw [there] at fails
        exact fails
    | some entry =>
        rw [there] at fails
        cases entry with
        | file => exact fails
        | directory => cases fails

/-- What is read from another file is read as before. -/
theorem readJson_of_set {α : Type} {reader : Json → Option α} {found : α}
    (below : path ≠ []) (apart : other ≠ path)
    (read : (disk.set path (.file torn)).readJson other reader = .ok found) :
    disk.readJson other reader = .ok found := by
  obtain ⟨whole, stands, back⟩ := content_of_readJson read
  rw [at?_set disk below, if_neg apart] at stands
  rw [readJson, Disk.read, stands]
  simp only [back]

/-- Nothing is read from a file that does not parse. -/
theorem readJson_eq_malformed {α : Type} {reader : Json → Option α}
    (stands : disk.at? path = some (.file content)) (unparsed : Json.parse content = none) :
    disk.readJson path reader = .error .malformed := by
  rw [readJson, Disk.read, stands]
  simp [unparsed]

end Disk

namespace Json

theorem IsTornFrom.take {whole : Bytes} {count : Nat} (short : count < whole.length) :
    IsTornFrom (whole.take count) whole := by
  refine ⟨List.take_prefix _ _, fun same => ?_⟩
  have lengths := congrArg List.length same
  rw [List.length_take] at lengths
  omega

/-- No part of a written node is parsed. -/
theorem IsTornFrom.parse_node {node : Node} (cut : IsTornFrom torn node.toJson.pretty) :
    parse torn = none :=
  node.isReadBack_toJson.parse_torn cut.1 cut.2

theorem IsTornFrom.parse_record (cut : IsTornFrom torn record.toJson.pretty) :
    parse torn = none :=
  record.isReadBack_toJson.parse_torn cut.1 cut.2

theorem IsTornFrom.parse_checkpoint {checkpoint : Checkpoint}
    (cut : IsTornFrom torn checkpoint.toJson.pretty) : parse torn = none :=
  checkpoint.isReadBack_toJson.parse_torn cut.1 cut.2

end Json

/-! ## Runs with a torn file -/

namespace Coordinator

variable {machine : Machine} {coordinator : Coordinator}

/-- A run with a torn record is left alone. -/
theorem skips_torn_record (coordinator : Coordinator)
    (stands : machine.disk.at? (RunFiles.recordFile place).path = some (.file content))
    (cut : Json.IsTornFrom torn record.toJson.pretty) :
    ∃ report kept after,
      coordinator.recoverRun place (machine.withFile (RunFiles.recordFile place).path torn) =
        .ok (report, kept) after ∧
      (∃ reason, report.outcome = .skipped reason) ∧ report.call = none := by
  by_cases claimed : place.path ∈ coordinator.claimed
  · rw [recoverRun, if_pos claimed]
    exact ⟨_, _, _, rfl, ⟨_, rfl⟩, rfl⟩
  · have here : (machine.withFile (RunFiles.recordFile place).path torn).disk.at?
        (RunFiles.recordFile place).path = some (.file torn) :=
      (Disk.at?_set _ (Disk.ne_root_of_file stands) _ _).trans (if_pos rfl)
    have unopened : openReporting place (machine.withFile (RunFiles.recordFile place).path torn) =
        .error (ReadFault.toError .malformed)
          (machine.withFile (RunFiles.recordFile place).path torn) := by
      simp only [openReporting, RunFiles.readRecord, Machine.readJson_eq, bind, EStateM.bind,
        Disk.readJson_eq_malformed here cut.parse_record]
    exact ⟨_, _, _, recoverRun_eq_takeOn claimed (takeOn_eq_of_error coordinator unopened _),
      ⟨_, rfl⟩, rfl⟩

/-- A run whose record is whole is closed if another file of it does not let it be resumed. -/
theorem closes_torn (holds : machine.disk.HoldsRun place record)
    (stands : machine.disk.at? path = some (.file content))
    (apart : (RunFiles.recordFile place).path ≠ path) (unclaimed : place.path ∉ coordinator.claimed)
    (unfit : ∀ loaded checkpoint,
      (NodeStore.ofRun (machine.withFile path torn).disk place record.hint).readAll
        (machine.withFile path torn) = .ok loaded (machine.withFile path torn) →
      ¬ Resumable record coordinator.termination loaded.nodes (machine.withFile path torn).disk
          place checkpoint) :
    ∃ report kept after,
      coordinator.recoverRun place (machine.withFile path torn) = .ok (report, kept) after ∧
      (∃ reason, report.outcome = .failed reason) ∧ report.call = none := by
  have recorded : (machine.withFile path torn).disk.at? (RunFiles.recordFile place).path =
      some (.file record.toJson.pretty) :=
    (Disk.at?_set _ (Disk.ne_root_of_file stands) _ _).trans ((if_neg apart).trans holds.recorded)
  have read := RunFiles.readRecord_eq_ok_of_found (Disk.readJson_eq_ok recorded
    (Record.isOrdinary_toJson holds.storable) (Record.ofJson?_toJson holds.storable))
  obtain ⟨loaded, lists⟩ := NodeStore.readAll_returns (machine.withFile path torn) place
    record.hint fun immediate fault fails =>
      holds.listed immediate fault (Disk.names_set stands fails)
  obtain ⟨report, after, recovers, refused⟩ := recoverRun_refuses (openReporting_of_reads read lists)
    rfl rfl ((Phase.isComplete_ofRecord record).trans holds.unfinished) unclaimed
    fun ⟨checkpoint, resumable⟩ => unfit loaded checkpoint lists resumable
  obtain ⟨obstacle, -, failed, -⟩ := refused.closed
  exact ⟨report, _, after, recovers, ⟨_, failed⟩, refused.call⟩

theorem closes_torn_checkpoint {checkpoint : Checkpoint}
    (holds : machine.disk.HoldsRun place record)
    (stands : machine.disk.at? (RunFiles.checkpointFile place).path =
      some (.file checkpoint.toJson.pretty))
    (cut : Json.IsTornFrom torn checkpoint.toJson.pretty)
    (unclaimed : place.path ∉ coordinator.claimed) :
    ∃ report kept after,
      coordinator.recoverRun place (machine.withFile (RunFiles.checkpointFile place).path torn) =
        .ok (report, kept) after ∧
      (∃ reason, report.outcome = .failed reason) ∧ report.call = none := by
  have apart : (RunFiles.recordFile place).path ≠ (RunFiles.checkpointFile place).path := by
    rw [RunFiles.path_recordFile, RunFiles.path_checkpointFile]
    simp
  have here : (machine.withFile (RunFiles.checkpointFile place).path torn).disk.at?
      (RunFiles.checkpointFile place).path = some (.file torn) :=
    (Disk.at?_set _ (Disk.ne_root_of_file stands) _ _).trans (if_pos rfl)
  refine closes_torn holds stands apart unclaimed fun loaded other _ resumable => ?_
  cases (Disk.readJson_eq_malformed here cut.parse_checkpoint).symm.trans resumable.continuation

/-- Without the file of a head its node is not among those that are listed. -/
theorem closes_torn_head {node : Node} (holds : machine.disk.HoldsRun place record)
    (immediate : record.hint.storageKind = .immediate) (head : node.id ∈ record.heads)
    (stands : machine.disk.at? (nodeFile (place.join directoryName) node.id).path =
      some (.file node.toJson.pretty))
    (cut : Json.IsTornFrom torn node.toJson.pretty) (unclaimed : place.path ∉ coordinator.claimed) :
    ∃ report kept after,
      coordinator.recoverRun place
          (machine.withFile (nodeFile (place.join directoryName) node.id).path torn) =
        .ok (report, kept) after ∧
      (∃ reason, report.outcome = .failed reason) ∧ report.call = none := by
  have apart : (RunFiles.recordFile place).path ≠
      (nodeFile (place.join directoryName) node.id).path := by
    rw [RunFiles.path_recordFile, NodeStore.path_nodeFile, NodeStore.path_nodeDirectory]
    simp
  have below := Disk.ne_root_of_file stands
  refine closes_torn holds stands apart unclaimed fun loaded checkpoint lists resumable => ?_
  obtain ⟨other, inside, same⟩ := resumable.heads_loaded node.id head
  rw [NodeStore.ofRun, immediate] at lists
  obtain ⟨name, present, read⟩ := NodeStore.exists_file_of_mem_readAll lists inside
  by_cases here : ((place.join directoryName).join name).path =
      (nodeFile (place.join directoryName) node.id).path
  -- In the file of the head there is nothing to be read.
  · rw [here] at read
    have cutShort := (Disk.at?_set machine.disk below (.file torn) _).trans (if_pos rfl)
    cases (Disk.readJson_eq_malformed cutShort cut.parse_node).symm.trans read
  -- What is read from another file was read from it before, and is no head.
  · have there : machine.disk.at? ((place.join directoryName).path ++ [name]) ≠ none := by
      rw [Machine.withFile, Disk.at?_set _ below] at present
      split at present
      next at_head =>
        rw [at_head, stands]
        simp
      next => exact present
    have placed := holds.placed immediate name other there (Disk.readJson_of_set below here read)
    rw [same] at placed
    exact here placed

end Coordinator

/-! ## The directories that runs leave -/

/-- The names in a directory of nodes can be told, if it is there. -/
theorem HoldsNodes.names_fault {directory : Path} {table : NodeTable} {fault : DiskFault}
    (holds : HoldsNodes disk directory table) (free : disk.IsFree directory.dropLast)
    (fails : disk.names directory = .error fault) : fault = .notFound := by
  rcases holds.stands with stands | ⟨nothing, -⟩
  · rw [Disk.names, stands] at fails
    cases fails
  · rw [Disk.names, nothing, Disk.missing_eq_notFound free] at fails
    exact (Except.error.inj fails).symm

/-- A node that is read in a directory of nodes stands where its number tells. -/
theorem HoldsNodes.placed {directory : Place} {table : NodeTable} {name : String} {node : Node}
    (holds : HoldsNodes disk directory.path table)
    (storable : ∀ id node, table.get? id = some node → node.Storable)
    (present : disk.at? (directory.path ++ [name]) ≠ none)
    (read : disk.readJson (directory.join name).path (Node.ofJson? room) = .ok node) :
    (directory.join name).path = (nodeFile directory node.id).path := by
  obtain ⟨id, rfl⟩ : ∃ id, name = fileName id := by
    by_contra foreign
    exact present (holds.others name fun id same => foreign ⟨id, same⟩)
  rw [holds.files] at present
  cases stored : table.get? id with
  | none => simp [stored] at present
  | some written =>
      have fits := storable id written stored
      have stands := holds.files id
      rw [stored, ← directory.path_join (NodeStore.isStep_fileName id)] at stands
      have back : Node.ofJson? room written.toJson = some written :=
        Node.ofJson?_toJson fits (by decide)
      cases (Disk.readJson_eq_ok stands (Node.isOrdinary_toJson fits) back).symm.trans read
      rw [NodeTable.get?_id stored]
      rfl

/-- Whatever became of the processes that drove a run: as long as its record does not say that it
has ended, they left the directory of a run. -/
theorem Left.holdsRun (left : Left place disk)
    (read : disk.readJson (RunFiles.recordFile place).path Record.ofJson? = .ok record)
    (unfinished : record.isComplete = false) : disk.HoldsRun place record := by
  obtain ⟨content, there, -⟩ := Disk.content_of_readJson read
  rw [RunFiles.path_recordFile] at there
  rcases left.remains with vacant | ⟨hint, bound, small, image, shows, orderly⟩
  · cases (vacant _ (List.prefix_append ..) (by simp)).symm.trans there
  · have storable := orderly.storable small
    cases recorded : image.record with
    | none =>
        have nothing := shows.record
        rw [recorded] at nothing
        cases nothing.symm.trans there
    | some written =>
        have fits := storable.record written recorded
        cases (RunFiles.readRecord_eq shows recorded fits).symm.trans read
        obtain rfl := (orderly.record record recorded).hint_eq
        have nodes (immediate : record.hint.storageKind = .immediate) :
            HoldsNodes disk (place.join directoryName).path image.nodes := by
          have holds := shows.nodes
          rw [immediate] at holds
          rw [NodeStore.path_nodeDirectory]
          exact holds
        constructor
        case recorded =>
          rw [RunFiles.path_recordFile, shows.record, recorded]
          rfl
        case storable => exact fits
        case unfinished => exact unfinished
        case listed =>
          intro immediate fault fails
          refine (nodes immediate).names_fault ?_ fails
          rw [NodeStore.path_nodeDirectory, List.dropLast_concat]
          exact shows.reached.isFree
        case placed =>
          intro immediate name node present back
          exact (nodes immediate).placed storable.nodes present back

namespace Coordinator

/-- **A torn file is noticed.**  Of a node, a record or a continuation that is cut short nothing is
read.  If the record of a run that has not ended is cut short, a recovery leaves the run alone; if
it is its continuation, or the file of a head that was written by itself, a recovery closes the run
as failed.  In no case the resumer is called.  This goes for all directories that runs leave. -/
theorem torn_files_are_noticed :
    (∀ (disk : Disk) (path : Path) (torn : Bytes), disk.at? path = some (.file torn) →
      (∀ node : Node, Json.IsTornFrom torn node.toJson.pretty →
        disk.readJson path (Node.ofJson? room) = .error .malformed) ∧
      (∀ record : Record, Json.IsTornFrom torn record.toJson.pretty →
        disk.readJson path Record.ofJson? = .error .malformed) ∧
      ∀ checkpoint : Checkpoint, Json.IsTornFrom torn checkpoint.toJson.pretty →
        disk.readJson path Checkpoint.ofJson? = .error .malformed) ∧
    (∀ (disk : Disk) (place : Place) (record : Record), Left place disk →
      disk.readJson (RunFiles.recordFile place).path Record.ofJson? = .ok record →
      record.isComplete = false → disk.HoldsRun place record) ∧
    ∀ (coordinator : Coordinator) (machine : Machine) (place : Place) (record : Record)
      (torn : Bytes), machine.disk.HoldsRun place record →
      (Json.IsTornFrom torn record.toJson.pretty → ∃ report kept after,
        coordinator.recoverRun place (machine.withFile (RunFiles.recordFile place).path torn) =
          .ok (report, kept) after ∧
        (∃ reason, report.outcome = .skipped reason) ∧ report.call = none) ∧
      (place.path ∉ coordinator.claimed →
        (∀ checkpoint : Checkpoint, machine.disk.at? (RunFiles.checkpointFile place).path =
            some (.file checkpoint.toJson.pretty) →
          Json.IsTornFrom torn checkpoint.toJson.pretty → ∃ report kept after,
            coordinator.recoverRun place
                (machine.withFile (RunFiles.checkpointFile place).path torn) =
              .ok (report, kept) after ∧
            (∃ reason, report.outcome = .failed reason) ∧ report.call = none) ∧
        ∀ node : Node, record.hint.storageKind = .immediate → node.id ∈ record.heads →
          machine.disk.at? (nodeFile (place.join directoryName) node.id).path =
            some (.file node.toJson.pretty) →
          Json.IsTornFrom torn node.toJson.pretty → ∃ report kept after,
            coordinator.recoverRun place
                (machine.withFile (nodeFile (place.join directoryName) node.id).path torn) =
              .ok (report, kept) after ∧
            (∃ reason, report.outcome = .failed reason) ∧ report.call = none) := by
  refine ⟨fun disk path torn stands => ⟨?_, ?_, ?_⟩, ?_, ?_⟩
  · exact fun node cut => Disk.readJson_eq_malformed stands cut.parse_node
  · exact fun record cut => Disk.readJson_eq_malformed stands cut.parse_record
  · exact fun checkpoint cut => Disk.readJson_eq_malformed stands cut.parse_checkpoint
  · exact fun disk place record left read unfinished => left.holdsRun read unfinished
  · intro coordinator machine place record torn holds
    refine ⟨fun cut => skips_torn_record coordinator holds.recorded cut, fun unclaimed => ⟨?_, ?_⟩⟩
    · exact fun checkpoint stands cut => closes_torn_checkpoint holds stands cut unclaimed
    · exact fun node immediate head stands cut =>
        closes_torn_head holds immediate head stands cut unclaimed

/-- A run writes its nodes one by one, and takes a continuation.  Its record, its continuation, or
the node of its head is cut short, and a coordinator finds it so. -/
theorem cut_run_noticed : ∃ (run : Run) (started : Machine) (held : LiveRun)
    (checkpoint : Checkpoint) (node : Node),
    Run.start .sample "sample" none .default .blank = .ok run started ∧
      attempt (Command.checkpoint [7]).perform { run, machine := started } =
        .ok (.ok .done) held ∧
      held.run.graph.heads = [node.id] ∧ held.machine.disk.HoldsRun .sample held.run.record ∧
      (held.machine.withFile (RunFiles.checkpointFile .sample).path
          (checkpoint.toJson.pretty.take 20)).disk.readJson (RunFiles.checkpointFile .sample).path
        Checkpoint.ofJson? = .error .malformed ∧
      (∃ report kept after, accepting.recoverRun .sample
          (held.machine.withFile (RunFiles.recordFile .sample).path []) =
            .ok (report, kept) after ∧
        (∃ reason, report.outcome = .skipped reason) ∧ report.call = none) ∧
      (∃ report kept after, accepting.recoverRun .sample
          (held.machine.withFile (RunFiles.checkpointFile .sample).path
            (checkpoint.toJson.pretty.take 20)) = .ok (report, kept) after ∧
        (∃ reason, report.outcome = .failed reason) ∧ report.call = none) ∧
      ∃ report kept after, accepting.recoverRun .sample
          (held.machine.withFile (nodeFile (Place.sample.join directoryName) node.id).path
            (node.toJson.pretty.take 20)) = .ok (report, kept) after ∧
        (∃ reason, report.outcome = .failed reason) ∧ report.call = none := by
  have passed : Run.passes (fun run started =>
      Run.passes (fun reply held => held.run.checkpoint.any fun checkpoint =>
          (held.run.graph.get? 1).any fun node =>
            decide (reply = .ok .done) && decide held.run.graph.Fits &&
            decide (held.run.record.version < UInt32.size) && decide (node.id = 1) &&
            decide (held.run.record.isComplete = false) &&
            decide (held.run.record.hint.storageKind = .immediate) &&
            decide (held.run.graph.heads = [node.id]) &&
            decide (held.run.record.heads = [node.id]) &&
            decide (held.machine.disk.at? (RunFiles.recordFile .sample).path =
              some (.file held.run.record.toJson.pretty)) &&
            decide (held.machine.disk.at? (RunFiles.checkpointFile .sample).path =
              some (.file checkpoint.toJson.pretty)) &&
            decide (held.machine.disk.at?
                (nodeFile (Place.sample.join directoryName) node.id).path =
              some (.file node.toJson.pretty)) &&
            decide (held.run.record.toJson.pretty ≠ []) &&
            decide (20 < checkpoint.toJson.pretty.length) &&
            decide (20 < node.toJson.pretty.length))
        (attempt (Command.checkpoint [7]).perform { run, machine := started }))
      (Run.start .sample "sample" none .default .blank) = true := by
    decide +kernel
  obtain ⟨run, started, begins, holds⟩ := Run.of_passes passed
  obtain ⟨reply, held, takes, holds⟩ := Run.of_passes holds
  simp only [Option.any_eq_true, Bool.and_eq_true, decide_eq_true_eq] at holds
  obtain ⟨checkpoint, -, node, -, holds⟩ := holds
  obtain ⟨⟨⟨⟨⟨⟨⟨⟨⟨⟨⟨⟨⟨rfl, fits⟩, version⟩, number⟩, unfinished⟩, immediate⟩, only⟩, heads⟩,
    recorded⟩, continued⟩, stored⟩, written⟩, longer⟩, long⟩ := holds
  have reached : Reached .sample held :=
    Reached.operate (.start Place.sample_isVacant (fun _ none => by cases none) begins)
      (.at_once (show (Command.checkpoint [7]).Storable from trivial) takes) fits
  have storable : held.run.record.Storable := by
    refine ⟨version, ?_⟩
    simp [heads, number, UInt64.size]
  have read := Disk.readJson_eq_ok recorded (Record.isOrdinary_toJson storable)
    (Record.ofJson?_toJson storable)
  have run := torn_files_are_noticed.2.1 _ _ _ reached.dropped read unfinished
  have noticed (torn : Bytes) := torn_files_are_noticed.2.2 accepting held.machine .sample
    held.run.record torn run
  have cut : Json.IsTornFrom (checkpoint.toJson.pretty.take 20) checkpoint.toJson.pretty :=
    .take longer
  refine ⟨_, _, held, checkpoint, node, begins, takes, only, run, ?_, ?_, ?_, ?_⟩
  · refine (torn_files_are_noticed.1 _ _ _ ?_).2.2 checkpoint cut
    exact (Disk.at?_set _ (Disk.ne_root_of_file continued) _ _).trans (if_pos rfl)
  · exact (noticed []).1 ⟨List.nil_prefix, written.symm⟩
  · exact ((noticed _).2 List.not_mem_nil).1 checkpoint continued cut
  · exact ((noticed _).2 List.not_mem_nil).2 node immediate (by simp [heads]) stored (.take long)

end Coordinator
end Torn
end DurableRuns
