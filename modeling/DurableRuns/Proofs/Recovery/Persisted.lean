/-
# DurableRuns.Proofs.Recovery.Persisted -- a run that says it is on disk is there

A run keeps four notes of its disk: whether a write has failed, whether nodes wait in its store,
whether its continuation was written, and the flag of the record as last written.  If all four
are good, the run says to be on disk (`Run.isOnDisk`).  Some failures are noted and some are only
returned, so that this is true rests on the four being kept in step wherever a write fails.

It is true (`opens_what_isOnDisk`) of a run that was started where there was nothing, and of one
that was opened on whatever others left, if all that its record tells of was found.
-/
import DurableRuns.Proofs.Recovery.Leftover
import DurableRuns.Proofs.Recovery.Recovered
import DurableRuns.Proofs.Run.Told
import DurableRuns.Proofs.Run.Upkeep

namespace DurableRuns

set_option autoImplicit false

open Run RunM

/-- All was found that the record of a run tells of. -/
structure OpeningReport.IsFaultless (report : OpeningReport) : Prop where
  nodeFaults : report.nodeFaults = []
  missingHeads : report.missingHeads = []
  checkpointFault : report.checkpointFault = none

section Persisted

variable {place : Place} {disk : Disk} {hint : Hint} {bound : Nat} {live : LiveRun} {image : Image}

/-! ## Runs that have just begun -/

namespace Run

/-- A run that was not written yet mirrors its empty directory, but for the first node. -/
theorem begun_mirrored (machine : Machine) (reached : machine.disk.IsReached place.path)
    (vacant : place.IsVacant machine.disk) (runId : String) (hint : Hint) :
    Mirrored .first True [firstId] { run := begun machine place runId hint, machine } := by
  have store := begun_store reached vacant runId hint
  refine fun _ => ⟨.blank, ?_⟩
  constructor
  case graph_eq => rfl
  case shows => exact .of_empty reached vacant
  case store => exact storeKnows_ofImage store
  case kept =>
    intro id other
    have nothing : (begun machine place runId hint).kept .blank = .empty := kept_ofImage store
    rw [nothing, Graph.get?_first, if_neg (by simpa using other)]
    rfl
  case persisted => exact fun _ => rfl
  case recorded => exact fun _ clean => by cases clean

theorem beginning_mirrored (mirrored : Mirrored .first True [firstId] live) :
    Ends beginning live (fun _ => Mirrored .first True []) fun _ _ => True := by
  have stored : Graph.first.get? Graph.firstNode.id = some Graph.firstNode :=
    (Graph.get?_first firstId).trans (if_pos rfl)
  refine .bind ((markDirty_mirrored mirrored).mono ?_ fun _ _ _ => trivial)
  intro _ marked mirrored
  have covers : ∀ id ∈ [firstId], id = Graph.firstNode.id ∨ id ∈ ([] : List Nat) := by
    simp [Graph.firstNode]
  refine .bind ((storeNode_mirrored mirrored stored covers).mono ?_ fun _ _ => id)
  exact fun _ written mirrored =>
    (reachSafePoint_mirrored mirrored (.inl Graph.wellFormed_first)).mono (fun _ _ => id)
      fun _ _ _ => trivial

/-- A run that is opened on an orderly image with all of its heads mirrors it. -/
theorem ofImage_isMirrored {machine : Machine} {record : Record}
    (shows : Shows machine.disk place record.hint.storageKind image)
    (orderly : image.IsOrderly record.hint bound) (recorded : image.record = some record)
    (stored : ∀ head ∈ record.heads, image.nodes.contains head = true) :
    LiveRun.IsMirrored
      { run := ofImage place record image.nodes image.checkpoint, machine } := by
  have graph : (ofImage place record image.nodes image.checkpoint).graph =
      Graph.regain image.nodes record.heads := rfl
  have table : (ofImage place record image.nodes image.checkpoint).graph.table = image.nodes :=
    Graph.table_regain image.nodes record.heads
  have heads := (orderly.record record recorded).heads_nodup
  refine fun _ => ⟨Graph.regain_isGrown orderly.nodes heads stored, image, ?_⟩
  constructor
  case graph_eq => rfl
  case shows => exact shows
  case store => exact storeKnows_ofImage rfl
  case kept =>
    intro id _
    have kept : (ofImage place record image.nodes image.checkpoint).kept image = image.nodes :=
      kept_ofImage rfl
    rw [kept, Graph.get?, table]
  case persisted => exact fun _ => rfl
  case recorded =>
    intro _ clean
    have flag : record.clean = .clean := clean
    have same : { record with clean := .clean } = record := by rw [← flag]
    refine ⟨⟨record.heads, record.updatedAt, ?_, ?_⟩, ?_⟩
    · show image.record = some { record with clean := .clean }
      rw [same, recorded]
    · rw [table, graph]
    · rw [table]
      exact graph.symm

end Run

/-- A run that has begun, and found all that its record tells of, mirrors its directory, and its
record is its own and tells its phase. -/
theorem LiveRun.BegunOn.isMirrored (begun : live.BegunOn place disk OpeningReport.IsFaultless)
    (remains : disk.Remains place) :
    live.IsMirrored ∧ live.run.IsTold ∧ live.run.record.runId = live.run.runId := by
  cases begun with
  | @start machine after runId asked config run same vacant started =>
      subst same
      obtain ⟨made, reached, still, begins⟩ := start_begins vacant started
      let reachedMachine := machine.changed (.makeDirectories place.path) made
      have mirrored := begun_mirrored reachedMachine reached still runId (config.hintFor asked)
      have ends := ((beginning_mirrored mirrored).and (beginning_spares _)).and
        (beginning_leaves reachedMachine reached still runId (config.hintFor asked))
      rw [Ends, begins] at ends
      obtain ⟨⟨mirroredNow, same⟩, conducts, -⟩ := ends
      have told : (Run.begun reachedMachine place runId (config.hintFor asked)).IsTold := .inl rfl
      exact ⟨mirroredNow.isMirrored (.inl Graph.wellFormed_first), told.congr same,
        conducts.recordId_eq.trans conducts.runId_eq.symm⟩
  | @opened machine run report same opens faultless =>
      subst same
      obtain ⟨record, image, bound, -, shows, orderly, recorded, rfl, missing⟩ := remains.opens opens
      refine ⟨ofImage_isMirrored shows orderly recorded fun head inside => ?_,
        Phase.isTold_ofRecord record, rfl⟩
      -- No head is missing from the graph, so none is missing from the nodes it was regained from.
      have none := missing.symm.trans faultless.missingHeads
      have found := List.filter_eq_nil_iff.1 none head inside
      have table : (ofImage place record image.nodes image.checkpoint).graph.table = image.nodes :=
        Graph.table_regain image.nodes record.heads
      have inGraph : (ofImage place record image.nodes image.checkpoint).graph.contains head = true := by
        simpa using found
      rw [← table]
      exact inGraph

/-! ## Runs on disk -/

/-- Where nothing waits in the store and nothing is pending, the directory has the nodes. -/
theorem Mirrors.nodes_eq {graph : Graph} {run : Run}
    (mirrors : Mirrors graph True [] run disk image) (flushed : run.store.isFlushed = true) :
    image.nodes = graph.table := by
  have knows := mirrors.store
  have kept : run.kept image = image.nodes := by
    unfold StoreKnows at knows
    unfold Run.kept
    cases store : run.store with
    | immediate directory atomic => rfl
    | batched file nodes unflushed fault =>
        rw [store] at knows flushed
        exact (knows.2.2 (by simpa [NodeStore.isFlushed] using flushed)).symm
  exact NodeTable.eq_of_get? fun id => kept ▸ mirrors.kept id (List.not_mem_nil)

/-- What is on disk of a mirrored run is opened again. -/
theorem LiveRun.IsMirrored.opens (mirrored : live.IsMirrored)
    (orderly : live.run.holdings.IsOrderly) (told : live.run.IsTold)
    (named : live.run.record.runId = live.run.runId) (fits : live.run.graph.Fits)
    (onDisk : live.run.isOnDisk = true) {later : Machine} (killed : later.disk = live.machine.disk) :
    ∃ opened, openAt live.run.place later = .ok opened later ∧
      opened.snapshot = live.run.resumed.snapshot ∧
      RunFiles.readRecord live.run.place later = .ok opened.record later ∧
      opened.record.clean = .clean := by
  simp only [isOnDisk, Bool.and_eq_true, decide_eq_true_eq, Option.isNone_iff_eq_none] at onDisk
  obtain ⟨⟨⟨unfailed, flushed⟩, persisted⟩, clean⟩ := onDisk
  obtain ⟨-, image, mirrors⟩ := mirrored unfailed
  -- The heads on disk need not be those of the record in memory: a write that failed unnoted has
  -- turned these already.  Both regain the graph.
  obtain ⟨⟨heads, updatedAt, shown, regained⟩, -⟩ := mirrors.recorded trivial clean
  let record : Record := { live.run.record with heads, clean := .clean, updatedAt }
  have recorded : image.record = some record := shown
  have nodes := mirrors.nodes_eq flushed
  have checkpoint := mirrors.persisted persisted
  have hint : record.hint = live.run.hint := orderly.recordHint
  have shows := mirrors.shows
  rw [← killed, ← hint] at shows
  -- What is read back was storable when it was written, and nothing on disk exceeds the graph.
  have storable : image.Storable := by
    constructor
    case record =>
      intro found same
      obtain rfl := Option.some.inj (recorded.symm.trans same)
      refine ⟨orderly.version_lt, fun head inside => Nat.lt_of_lt_of_le ?_ fits⟩
      rw [← regained]
      exact Graph.lt_nextId_regain (List.mem_append_right _ inside)
    case nodes =>
      intro id node stored
      rw [nodes] at stored
      exact (orderly.graph.nodes id node stored).storable fits
    case checkpoint =>
      intro held there
      exact orderly.checkpoint held (checkpoint.symm.trans there) fits
  refine ⟨ofImage live.run.place record image.nodes image.checkpoint,
    openAt_eq shows recorded storable, ?_,
    RunFiles.readRecord_eq_ok shows recorded (storable.record _ recorded), rfl⟩
  have told : live.run.phase.IsTold record.result record.status := told
  have graph : Graph.regain image.nodes record.heads = live.run.graph := nodes ▸ regained
  have resumed : live.run.resumed = { live.run with
      phase := if live.run.phase = .resuming then .running else live.run.phase } := by
    rw [resumed]
    split <;> rfl
  rw [resumed]
  simp only [snapshot, Snapshot.mk.injEq]
  exact ⟨named, hint, told.ofRecord_eq, rfl, rfl, graph, checkpoint⟩

/-- **A run never lies about being on disk.**  It was started where there was nothing, or opened
where others had left it, and all was found that its record tells of.  Whatever is done to it, and
whichever writes are refused on the way: when the run says to be on disk and its process is
killed, it is opened again as what it was in memory, from a clean record. -/
theorem opens_what_isOnDisk (left : Left place disk)
    (begun : live.BegunOn place disk OpeningReport.IsFaultless) {deeds : List (Instant × Deed)}
    (storable : ∀ given ∈ deeds, given.2.Storable) (fits : (live.afterDeeds deeds).run.graph.Fits)
    (onDisk : (live.afterDeeds deeds).run.isOnDisk = true) {later : Machine}
    (killed : later.disk = (live.afterDeeds deeds).machine.disk) :
    ∃ opened, openAt place later = .ok opened later ∧
      opened.snapshot = (live.afterDeeds deeds).run.resumed.snapshot ∧
      RunFiles.readRecord place later = .ok opened.record later ∧
      opened.record.clean = .clean := by
  obtain ⟨here, orderly, -⟩ := begun.isOrderly left.remains
  obtain ⟨mirrored, told, named⟩ := begun.isMirrored left.remains
  have conducts := LiveRun.afterDeeds_conducts orderly storable
  have namedNow : (live.afterDeeds deeds).run.record.runId = (live.afterDeeds deeds).run.runId :=
    conducts.recordId_eq.trans (named.trans conducts.runId_eq.symm)
  have opens := (LiveRun.afterDeeds_isMirrored mirrored deeds).opens conducts.orderly
    (LiveRun.afterDeeds_isTold told deeds) namedNow fits onDisk killed
  rw [conducts.place_eq, here] at opens
  exact opens

end Persisted

/-- A node is appended and flushed twice; the device refuses the first flush, which fails and is
not noted.  The run says to be on disk, and it is. -/
theorem onDisk_after_refused_flush : ∃ run started opened,
    Run.start .sample "sample" (some .performanceOptimized) .default .refusingSixth =
        .ok run started ∧
      let flushed := LiveRun.afterDeeds { run, machine := started }
        (appended ++ [(.sample, .command .flush), (.sample, .command .flush)])
      flushed.run.isOnDisk = true ∧ flushed.run.graph.contains 2 = true ∧
        openAt .sample flushed.machine = .ok opened flushed.machine ∧
        opened.snapshot = flushed.run.resumed.snapshot ∧
        RunFiles.readRecord .sample flushed.machine = .ok opened.record flushed.machine ∧
        opened.record.clean = .clean := by
  have passed : Run.passes (fun run started =>
      let flushed := LiveRun.afterDeeds { run, machine := started }
        (appended ++ [(.sample, .command .flush), (.sample, .command .flush)])
      flushed.run.isOnDisk && flushed.run.graph.contains 2 && decide flushed.run.graph.Fits)
      (Run.start .sample "sample" (some .performanceOptimized) .default .refusingSixth) = true := by
    decide +kernel
  obtain ⟨run, started, begins, holds⟩ := Run.of_passes passed
  simp only [Bool.and_eq_true, decide_eq_true_eq] at holds
  obtain ⟨⟨onDisk, there⟩, fits⟩ := holds
  have begun : LiveRun.BegunOn .sample Machine.refusingSixth.disk OpeningReport.IsFaultless
      { run, machine := started } := .start rfl Place.sample_isVacant begins
  have storable : ∀ given ∈ appended ++ [(.sample, .command .flush), (.sample, .command .flush)],
      given.2.Storable := by
    simp [appended, Deed.Storable, Command.Storable, NodeDraft.Storable]
  obtain ⟨opened, opens, same, read, clean⟩ :=
    opens_what_isOnDisk (.nothing Place.sample_isVacant) begun storable fits onDisk rfl
  exact ⟨run, started, opened, begins, onDisk, there, opens, same, read, clean⟩

end DurableRuns
