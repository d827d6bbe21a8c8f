/-
# DurableRuns.Proofs.Run.Settled -- a run between two operations

`Settled live image` is the invariant of a run between two operations, while no write fails.
The record in memory is the one on the disk; the store has every node of the graph; the disk
has a well-formed graph, and the present one if the record is clean.  A run that writes every
step, is paused or has ended is on disk with all that it is.
-/
import DurableRuns.Proofs.Run.Ending
import DurableRuns.Run.Program

namespace DurableRuns

set_option autoImplicit false

open Run RunM

/-- A record of this status and result tells the phase, or that of a run whose program is just
being reinstalled. -/
def Phase.IsTold (phase : Phase) (result : RunResult) : RecordStatus → Prop
  | .running => phase = .running ∨ phase = .resuming
  | .paused => phase = .paused
  | .complete => phase = .complete result

theorem Phase.isTold_ofRecord (record : Record) :
    (Phase.ofRecord record).IsTold record.result record.status := by
  rw [Phase.ofRecord]
  cases record.status with
  | running => exact .inl rfl
  | paused => rfl
  | complete => rfl

/-- A record tells the phase of its run; where a program is just being reinstalled, it tells that
the run is running. -/
theorem Phase.IsTold.ofRecord_eq {phase : Phase} {record : Record}
    (told : phase.IsTold record.result record.status) :
    Phase.ofRecord record = if phase = .resuming then .running else phase := by
  rw [Phase.ofRecord]
  cases status : record.status with
  | running =>
      rw [status] at told
      rcases told with rfl | rfl <;> rfl
  | paused =>
      rw [status] at told
      obtain rfl : phase = .paused := told
      rfl
  | complete =>
      rw [status] at told
      obtain rfl : phase = .complete record.result := told
      rfl

/-- The phase of a run is the one its record tells, the record is the one of the run, and no
write has failed. -/
structure Life.Sound (life : Life) : Prop where
  phase : life.phase.IsTold life.result life.status
  recordId : life.recordId = life.runId
  recordHint : life.recordHint = life.hint
  ended : life.phase.isComplete = true → life.checkpoint = none
  unfailed : life.storageFault = none

/-- A record tells the phase of its run, unless a program is just being reinstalled. -/
theorem Life.Sound.phase_ofRecord {run : Run} (sound : run.life.Sound)
    (awake : run.phase ≠ .resuming) : Phase.ofRecord run.record = run.phase := by
  have told : run.phase.IsTold run.record.result run.record.status := sound.phase
  rw [told.ofRecord_eq, if_neg awake]

/-- The disk has all that a run is, and its record says so. -/
structure Run.IsSaved (run : Run) : Prop where
  flag : run.diskFlag = .clean
  persisted : run.checkpointPersisted = true

/-- A run at rest is on disk: one that writes every step, is paused or has ended. -/
def Run.mustBeSaved (run : Run) : Bool :=
  run.hint.writesEveryStep || run.phase.holdsAppends || run.phase.isComplete

/-- The nodes, the heads and the continuation in an image belong to one graph. -/
structure Image.IsWhole (image : Image) (record : Record) (graph : Graph) : Prop where
  has : image.Has record graph
  well : graph.WellFormed
  storable : graph.Storable
  checkpoint_below : ∀ checkpoint, image.checkpoint = some checkpoint →
    checkpoint.Below graph.nextId

/-- The invariant of a run between two operations. -/
structure Settled (live : LiveRun) (image : Image) : Prop where
  tracks : Tracks live.run live.run.graph live image
  well : live.run.graph.WellFormed
  storable : live.run.graph.Storable
  sound : live.run.life.Sound
  record : image.record = some live.run.record
  kept : live.run.kept image = live.run.graph.table
  flag : live.run.diskFlag = .clean ∨ live.run.diskFlag = .dirty
  /-- The disk has a graph, the one of the last safe point. -/
  safe : ∃ safe, image.IsWhole live.run.record safe ∧ safe.nextId ≤ live.run.graph.nextId
  atRest : live.run.mustBeSaved = true → live.run.IsSaved

/-- Two images hold the same, but for the flag and the time of the record. -/
structure Image.SavesSame (image image' : Image) : Prop where
  nodes : image'.nodes = image.nodes
  checkpoint : image'.checkpoint = image.checkpoint
  record : ∀ record, image.record = some record → ∃ record', image'.record = some record' ∧
    { record' with clean := record.clean, updatedAt := record.updatedAt } = record

namespace Settled

variable {base : Run} {before : Graph} {live after : LiveRun} {image image' : Image}

/-- What a clean record stands beside is the graph of the run. -/
theorem has_of_clean (settled : Settled live image) (clean : live.run.diskFlag = .clean) :
    image.Has live.run.record live.run.graph := by
  have flag := settled.tracks.flag _ settled.record
  obtain ⟨-, harmless⟩ := settled.tracks.guards _ settled.record
  exact (harmless (flag.trans clean)).2.elim id id

theorem kept_eq_nodes (settled : Settled live image) (clean : live.run.diskFlag = .clean) :
    live.run.kept image = image.nodes :=
  settled.kept.trans (settled.has_of_clean clean).nodes.symm

end Settled

/-- A run that comes to rest is tracked as what it is then. -/
theorem Tracks.rest {base : Run} {before : Graph} {live : LiveRun} {image : Image}
    (tracks : Tracks base before live image)
    (has : ∀ record, image.record = some record → record.clean = .clean →
      image.Has record live.run.graph) :
    Tracks live.run live.run.graph live image := by
  have nextId : base.graph.nextId = live.run.graph.nextId :=
    congrArg Graph.nextId tracks.graph_eq.symm
  constructor
  case life => rfl
  case shows =>
    rw [tracks.place_eq, tracks.hint_eq]
    exact tracks.shows
  case willing => exact tracks.willing
  case store => exact tracks.store
  case flag => exact tracks.flag
  case persisted => exact tracks.persisted
  case held => exact tracks.held
  case record_below => exact nextId ▸ tracks.hint_eq ▸ tracks.record_below
  case checkpoint_below => exact nextId ▸ tracks.checkpoint_below
  case shown_below => exact nextId ▸ tracks.shown_below
  case guards =>
    intro record shown
    obtain ⟨below, harmless⟩ := tracks.guards record shown
    rw [nextId] at below harmless
    rw [← tracks.hint_eq] at below
    exact ⟨below, fun clean => ⟨(harmless clean).1, .inl (has record shown clean)⟩⟩

namespace Settled

variable {base : Run} {before : Graph} {live after : LiveRun} {image image' : Image}

/-- A run that is on disk is settled. -/
theorem of_onDisk (tracks : Tracks base before live image) (onDisk : OnDisk live.run image)
    (persisted : live.run.checkpointPersisted = true) (well : base.graph.WellFormed) (storable : base.graph.Storable)
    (sound : live.run.life.Sound) : Settled live image ∧ live.run.IsSaved := by
  have same := tracks.graph_eq
  have has : image.Has live.run.record live.run.graph := ⟨onDisk.nodes, onDisk.heads⟩
  rw [← same] at well storable
  refine ⟨?_, ⟨onDisk.flag, persisted⟩⟩
  constructor
  case tracks =>
    apply tracks.rest
    intro record shown clean
    obtain rfl := Option.some.inj (onDisk.record.symm.trans shown)
    exact has
  case well => exact well
  case storable => exact storable
  case sound => exact sound
  case record => exact onDisk.record
  case kept => exact onDisk.kept
  case flag => exact .inl onDisk.flag
  case safe =>
    refine ⟨live.run.graph, ⟨has, well, storable, ?_⟩, Nat.le_refl _⟩
    rw [same]
    exact tracks.shown_below
  case atRest => exact fun _ => ⟨onDisk.flag, persisted⟩

end Settled

/-- A run at a later time. -/
def LiveRun.atTime (live : LiveRun) (now : Instant) : LiveRun :=
  { live with machine := { live.machine with now } }

@[simp]
theorem LiveRun.run_atTime (live : LiveRun) (now : Instant) : (live.atTime now).run = live.run := rfl

/-- The clock may go on between two operations. -/
theorem Settled.atTime {live : LiveRun} {image : Image} (settled : Settled live image)
    (now : Instant) : Settled (live.atTime now) image :=
  { settled with tracks := { settled.tracks with } }

end DurableRuns
