/-
# DurableRuns.Proofs.Run.Reopened -- a run that is opened again is settled

Whatever a settled run had in memory, its directory is opened without a fault, and what is
opened is a settled run with the graph that the directory has (`Settled.reopened`).
-/
import DurableRuns.Proofs.Run.Reopening
import DurableRuns.Proofs.Run.Settled

namespace DurableRuns

set_option autoImplicit false

open Run RunM

variable {live : LiveRun} {image : Image}

/-- What a settled run has on disk can be read back. -/
theorem Settled.storable_image (settled : Settled live image) (fits : live.run.graph.Fits) :
    image.Storable := by
  have small {id : Nat} (lower : id < live.run.graph.nextId) : id < UInt64.size :=
    Nat.lt_of_lt_of_le lower fits
  obtain ⟨safe, whole, le⟩ := settled.safe
  constructor
  case record =>
    intro record recorded
    obtain ⟨below, -⟩ := settled.tracks.guards record recorded
    exact ⟨below.version_lt, fun head inside => small (below.heads_lt head inside)⟩
  case nodes =>
    intro id node stored
    rw [whole.has.nodes] at stored
    exact whole.storable (Nat.le_trans le fits) id node stored
  case checkpoint =>
    intro checkpoint there head inside
    exact small (settled.tracks.shown_below checkpoint there head inside)

/-- The run that is opened where a settled run was. -/
def LiveRun.reopened (live : LiveRun) (image : Image) : Run :=
  ofImage live.run.place live.run.record image.nodes image.checkpoint

/-- Whatever a settled run has in memory, its directory is opened. -/
theorem Settled.opens (settled : Settled live image) (fits : live.run.graph.Fits)
    {machine : Machine} (same : machine.disk = live.machine.disk) :
    ∃ report, openReporting live.run.place machine =
      .ok (live.reopened image, report) machine := by
  have shows := settled.tracks.shows
  have hint : live.run.record.hint = live.run.hint := settled.sound.recordHint
  rw [← same, ← hint] at shows
  exact ⟨_, openReporting_eq shows settled.record (settled.storable_image fits)⟩

/-- From a clean record a run is opened with the graph it had in memory. -/
theorem Settled.graph_reopened (settled : Settled live image)
    (clean : live.run.diskFlag = .clean) : (live.reopened image).graph = live.run.graph := by
  have has := settled.has_of_clean clean
  rw [LiveRun.reopened, has.nodes]
  exact graph_ofImage _ settled.well has.heads _

theorem Settled.phase_reopened (settled : Settled live image) :
    (live.reopened image).phase =
      if live.run.phase = .resuming then .running else live.run.phase := by
  have told : live.run.phase.IsTold live.run.record.result live.run.record.status :=
    settled.sound.phase
  exact told.ofRecord_eq

theorem Settled.mustBeSaved_reopened (settled : Settled live image) :
    (live.reopened image).mustBeSaved = live.run.mustBeSaved := by
  have hint : (live.reopened image).hint = live.run.hint := settled.sound.recordHint
  rw [mustBeSaved, mustBeSaved, hint, settled.phase_reopened]
  by_cases resuming : live.run.phase = .resuming
  · simp [resuming, Phase.holdsAppends, Phase.isComplete]
  · rw [if_neg resuming]

theorem Settled.sound_reopened (settled : Settled live image) :
    (live.reopened image).life.Sound := by
  constructor
  case phase => exact Phase.isTold_ofRecord live.run.record
  case recordId => rfl
  case recordHint => rfl
  case ended =>
    intro ended
    have complete : live.run.phase.isComplete = true := by
      have phase := settled.phase_reopened
      by_cases resuming : live.run.phase = .resuming
      · rw [if_pos resuming] at phase
        cases (congrArg Phase.isComplete phase).symm.trans ended
      · rw [if_neg resuming] at phase
        exact (congrArg Phase.isComplete phase).symm.trans ended
    have saved := settled.atRest (by simp [mustBeSaved, complete])
    exact (settled.tracks.persisted saved.persisted).trans (settled.sound.ended complete)
  case unfailed => rfl

/-- The run that a directory is opened with is settled. -/
theorem Settled.reopened_settled (settled : Settled live image) {machine : Machine}
    (same : machine.disk = live.machine.disk)
    (willing : ∀ refusal ∈ machine.refusals, refusal = false) :
    Settled { run := live.reopened image, machine } image := by
  obtain ⟨safe, whole, -⟩ := settled.safe
  have recordHint : live.run.record.hint = live.run.hint := settled.sound.recordHint
  have graph : (live.reopened image).graph = safe := by
    rw [LiveRun.reopened, whole.has.nodes]
    exact graph_ofImage _ whole.well whole.has.heads _
  have flag : (live.reopened image).diskFlag = live.run.diskFlag :=
    settled.tracks.flag _ settled.record
  obtain ⟨below, -⟩ := settled.tracks.guards _ settled.record
  have recordBelow : live.run.record.Below (live.reopened image).hint safe.nextId :=
    ⟨rfl, below.version_lt, fun head inside => whole.well.heads_lt (whole.has.heads ▸ inside)⟩
  constructor
  case tracks =>
    constructor
    case life => rfl
    case shows =>
      rw [same]
      have shows := settled.tracks.shows
      rw [← recordHint] at shows
      exact shows
    case willing => exact willing
    case store => exact storeKnows_ofImage rfl
    case flag =>
      intro record recorded
      obtain rfl := Option.some.inj (settled.record.symm.trans recorded)
      rfl
    case persisted => exact fun _ => rfl
    case held => exact fun _ => rfl
    case record_below => exact graph ▸ recordBelow
    case checkpoint_below => exact graph ▸ whole.checkpoint_below
    case shown_below => exact graph ▸ whole.checkpoint_below
    case guards =>
      intro record recorded
      obtain rfl := Option.some.inj (settled.record.symm.trans recorded)
      rw [graph]
      exact ⟨recordBelow, fun _ => ⟨whole.checkpoint_below, .inl whole.has⟩⟩
  case well => exact graph ▸ whole.well
  case storable => exact graph ▸ whole.storable
  case sound => exact settled.sound_reopened
  case record => exact settled.record
  case kept =>
    have kept : (live.reopened image).kept image = image.nodes := kept_ofImage rfl
    exact kept.trans (whole.has.nodes.trans (congrArg Graph.table graph.symm))
  case flag => exact flag ▸ settled.flag
  case safe => exact ⟨safe, whole, Nat.le_of_eq (congrArg Graph.nextId graph.symm)⟩
  case atRest =>
    intro resting
    have saved := settled.atRest (settled.mustBeSaved_reopened.symm.trans resting)
    exact ⟨flag.trans saved.flag, rfl⟩

end DurableRuns
