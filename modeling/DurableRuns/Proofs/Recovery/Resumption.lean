/-
# DurableRuns.Proofs.Recovery.Resumption -- a run that is on disk can be taken up again

Where the disk has all that a run is, and its record says so, a recovery opens the run as it
was in memory and decides by its continuation alone: taken at the present heads, it is handed
to the resumer; otherwise the run is closed as failed (`Coordinator.recoverRun_saved`).
-/
import DurableRuns.Proofs.Recovery.Decision
import DurableRuns.Proofs.Run.Memory

namespace DurableRuns

set_option autoImplicit false

open Run RunM

variable {live : LiveRun} {image : Image} {later : Machine}

/-- A resumer that accepts whatever it is given. -/
def Resumer.IsAccepting (resumer : Resumer) : Prop :=
  ∀ run machine blob, resumer.Accepts run machine blob

/-- The run that was taken up is the run that was in memory. -/
structure Run.IsRegained (before opened : Run) : Prop where
  graph_eq : opened.graph = before.graph
  checkpoint_eq : opened.checkpoint = before.checkpoint
  paused_iff : opened.phase = .paused ↔ before.phase = .paused
  awake : opened.phase ≠ .resuming

/-- A run whose program is being reinstalled differs in its phase only. -/
theorem Run.resuming_eq (run : Run) : ∃ phase, run.resuming = { run with phase } ∧
    phase.isComplete = run.phase.isComplete := by
  by_cases running : run.phase = .running
  · exact ⟨.resuming, by simp [resuming, running], by rw [running]; rfl⟩
  · exact ⟨run.phase, by simp [resuming, running], rfl⟩

/-- So does a run whose program has been reinstalled. -/
theorem Run.resumed_eq (run : Run) : ∃ phase, run.resumed = { run with phase } ∧
    phase.isComplete = run.phase.isComplete := by
  by_cases installing : run.phase = .resuming
  · exact ⟨.running, by simp [resumed, installing], by rw [installing]; rfl⟩
  · exact ⟨run.phase, by simp [resumed, installing], rfl⟩

theorem Run.resumed_resuming {run : Run} (awake : run.phase ≠ .resuming) :
    run.resuming.resumed = run := by
  by_cases running : run.phase = .running
  · have same : { run with phase := .running } = run := by rw [← running]
    simp [resuming, resumed, running, same]
  · simp [resuming, resumed, running, awake]

/-- If the resumer gives no command the run is reported as it was opened. -/
theorem HandedOver.run_eq {coordinator : Coordinator} {opened : Run} {after : Machine}
    {blob : Bytes} {report : RecoveryReport}
    (handed : HandedOver coordinator opened later blob (.ok ()) report after)
    (silent : coordinator.resumer opened.resuming blob = .result (.ok ()))
    (awake : opened.phase ≠ .resuming) : report.run = some opened := by
  obtain ⟨replies, between, runs, -, -, taken, -⟩ := handed.called
  rw [silent] at runs
  cases runs
  rw [taken, Run.resumed_resuming awake]

theorem HandedOver.verdict_eq {coordinator : Coordinator} {opened : Run} {after : Machine}
    {blob : Bytes} {verdict : Except String Unit} {report : RecoveryReport}
    (handed : HandedOver coordinator opened later blob verdict report after)
    (accepting : coordinator.resumer.IsAccepting) : verdict = .ok () := by
  obtain ⟨replies, between, runs, -⟩ := handed.called
  obtain ⟨others, other, accepts⟩ := accepting opened.resuming later blob
  cases runs.symm.trans accepts
  rfl

namespace Settled

/-- A settled run that is on disk is regained when it is opened. -/
theorem regained (settled : Settled live image) (saved : live.run.IsSaved) :
    live.run.IsRegained (live.reopened image) := by
  have phase := settled.phase_reopened
  refine ⟨settled.graph_reopened saved.flag, settled.tracks.persisted saved.persisted, ?_, ?_⟩
  · rw [phase]
    split
    next resuming => simp [resuming]
    next => rfl
  · rw [phase]
    split
    next => simp
    next other => exact other

/-- What is found in the directory of a settled run. -/
theorem finds (settled : Settled live image) (fits : live.run.graph.Fits)
    (killed : later.disk = live.machine.disk) :
    ∃ loaded, openReporting live.run.place later =
        .ok (live.reopened image,
          .ofParts live.run.record loaded (RunFiles.checkpointOn later.disk live.run.place)) later ∧
      RunFiles.checkpointOn later.disk live.run.place = .ok image.checkpoint ∧
      ∀ head, (∃ node ∈ loaded.nodes, node.id = head) ↔ image.nodes.contains head = true := by
  have readable := settled.storable_image fits
  have shows := settled.tracks.shows
  have hint : live.run.record.hint = live.run.hint := settled.sound.recordHint
  rw [← killed, ← hint] at shows
  obtain ⟨loaded, -, opens, found, contains⟩ := finds_ofImage shows settled.record readable
  exact ⟨loaded, opens, found, contains⟩

/-- The directory of a run that is on disk is resumable exactly with a continuation that was
taken at the present heads. -/
theorem resumable_iff (settled : Settled live image) (saved : live.run.IsSaved)
    {loaded : StoredNodes} {termination : Termination} (checkpoint : Checkpoint)
    (found : RunFiles.checkpointOn later.disk live.run.place = .ok image.checkpoint)
    (contains : ∀ head, (∃ node ∈ loaded.nodes, node.id = head) ↔
      image.nodes.contains head = true)
    (fit : live.run.record.IsFit termination) :
    Resumable live.run.record termination loaded.nodes later.disk live.run.place checkpoint ↔
      live.run.checkpoint = some checkpoint ∧ checkpoint.heads = live.run.graph.heads := by
  have has := settled.has_of_clean saved.flag
  have kept : image.checkpoint = live.run.checkpoint := settled.tracks.persisted saved.persisted
  have continued : (RunFiles.checkpointOn later.disk live.run.place = .ok (some checkpoint)) ↔
      live.run.checkpoint = some checkpoint := by
    rw [found, kept, Except.ok.injEq]
  constructor
  · intro resumable
    exact ⟨continued.1 (RunFiles.checkpointOn_eq_some_iff.2 resumable.continuation),
      resumable.heads_eq.trans has.heads⟩
  · rintro ⟨taken, heads⟩
    refine ⟨fit, ?_, RunFiles.checkpointOn_eq_some_iff.1 (continued.2 taken),
      heads.trans has.heads.symm⟩
    intro head inside
    rw [contains, has.nodes]
    exact settled.well.heads_stored head (has.heads ▸ inside)

/-- The record of a run that is on disk is fit for a resume: the run is paused, or the process
ended in good order, or the run writes every step. -/
theorem isFit (settled : Settled live image) (saved : live.run.IsSaved) {termination : Termination}
    (survives : live.run.phase = .paused ∨ termination = .clean ∨
      live.run.hint.writesEveryStep = true) :
    live.run.record.IsFit termination := by
  have clean : live.run.record.clean = .clean :=
    (settled.tracks.flag _ settled.record).trans saved.flag
  have told : live.run.phase.IsTold live.run.record.result live.run.record.status :=
    settled.sound.phase
  have hint : live.run.record.hint = live.run.hint := settled.sound.recordHint
  cases status : live.run.record.status with
  | paused => exact .inl ⟨by simp [Record.isPaused, status], clean⟩
  -- A record that is not paused survives a kill by its hint, or else the end was in good order.
  | _ =>
      refine .inr ⟨by simp [Record.isPaused, status], clean, ?_⟩
      rw [status] at told
      rcases survives with paused | ended | prompt
      · rw [paused] at told
        simp [Phase.IsTold] at told
      · exact .inl ended
      · refine .inr fun batched => ?_
        rw [← hint, batched] at prompt
        cases prompt

end Settled

namespace Coordinator

/-- A run is reported as resumed only if it was handed to a resumer that accepts it. -/
theorem handed_of_resumed {coordinator kept : Coordinator} {place : Place} {opened : Run}
    {record : Record} {loaded : StoredNodes} {report : RecoveryReport} {after : Machine}
    (opens : openReporting place later =
      .ok (opened, .ofParts record loaded (RunFiles.checkpointOn later.disk place)) later)
    (recorded : opened.record = record)
    (continued : opened.checkpoint = continuation? (RunFiles.checkpointOn later.disk place))
    (recovers : coordinator.recoverRun place later = .ok (report, kept) after)
    (resumed : report.outcome = .resumed) :
    ∃ blob, HandedOver coordinator opened later blob (.ok ()) report after := by
  obtain ⟨-, ⟨checkpoint, verdict, -, handed⟩ | refused⟩ :=
    recoverRun_cases opens recorded continued recovers (by simp [resumed])
  · obtain ⟨replies, between, accepts⟩ := handed.resumed_iff.1 resumed
    obtain ⟨others, other, runs, -⟩ := handed.called
    cases runs.symm.trans accepts
    exact ⟨checkpoint.blob, handed⟩
  · obtain ⟨obstacle, run, failed, -⟩ := refused.closed
    cases failed.symm.trans resumed

/-- **A run on disk is taken up by its continuation alone**: let the disk have all that a run is
that has not ended, and let its record be fit for the way the process ended.  Then it is opened as
it was; it is handed to the resumer with its continuation if this was taken at the present heads,
and closed as failed if not. -/
theorem recoverRun_saved {coordinator : Coordinator} (settled : Settled live image)
    (saved : live.run.IsSaved) (fits : live.run.graph.Fits)
    (unfinished : live.run.phase.isComplete = false)
    (unclaimed : live.run.place.path ∉ coordinator.claimed)
    (killed : later.disk = live.machine.disk)
    (fit : live.run.record.IsFit coordinator.termination) :
    ∃ opened report after, openAt live.run.place later = .ok opened later ∧
      live.run.IsRegained opened ∧
      coordinator.recoverRun live.run.place later =
        .ok (report, { coordinator with
          claimed := live.run.place.path :: coordinator.claimed }) after ∧
      (∀ blob, live.run.snapshot.goodBlob? = some blob →
        ∃ verdict, HandedOver coordinator opened later blob verdict report after) ∧
      (live.run.snapshot.goodBlob? = none → Refused opened later report after) := by
  obtain ⟨loaded, opens, found, contains⟩ := settled.finds fits killed
  have running : (live.reopened image).phase.isComplete = false := by
    rw [settled.phase_reopened]
    split
    next => rfl
    next => exact unfinished
  have continued : image.checkpoint = continuation? _ := eq_continuation? found
  have opened := openAt_eq_ok_iff.2 ⟨_, opens⟩
  have resumable (checkpoint : Checkpoint) :=
    settled.resumable_iff saved checkpoint found contains fit
  cases good : live.run.snapshot.goodBlob? with
  | some blob =>
      obtain ⟨checkpoint, taken, heads, rfl⟩ := Snapshot.goodBlob?_eq_some_iff.1 good
      obtain ⟨verdict, report, after, recovers, handed⟩ :=
        recoverRun_hands_over opens rfl continued running unclaimed
          ((resumable checkpoint).2 ⟨taken, heads⟩)
      refine ⟨_, report, after, opened, settled.regained saved, recovers, ?_, nofun⟩
      rintro blob ⟨⟩
      exact ⟨verdict, handed⟩
  | none =>
      have unfit : ¬ ∃ checkpoint, Resumable live.run.record coordinator.termination loaded.nodes
          later.disk live.run.place checkpoint := by
        rintro ⟨checkpoint, fits⟩
        obtain ⟨taken, heads⟩ := (resumable checkpoint).1 fits
        have some : live.run.snapshot.goodBlob? = some checkpoint.blob :=
          Snapshot.goodBlob?_eq_some_iff.2 ⟨checkpoint, taken, heads, rfl⟩
        cases good.symm.trans some
      obtain ⟨report, after, recovers, refused⟩ :=
        recoverRun_refuses opens rfl continued running unclaimed unfit
      exact ⟨_, report, after, opened, settled.regained saved, recovers, nofun, fun _ => refused⟩

/-- What an accepting resumer makes of it: a run is resumed exactly with a good continuation. -/
theorem recoverRun_accepted {coordinator : Coordinator} (settled : Settled live image)
    (saved : live.run.IsSaved) (fits : live.run.graph.Fits)
    (unfinished : live.run.phase.isComplete = false)
    (unclaimed : live.run.place.path ∉ coordinator.claimed)
    (killed : later.disk = live.machine.disk)
    (fit : live.run.record.IsFit coordinator.termination)
    (accepting : coordinator.resumer.IsAccepting) :
    ∃ opened report after, openAt live.run.place later = .ok opened later ∧
      live.run.IsRegained opened ∧
      coordinator.recoverRun live.run.place later =
        .ok (report, { coordinator with
          claimed := live.run.place.path :: coordinator.claimed }) after ∧
      (report.outcome = .resumed ↔ ∃ blob, live.run.snapshot.goodBlob? = some blob) ∧
      ∀ blob, live.run.snapshot.goodBlob? = some blob →
        HandedOver coordinator opened later blob (.ok ()) report after := by
  obtain ⟨opened, report, after, opens, regained, recovers, hands, refuses⟩ :=
    recoverRun_saved settled saved fits unfinished unclaimed killed fit
  have handed (blob : Bytes) (good : live.run.snapshot.goodBlob? = some blob) :
      HandedOver coordinator opened later blob (.ok ()) report after := by
    obtain ⟨verdict, handed⟩ := hands blob good
    exact handed.verdict_eq accepting ▸ handed
  refine ⟨opened, report, after, opens, regained, recovers, ?_, handed⟩
  constructor
  · intro resumed
    refine Option.ne_none_iff_exists'.1 fun none => ?_
    obtain ⟨obstacle, run, failed, -⟩ := (refuses none).closed
    cases failed.symm.trans resumed
  · rintro ⟨blob, good⟩
    exact (handed blob good).resumed_iff.2 (accepting _ _ _)

end Coordinator
end DurableRuns
