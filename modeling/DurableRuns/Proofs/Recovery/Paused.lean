/-
# DurableRuns.Proofs.Recovery.Paused -- a run that was paused or shut down is not lost

A batched run keeps nodes and its continuation in memory.  While it is paused it does not:
whatever is done to it then is on disk at once, and a kill loses nothing.  After a shutdown a
run is on disk, too, but its record does not say that it was left on purpose; it is taken up
again if the process ended in good order.

In both cases the run is taken up by its continuation alone (`Run.IsTakenUp`): what counts is
whether the latest one was taken at the present heads (`survives_pause_and_shutdown`).
-/
import DurableRuns.Proofs.Recovery.Lives

namespace DurableRuns

set_option autoImplicit false

open Run RunM

/-! ## Programs that leave a pause alone -/

/-- Whatever it is told, a program never unpauses the run. -/
def Program.NeverUnpauses {α : Type} : Program α → Prop
  | .result _ => True
  | .ask command next => command ≠ .unpause ∧ ∀ reply, (next reply).NeverUnpauses

section Paused

variable {place : Place} {live after : LiveRun} {history : List Exchange} {image : Image}
  {later : Machine} {coordinator : Coordinator}

/-- Such a program leaves a paused run paused, with the nodes and the heads it had. -/
theorem Program.run_paused {α : Type} {program : Program α} (held : program.NeverUnpauses)
    (paused : live.run.phase = .paused) {outcome : α × List (Except Error Reply)}
    (done : program.run live = .ok outcome after) : live.run.HoldsStill after.run := by
  induction program generalizing live outcome with
  | result value =>
      cases done
      exact .refl _
  | ask command next ih =>
      obtain ⟨other, others⟩ := held
      obtain ⟨reply, between, asked, rest⟩ := bind_eq_ok.1 done
      obtain ⟨⟨value, replies⟩, left, followed, gives⟩ := bind_eq_ok.1 rest
      cases gives
      have ends : EndsAs command.perform live fun _ after => live.run.HoldsStill after.run :=
        Command.perform_paused paused other
      have first : live.run.HoldsStill between.run := ends.of_attempt asked
      exact first.trans (ih reply (others reply) (first.phase_eq.trans paused) followed)

/-! ## Taking a run up by its continuation -/

/-- From a disk a run is taken up again as it was in memory, exactly if its continuation was
taken at the present heads.  The resumer then gets this continuation; if the run is paused and
the resumer leaves the pause alone, it is still paused with its nodes and heads afterwards. -/
def Run.IsTakenUp (run : Run) (coordinator : Coordinator) (later : Machine) : Prop :=
  ∃ opened report after, openAt run.place later = .ok opened later ∧ run.IsRegained opened ∧
    coordinator.recoverRun run.place later = .ok (report, { coordinator with
      claimed := run.place.path :: coordinator.claimed }) after ∧
    (report.outcome = .resumed ↔
      ∃ checkpoint, run.checkpoint = some checkpoint ∧ checkpoint.heads = run.graph.heads) ∧
    ∀ checkpoint, run.checkpoint = some checkpoint → checkpoint.heads = run.graph.heads →
      HandedOver coordinator opened later checkpoint.blob (.ok ()) report after ∧
        (run.phase = .paused →
          (coordinator.resumer opened.resuming checkpoint.blob).NeverUnpauses →
            ∃ taken, report.run = some taken ∧ opened.HoldsStill taken)

/-- A paused run that is handed to a resumer stays paused, if the resumer does not unpause it. -/
theorem HandedOver.holdsStill {opened : Run} {blob : Bytes} {report : RecoveryReport}
    {after : Machine} (handed : HandedOver coordinator opened later blob (.ok ()) report after)
    (paused : opened.phase = .paused)
    (held : (coordinator.resumer opened.resuming blob).NeverUnpauses) :
    ∃ taken, report.run = some taken ∧ opened.HoldsStill taken := by
  obtain ⟨replies, between, runs, -, -, taken, -⟩ := handed.called
  have same : opened.resuming = opened := by simp [resuming, paused]
  rw [same] at held runs
  have still : opened.HoldsStill between.run := Program.run_paused held paused runs
  have awake : between.run.resumed = between.run := by simp [resumed, still.phase_eq, paused]
  exact ⟨between.run, taken.trans (congrArg some awake), still⟩

/-- A run that is on disk, with a record that is fit for a resume, is taken up by its
continuation. -/
theorem Settled.isTakenUp (settled : Settled live image) (saved : live.run.IsSaved)
    (fits : live.run.graph.Fits) (unfinished : live.run.phase.isComplete = false)
    (unclaimed : live.run.place.path ∉ coordinator.claimed)
    (killed : later.disk = live.machine.disk)
    (survives : live.run.phase = .paused ∨ coordinator.termination = .clean)
    (accepting : coordinator.resumer.IsAccepting) : live.run.IsTakenUp coordinator later := by
  have fit : live.run.record.IsFit coordinator.termination :=
    settled.isFit saved (survives.imp_right .inl)
  obtain ⟨opened, report, after, opens, regained, recovers, resumed, handed⟩ :=
    Coordinator.recoverRun_accepted settled saved fits unfinished unclaimed killed fit accepting
  refine ⟨opened, report, after, opens, regained, recovers, ?_, ?_⟩
  · rw [resumed]
    simp only [Snapshot.goodBlob?_eq_some_iff]
    constructor
    · rintro ⟨blob, checkpoint, taken, heads, -⟩
      exact ⟨checkpoint, taken, heads⟩
    · rintro ⟨checkpoint, taken, heads⟩
      exact ⟨_, checkpoint, taken, heads, rfl⟩
  · intro checkpoint taken heads
    have hands := handed checkpoint.blob
      (Snapshot.goodBlob?_eq_some_iff.2 ⟨checkpoint, taken, heads, rfl⟩)
    exact ⟨hands, fun paused => hands.holdsStill (regained.paused_iff.2 paused)⟩

/-! ## Pauses and shutdowns -/

/-- A run stays settled over any number of commands. -/
theorem Settled.afterAll (settled : Settled live image) {during : List (Instant × Command)}
    (storable : ∀ given ∈ during, given.2.Storable) :
    ∃ image', Settled (live.afterAll during) image' ∧
      (live.afterAll during).run.place = live.run.place := by
  induction during generalizing live image with
  | nil => exact ⟨image, settled, rfl⟩
  | cons given rest ih =>
      obtain ⟨first, others⟩ := List.forall_mem_cons.1 storable
      obtain ⟨outcome, between, image₁, yields, performs⟩ :=
        given.2.perform_keeps (settled.atTime given.1) first
      have next : live.after given.1 given.2 = between := by
        rw [LiveRun.after, yields.result]
      obtain ⟨image', settledNow, here⟩ := ih performs.settled others
      rw [← next] at settledNow here
      exact ⟨image', settledNow, here.trans (next ▸ performs.place_eq)⟩

/-- While a run is paused its record says so, and that the disk has everything. -/
theorem Settled.record_of_paused (settled : Settled live image)
    (paused : live.run.phase = .paused) (fits : live.run.graph.Fits)
    (killed : later.disk = live.machine.disk) :
    ∃ record, RunFiles.readRecord live.run.place later = .ok record later ∧
      record.status = .paused ∧ record.clean = .clean := by
  have saved := settled.atRest (by simp [mustBeSaved, paused, Phase.holdsAppends])
  have shows := settled.tracks.shows
  rw [← killed] at shows
  have storable := (settled.storable_image fits).record _ settled.record
  refine ⟨live.run.record, RunFiles.readRecord_eq_ok shows settled.record storable, ?_, ?_⟩
  · have told : live.run.phase.IsTold live.run.record.result live.run.record.status :=
      settled.sound.phase
    cases status : live.run.record.status with
    | paused => rfl
    | running => simp [status, paused, Phase.IsTold] at told
    | complete => simp [status, paused, Phase.IsTold] at told
  · exact (settled.tracks.flag _ settled.record).trans saved.flag

/-- **A pause and a shutdown keep a run**, whatever its hint.  A run was started in an empty
directory and no write was refused.

If it is paused, then whatever is done to it but to unpause it, it has the nodes and heads it had,
its record on disk is paused and clean, and after any end of the process it is taken up by its
latest continuation.  If it goes on and is shut down, it is so after an end in good order. -/
theorem survives_pause_and_shutdown (lived : Lived place live history)
    (unclaimed : place.path ∉ coordinator.claimed)
    (accepting : coordinator.resumer.IsAccepting) :
    (live.run.phase = .paused → ∀ during : List (Instant × Command),
      (∀ given ∈ during, given.2.Storable ∧ given.2 ≠ .unpause) →
        later.disk = (live.afterAll during).machine.disk →
          live.run.HoldsStill (live.afterAll during).run ∧
          (live.afterAll during).run.place = place ∧
          (∃ record, RunFiles.readRecord place later = .ok record later ∧
            record.status = .paused ∧ record.clean = .clean) ∧
          (live.afterAll during).run.IsTakenUp coordinator later) ∧
    (live.run.phase.isComplete = false → ∀ now left,
      attempt Command.shutdown.perform (live.atTime now) = .ok (.ok .done) left →
        coordinator.termination = .clean → later.disk = left.machine.disk →
          left.run.snapshot = live.run.snapshot ∧ left.run.place = place ∧
          left.run.IsTakenUp coordinator later) := by
  obtain ⟨image, settled, rfl, fits, -⟩ := lived.sound
  constructor
  · intro paused during given killed
    have still : live.run.HoldsStill (live.afterAll during).run :=
      LiveRun.afterAll_paused paused fun command inside => (given command inside).2
    obtain ⟨image', settledNow, here⟩ :=
      settled.afterAll fun command inside => (given command inside).1
    have pausedNow := still.phase_eq.trans paused
    have fitsNow : (live.afterAll during).run.graph.Fits := by
      rw [Graph.Fits, still.nextId_eq]
      exact fits
    -- While it is paused a run of any hint is saved whenever it is at rest.
    have saved := settledNow.atRest (by simp [mustBeSaved, pausedNow, Phase.holdsAppends])
    refine ⟨still, here, here ▸ settledNow.record_of_paused pausedNow fitsNow killed, ?_⟩
    exact settledNow.isTakenUp saved fitsNow (by simp [pausedNow, Phase.isComplete])
      (here ▸ unclaimed) killed (.inl pausedNow) accepting
  · intro unfinished now left done ended killed
    have storable : Command.Storable .shutdown := trivial
    obtain ⟨image', performs, -⟩ := (settled.atTime now).performs storable done
    have same : left.run.snapshot = live.run.snapshot := by
      have ends : EndsAs Command.shutdown.perform (live.atTime now) fun _ after =>
          after.run.snapshot = live.run.snapshot :=
        .bind (.current (Command.reply_ends (shutdown_spares _)))
      exact ends.of_attempt done
    -- A shutdown is a safe point, so here it is the command that saves the run, not its phase.
    have saved : left.run.IsSaved := performs.saved (by simp [Command.isSafePoint])
    have graph : left.run.graph = live.run.graph := congrArg Snapshot.graph same
    have phase : left.run.phase = live.run.phase := congrArg Snapshot.phase same
    have here : left.run.place = live.run.place := performs.place_eq
    refine ⟨same, here, ?_⟩
    exact performs.settled.isTakenUp saved (graph ▸ fits) (phase ▸ unfinished)
      (here ▸ unclaimed) killed (.inr ended) accepting

/-- What is done to a run while it is paused: an action is attached, a shutdown. -/
def whilePaused : List (Instant × Command) :=
  [(.sample, .attach 2 (.error "late")), (.sample, .shutdown)]

/-- A batched run is paused at its continuation, and an action is attached: it is taken up
after a kill.  So it is if it was shut down where it was to be paused, and ended in good order. -/
theorem survives_attach_while_paused : ∃ live history left,
    Lived .sample live history ∧ live.run.hint = .performanceOptimized ∧
      (let paused := live.after .sample .pause
       let now := paused.afterAll whilePaused
       paused.run.phase = .paused ∧ now.run.graph ≠ paused.run.graph ∧
        (∃ checkpoint, now.run.checkpoint = some checkpoint ∧
          checkpoint.heads = now.run.graph.heads) ∧
        now.run.IsTakenUp Coordinator.accepting now.machine) ∧
      attempt Command.shutdown.perform (live.atTime .sample) = .ok (.ok .done) left ∧
        left.run.IsTakenUp { Coordinator.accepting with termination := .clean } left.machine := by
  let draft : NodeDraft := { kind := .atom, name := "only" }
  have passed : Run.passes (fun run started =>
      let grown := LiveRun.after { run, machine := started } .sample (.append draft)
      let live := grown.after .sample (.checkpoint [7])
      let paused := live.after .sample .pause
      let now := paused.afterAll whilePaused
      decide (live.run.hint = .performanceOptimized) &&
        decide grown.run.graph.Fits && decide live.run.graph.Fits &&
        decide paused.run.graph.Fits && decide (live.run.phase.isComplete = false) &&
        decide (paused.run.phase = .paused) && decide (now.run.graph ≠ paused.run.graph) &&
        (now.run.checkpoint.any fun checkpoint => checkpoint.isFor now.run.graph.heads) &&
        Run.passes (fun outcome _ => decide (outcome = .ok .done))
          (attempt Command.shutdown.perform (live.atTime .sample)))
      (Run.start .sample "sample" (some .performanceOptimized) .default .blank) = true := by
    decide +kernel
  obtain ⟨run, started, begins, holds⟩ := Run.of_passes passed
  simp only [Bool.and_eq_true, decide_eq_true_eq, Option.any_eq_true] at holds
  obtain ⟨⟨⟨⟨⟨⟨⟨⟨batched, fitsGrown⟩, fits⟩, fitsPaused⟩, unfinished⟩, paused⟩, grows⟩,
    checkpoint, taken, good⟩, shuts⟩ := holds
  have begun : Lived .sample { run, machine := started } [] :=
    .start Place.sample_isVacant (fun _ none => by cases none) begins
  have storable : Command.Storable (.append draft) := by
    simp [Command.Storable, NodeDraft.Storable, draft]
  obtain ⟨first, grown⟩ := begun.proceeds .sample storable fitsGrown
  have continued : Command.Storable (.checkpoint [7]) := trivial
  obtain ⟨second, lived⟩ := grown.proceeds .sample continued fits
  have pausing : Command.Storable .pause := trivial
  obtain ⟨third, livedPaused⟩ := lived.proceeds .sample pausing fitsPaused
  have given : ∀ given ∈ whilePaused, given.2.Storable ∧ given.2 ≠ .unpause := by
    simp [whilePaused, Command.Storable, Action.Storable]
  obtain ⟨-, -, -, resumed⟩ :=
    (survives_pause_and_shutdown livedPaused (List.not_mem_nil)
      Coordinator.accepting_isAccepting).1 paused whilePaused given rfl
  have unclaimed : Place.sample.path ∉
      { Coordinator.accepting with termination := .clean }.claimed := List.not_mem_nil
  obtain ⟨outcome, left, done, ok⟩ := Run.of_passes shuts
  obtain rfl := of_decide_eq_true ok
  obtain ⟨-, -, resumes⟩ :=
    (survives_pause_and_shutdown lived unclaimed Coordinator.accepting_isAccepting).2
      unfinished .sample left done rfl rfl
  exact ⟨_, _, left, lived, batched,
    ⟨paused, grows, ⟨checkpoint, taken, of_decide_eq_true good⟩, resumed⟩, done, resumes⟩

end Paused
end DurableRuns
