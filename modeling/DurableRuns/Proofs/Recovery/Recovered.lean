/-
# DurableRuns.Proofs.Recovery.Recovered -- a recovered run is settled

A recovery opens a run, hands it to the resumer if nothing stands in the way, and closes it as
failed if something does.  Whatever the resumer does, it leaves a settled run, and every disk
on the way is whole (`Coordinator.recoverRun_goes`).
-/
import DurableRuns.Proofs.Run.Whole
import DurableRuns.Recovery.Coordinator

namespace DurableRuns

set_option autoImplicit false

open Run RunM

variable {live : LiveRun} {image : Image}

/-! ## Reinstalling a program -/

/-- The run whose program is about to be reinstalled. -/
def Run.resuming (run : Run) : Run :=
  if run.phase = .running then { run with phase := .resuming } else run

/-- The run whose program has been reinstalled. -/
def Run.resumed (run : Run) : Run :=
  if run.phase = .resuming then { run with phase := .running } else run

/-- Running and resuming are the same to the disk. -/
theorem Settled.rephased {phase : Phase} (settled : Settled live image)
    (old : live.run.phase = .running ∨ live.run.phase = .resuming)
    (new : phase = .running ∨ phase = .resuming) :
    Settled { live with run := { live.run with phase } } image := by
  have unheld : phase.holdsAppends = live.run.phase.holdsAppends ∧
      phase.isComplete = live.run.phase.isComplete := by
    rcases old with old | old <;> rcases new with new | new <;> rw [old, new] <;> exact ⟨rfl, rfl⟩
  have sound : Life.Sound { live.run with phase }.life := by
    have before := settled.sound
    refine ⟨?_, before.recordId, before.recordHint, ?_, before.unfailed⟩
    · have told : live.run.phase.IsTold live.run.record.result live.run.record.status :=
        before.phase
      show phase.IsTold live.run.record.result live.run.record.status
      cases status : live.run.record.status with
      | running => exact new
      | _ =>
          rw [status] at told
          rcases old with old | old <;> cases old.symm.trans told
    · intro ended
      exact before.ended (unheld.2.symm.trans ended)
  refine { settled with tracks := { settled.tracks with life := rfl }, sound, atRest := ?_ }
  intro resting
  have saved : live.run.IsSaved := by
    apply settled.atRest
    rw [mustBeSaved] at resting ⊢
    rw [← unheld.1, ← unheld.2]
    exact resting
  exact ⟨saved.flag, saved.persisted⟩

theorem Settled.resuming (settled : Settled live image) :
    Settled { live with run := live.run.resuming } image := by
  rw [Run.resuming]
  split
  next running => exact settled.rephased (.inl running) (.inr rfl)
  next => exact settled

theorem Settled.resumed (settled : Settled live image) :
    Settled { live with run := live.run.resumed } image := by
  rw [Run.resumed]
  split
  next resuming => exact settled.rephased (.inr resuming) (.inl rfl)
  next => exact settled

theorem Run.place_resuming (run : Run) : run.resuming.place = run.place := by
  rw [resuming]
  split <;> rfl

theorem Run.graph_resuming (run : Run) : run.resuming.graph = run.graph := by
  rw [resuming]
  split <;> rfl

theorem Run.place_resumed (run : Run) : run.resumed.place = run.place := by
  rw [resumed]
  split <;> rfl

theorem Run.graph_resumed (run : Run) : run.resumed.graph = run.graph := by
  rw [resumed]
  split <;> rfl

/-- Where its program has been reinstalled, a run is not resuming anymore. -/
theorem Run.phase_resumed_ne (run : Run) : run.resumed.phase ≠ .resuming := by
  rw [resumed]
  split
  next => exact nofun
  next other => exact other

/-- The actions that a resumer may ever bring along can be written. -/
def Resumer.Storable (resumer : Resumer) : Prop := ∀ run blob, (resumer run blob).Storable

namespace Coordinator

/-! ## Taking on a run -/

/-- The graphs that a run holds while the resumer acts on it, if the resumer is called. -/
def held (coordinator : Coordinator) (live : LiveRun) : Option ResumeCall → List Graph
  | none => []
  | some call =>
      (coordinator.resumer live.run.resuming call.blob).held
        { live with run := live.run.resuming }

/-- A run that is handed to the resumer comes back settled, accepted or not. -/
theorem handOver_goes {coordinator : Coordinator} (storable : coordinator.resumer.Storable)
    (settled : Settled live image) (blob : Bytes) :
    ∃ call obstacle after image',
      Goes (coordinator.held live (some call)) (handOver coordinator.resumer blob) live
        (.ok (call, obstacle)) after image' ∧
      after.run.graph ∈ coordinator.held live (some call) := by
  obtain ⟨⟨verdict, replies⟩, between, image₁, goes, inside⟩ :=
    Program.run_goes (storable live.run.resuming blob) settled.resuming
  let call : ResumeCall :=
    { runId := live.run.resuming.runId, phase := live.run.resuming.phase, blob, replies }
  have enter : Goes (coordinator.held live (some call)) enterResuming live (.ok ())
      { live with run := live.run.resuming } image :=
    .still settled.resuming (fun _ => .update _) (place_resuming _) (graph_resuming _)
  have look : Goes (coordinator.held live (some call)) current
      { live with run := live.run.resuming } (.ok live.run.resuming)
      { live with run := live.run.resuming } image :=
    .still settled.resuming (fun _ => .current) rfl rfl
  cases verdict with
  | ok =>
      have leave : Goes (coordinator.held live (some call)) leaveResuming between (.ok ())
          { between with run := between.run.resumed } image₁ :=
        .still goes.settled.resumed (fun _ => .update _) (place_resumed _) (graph_resumed _)
      refine ⟨call, none, _, image₁, enter.bind (look.bind (goes.bind (leave.bind
        (.still goes.settled.resumed (fun _ => .pure _) rfl rfl)))), ?_⟩
      rw [graph_resumed]
      exact inside
  | error reason =>
      exact ⟨call, some (.continuation (.rejected reason)), between, image₁,
        enter.bind (look.bind (goes.bind (.still goes.settled (fun _ => .pure _) rfl rfl))),
        inside⟩

/-- A run that is resumed, or is not, is settled. -/
theorem resume_goes {coordinator : Coordinator} (storable : coordinator.resumer.Storable)
    (settled : Settled live image) (report : OpeningReport) :
    ∃ call obstacle after image',
      Goes (live.run.graph :: coordinator.held live call) (coordinator.resume report) live
        (.ok (call, obstacle)) after image' ∧
      after.run.graph ∈ live.run.graph :: coordinator.held live call := by
  have stay (obstacle : Obstacle) {step : RunM (Option ResumeCall × Option Obstacle)}
      (same : step = pure (none, some obstacle)) :
      Goes [live.run.graph] step live (.ok (none, some obstacle)) live image :=
    .still settled (fun _ => same ▸ .pure _) rfl rfl
  have look {held : List Graph} : Goes held current live (.ok live.run) live image :=
    .still settled (fun _ => .current) rfl rfl
  have first (held : List Graph) : live.run.graph ∈ live.run.graph :: held := List.mem_cons_self
  cases unfit : live.run.record.obstacle? coordinator.termination with
  | some obstacle =>
      refine ⟨none, some obstacle, live, image, look.bind ?_, first _⟩
      rw [unfit]
      exact stay obstacle rfl
  | none =>
      cases found : report.obstacle? live.run.record live.run.checkpoint with
      | some obstacle =>
          refine ⟨none, some obstacle, live, image, look.bind ?_, first _⟩
          rw [unfit]
          simp only [found]
          exact stay obstacle rfl
      | none =>
          cases there : live.run.checkpoint with
          | none =>
              refine ⟨none, some .noCheckpoint, live, image, look.bind ?_, first _⟩
              rw [there] at found
              rw [unfit]
              simp only [there, found]
              exact stay .noCheckpoint rfl
          | some checkpoint =>
              obtain ⟨call, obstacle, after, image', goes, inside⟩ :=
                handOver_goes storable settled checkpoint.blob
              have goes := goes.mono (List.subset_cons_self live.run.graph _)
              refine ⟨some call, obstacle, after, image', look.bind ?_,
                List.mem_cons_of_mem _ inside⟩
              rw [there] at found
              rw [unfit]
              simp only [there, found]
              exact goes.bind (.still goes.settled (fun _ => .pure _) rfl rfl)

/-- A run whose record is not clean is not handed to the resumer. -/
theorem resume_unclean (coordinator : Coordinator) (unclean : live.run.record.clean ≠ .clean)
    (report : OpeningReport) :
    ∃ obstacle, ∀ meets, Yields meets (coordinator.resume report) live
      (.ok (none, some obstacle)) live := by
  have unfit : ∃ obstacle, live.run.record.obstacle? coordinator.termination = some obstacle := by
    rw [Record.obstacle?, if_neg unclean, if_neg unclean]
    split
    · exact ⟨_, rfl⟩
    · split <;> exact ⟨_, rfl⟩
  obtain ⟨obstacle, found⟩ := unfit
  refine ⟨obstacle, fun meets => .bind .current ?_⟩
  rw [found]
  exact .pure _

/-- A run that is closed because it cannot be resumed is settled. -/
theorem fail_goes (settled : Settled live image) (reason : String) :
    ∃ after image',
      Goes [graphBefore live.run.diskFlag live.run.graph after.run.graph, after.run.graph]
        (fail reason) live (.ok ()) after image' := by
  obtain ⟨after, image', done, performs⟩ := fail_keeps settled reason
  refine ⟨after, image', ?_⟩
  by_cases clean : live.run.diskFlag = .clean
  · rw [graphBefore, if_pos clean] at done ⊢
    exact .of_performs settled done performs
  · rw [graphBefore, if_neg clean] at done ⊢
    refine ⟨done.mono fun disk guarded fits => ?_, performs.settled, performs.place_eq,
      performs.nextId_le⟩
    have whole := guarded.opensWhole fits (Nat.le_refl _) performs.settled.well
      performs.settled.storable performs.settled.well performs.settled.storable
    exact performs.place_eq ▸ whole

/-- A run that is taken on is settled.  If its record was not clean, the only graph that ever
stands beside a clean record is the last one. -/
theorem settle_goes {coordinator : Coordinator} (storable : coordinator.resumer.Storable)
    (settled : Settled live image) (report : OpeningReport) :
    ∃ outcome call after image',
      Goes (graphBefore live.run.diskFlag live.run.graph after.run.graph :: after.run.graph ::
          coordinator.held live call) (coordinator.settle report) live (.ok (outcome, call)) after
        image' := by
  have look {held : List Graph} : Goes held current live (.ok live.run) live image :=
    .still settled (fun _ => .current) rfl rfl
  by_cases clean : live.run.diskFlag = .clean
  · have same (after : Graph) : graphBefore live.run.diskFlag live.run.graph after =
        live.run.graph := by
      rw [graphBefore, if_pos clean]
    simp only [same]
    obtain ⟨call, obstacle, between, image₁, goes, inside⟩ :=
      resume_goes storable settled report
    cases obstacle with
    | none =>
        refine ⟨.resumed, call, between, image₁, look.bind ((goes.mono ?_).bind
          (.still goes.settled (fun _ => .pure _) rfl rfl))⟩
        exact List.cons_subset_cons _ (List.subset_cons_self _ _)
    | some obstacle =>
        obtain ⟨after, image₂, closes⟩ := fail_goes goes.settled
          (Error.unresumable live.run.runId obstacle).message
        have first : live.run.graph :: coordinator.held live call ⊆
            live.run.graph :: after.run.graph :: coordinator.held live call :=
          List.cons_subset_cons _ (List.subset_cons_self _ _)
        have last : [graphBefore between.run.diskFlag between.run.graph after.run.graph,
            after.run.graph] ⊆ live.run.graph :: after.run.graph :: coordinator.held live call := by
          have there := first inside
          rw [graphBefore]
          split
          · simp only [List.cons_subset, there, true_and]
            simp
          · simp
        exact ⟨.failed (.unresumable live.run.runId obstacle), call, after, image₂,
          look.bind ((goes.mono first).bind ((closes.mono last).bind
            (.still closes.settled (fun _ => .pure _) rfl rfl)))⟩
  · have unclean : live.run.record.clean ≠ .clean := by
      rw [settled.tracks.flag _ settled.record]
      exact clean
    obtain ⟨obstacle, stays⟩ := resume_unclean coordinator unclean report
    obtain ⟨after, image₂, closes⟩ := fail_goes settled
      (Error.unresumable live.run.runId obstacle).message
    refine ⟨.failed (.unresumable live.run.runId obstacle), none, after, image₂,
      look.bind (.bind (.still settled stays rfl rfl) ((closes.mono ?_).bind
        (.still closes.settled (fun _ => .pure _) rfl rfl)))⟩
    simp [held]

/-- A run that can be opened is settled by the coordinator, unless it has ended. -/
theorem takeOn_eq [Numbering]
    (coordinator : Coordinator) {place : Place} {machine : Machine} {run : Run}
    {report : OpeningReport} (opened : openReporting place machine = .ok (run, report) machine)
    (name : String) :
    coordinator.takeOn place name machine =
      if run.phase.isComplete then
        .ok { place, runId := run.runId, outcome := .skipped .alreadyComplete, run := some run,
              call := none } machine
      else
        match (coordinator.settle report).runOn run machine with
        | .ok ((outcome, call), after) machine =>
            .ok { place, runId := run.runId, outcome, run := some after, call } machine
        | .error error machine => .error error machine := by
  simp only [takeOn, tryCatch, tryCatchThe, MonadExceptOf.tryCatch, EStateM.tryCatch, bind,
    EStateM.bind, opened, pure, EStateM.pure]
  cases run.phase.isComplete with
  | true => rfl
  | false =>
      rw [if_neg Bool.false_ne_true, if_neg Bool.false_ne_true]
      simp only [EStateM.bind]
      cases (coordinator.settle report).runOn run machine with
      | ok value after => rfl
      | error error after => rfl

/-- The name under which a directory is taken on. -/
def directoryNameOf (place : Place) : String := place.path.getLast?.getD place.shown

/-- A directory that was not taken on before is taken on. -/
theorem recoverRun_eq_takeOn [Numbering]
    {coordinator : Coordinator} {place : Place} {machine after : Machine}
    {report : RecoveryReport} (unclaimed : place.path ∉ coordinator.claimed)
    (taken : coordinator.takeOn place (directoryNameOf place) machine = .ok report after) :
    coordinator.recoverRun place machine =
      .ok (report, { coordinator with claimed := place.path :: coordinator.claimed }) after := by
  rw [recoverRun, if_neg unclaimed]
  exact bind_eq_ok.2 ⟨report, after, taken, rfl⟩

/-- A run that was taken on before is left alone. -/
theorem recoverRun_claimed {coordinator kept : Coordinator} {place : Place}
    {machine after : Machine} {report : RecoveryReport} (claimed : place.path ∈ coordinator.claimed)
    (recovers : coordinator.recoverRun place machine = .ok (report, kept) after) :
    report.outcome = .skipped .alreadyClaimed ∧ report.run = none ∧ after = machine := by
  rw [recoverRun, if_pos claimed] at recovers
  cases recovers
  exact ⟨rfl, rfl, rfl⟩

/-- **A recovered run is settled**: a directory that was not taken on before is taken on, and
every disk on the way is whole. -/
theorem recoverRun_goes {coordinator : Coordinator} (storable : coordinator.resumer.Storable)
    (settled : Settled live image) (fits : live.run.graph.Fits) {machine : Machine}
    (same : machine.disk = live.machine.disk)
    (willing : ∀ refusal ∈ machine.refusals, refusal = false)
    (unclaimed : live.run.place.path ∉ coordinator.claimed) :
    ∃ report after image',
      coordinator.recoverRun live.run.place machine =
        .ok (report, { coordinator with
          claimed := live.run.place.path :: coordinator.claimed }) after.machine ∧
      report.run = some after.run ∧ Settled after image' ∧ after.run.place = live.run.place ∧
      Passes (fun disk => after.run.graph.Fits → OpensWhole live.run.place
          (graphBefore live.run.diskFlag (live.reopened image).graph after.run.graph ::
            after.run.graph :: coordinator.held { run := live.reopened image, machine } report.call)
          disk) machine after.machine := by
  have reopened := settled.reopened_settled same willing
  have flag : (live.reopened image).diskFlag = live.run.diskFlag :=
    settled.tracks.flag _ settled.record
  obtain ⟨found, opened⟩ := settled.opens fits same
  have takes := takeOn_eq coordinator opened (directoryNameOf live.run.place)
  cases complete : (live.reopened image).phase.isComplete with
  | true =>
      rw [complete, if_pos rfl] at takes
      exact ⟨_, { run := live.reopened image, machine }, image,
        recoverRun_eq_takeOn unclaimed takes, rfl, reopened, rfl, .refl _⟩
  | false =>
      obtain ⟨outcome, call, after, image', goes⟩ := settle_goes storable reopened found
      have settles : (coordinator.settle found).runOn (live.reopened image) machine =
          .ok ((outcome, call), after.run) after.machine :=
        runOn_eq_ok.2 (Yields.attempt_eq_ok.1 goes.yields.result)
      rw [complete, settles] at takes
      rw [← flag]
      exact ⟨_, after, image', recoverRun_eq_takeOn unclaimed takes, rfl, goes.settled, goes.place_eq,
        goes.yields.passes⟩

end Coordinator
end DurableRuns
