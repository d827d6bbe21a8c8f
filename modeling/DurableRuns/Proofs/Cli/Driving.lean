/-
# DurableRuns.Proofs.Cli.Driving -- the demonstration program drives its run

A run that writes every step and of which no write is refused goes where the demonstration program
drives it.  `Seems` says what is seen of such a run with all times set to one: between two steps
it is the history up to there, beside a continuation that tells the next step (`sightAt`).  Each
step leads from one such sight to the next (`oneStep_leads`), so the program passes through all of
them up to the one that it stops at (`drive_leads`), and at last it ends its run
(`drive_completes`).

It makes no difference whether the run is running or its program has just been reinstalled.
-/
import DurableRuns.Proofs.Cli.History
import DurableRuns.Proofs.Recovery.Lives
import DurableRuns.Proofs.Run.Lifecycle
import DurableRuns.Proofs.Run.Local

namespace DurableRuns

set_option autoImplicit false

open RunM

/-! ## What a program comes to -/

namespace Program

variable {α β : Type} {live between after : LiveRun}

/-- A program, run on a run, comes to a value. -/
def Comes (program : Program α) (live : LiveRun) (value : α) (after : LiveRun) : Prop :=
  ∃ replies, program.run live = .ok (value, replies) after

namespace Comes

theorem result (value : α) : (Program.result value).Comes live value live := ⟨[], rfl⟩

theorem ask {command : Command} {next : Except Error Reply → Program α}
    {outcome : Except Error Reply} {value : α}
    (done : attempt command.perform live = .ok outcome between)
    (rest : (next outcome).Comes between value after) :
    (Program.ask command next).Comes live value after := by
  obtain ⟨replies, runs⟩ := rest
  exact ⟨outcome :: replies, bind_eq_ok.2 ⟨_, _, done, bind_eq_ok.2 ⟨_, _, runs, rfl⟩⟩⟩

theorem bind {program : Program α} {next : α → Program β} {value : α} {last : β}
    (first : program.Comes live value between) (second : (next value).Comes between last after) :
    (program >>= next).Comes live last after := by
  induction program generalizing live with
  | result given =>
      obtain ⟨replies, runs⟩ := first
      cases runs
      exact second
  | ask command rest ih =>
      obtain ⟨replies, runs⟩ := first
      obtain ⟨outcome, left, asked, follows⟩ := bind_eq_ok.1 runs
      obtain ⟨⟨_, later⟩, _, goesOn, gives⟩ := bind_eq_ok.1 follows
      cases gives
      exact .ask asked (ih outcome ⟨later, goesOn⟩)

end Comes
end Program

/-! ## What is seen of a run, times aside -/

/-- What is seen of a run that goes on, be it that its program is just being reinstalled. -/
structure Sight.IsOngoing (sight : Sight) : Prop where
  phase : sight.phase = .running ∨ sight.phase = .resuming
  status : sight.status = .running
  result : sight.result = .pending

namespace Sight.IsOngoing

variable {sight : Sight}

theorem holdsAppends (ongoing : sight.IsOngoing) : sight.phase.holdsAppends = false := by
  rcases ongoing.phase with phase | phase
  all_goals rw [phase]; rfl

theorem isComplete (ongoing : sight.IsOngoing) : sight.phase.isComplete = false := by
  rcases ongoing.phase with phase | phase
  all_goals rw [phase]; rfl

theorem agrees (ongoing : sight.IsOngoing) : sight.phase.Agrees sight.status sight.result := by
  rw [ongoing.status, ongoing.result]
  rcases ongoing.phase with phase | phase
  · exact phase ▸ .running
  · exact phase ▸ .resuming

end Sight.IsOngoing

/-- A run that writes every step and of which no write is refused, and what is seen of it with all
times set to one. -/
structure LiveRun.Seems (now : Instant) (place : Place) (runId : String) (sight : Sight)
    (live : LiveRun) : Prop where
  settled : ∃ image, Settled live image
  place_eq : live.run.place = place
  runId_eq : live.run.runId = runId
  prompt : live.run.hint.writesEveryStep = true
  sight_eq : live.run.sight.retime (fun _ => now) = sight

namespace LiveRun.Seems

variable {now : Instant} {place : Place} {runId : String} {sight : Sight} {live after : LiveRun}

theorem isSaved (seems : live.Seems now place runId sight) {image : Image}
    (settled : Settled live image) : live.run.IsSaved :=
  settled.atRest (by simp [Run.mustBeSaved, seems.prompt])

/-- What a call leaves is seen as it is told without a look at the disk. -/
theorem sight_after (seems : live.Seems now place runId sight) (ongoing : sight.IsOngoing)
    (call : Call) {outcome : Except Error Reply}
    (done : attempt call.command.perform live = .ok outcome after) :
    sight.view now (call.retime fun _ => now) =
      ⟨(call.answer outcome).map (·.map (Reply.retime fun _ => now)),
        after.run.sight.retime fun _ => now⟩ := by
  have free : live.run.phase.holdsAppends = false := by
    have seen := seems.sight_eq
    subst seen
    exact ongoing.holdsAppends
  have shown := (Call.perform_view free call).of_attempt done
  rw [← seems.sight_eq]
  exact (Sight.view_retime _ _ call).trans (congrArg (View.retime fun _ => now) shown)

theorem performs (seems : live.Seems now place runId sight) (ongoing : sight.IsOngoing)
    (command : Command) (storable : command.Storable) {outcome : Except Error Reply}
    (done : attempt command.perform live = .ok outcome after) :
    after.Seems now place runId (after.run.sight.retime fun _ => now) := by
  obtain ⟨⟨image, settled⟩, place, rfl, prompt, rfl⟩ := seems
  obtain ⟨image', performs, -⟩ := settled.performs storable done
  have goesOn : EndsAs (Deed.command command).carryOut live fun _ => LetsGo False live :=
    Deed.carryOut_letsGo nofun ongoing.agrees
  obtain ⟨_, carried⟩ : ∃ ending,
      attempt (Deed.command command).carryOut live = .ok ending after := by
    cases outcome with
    | ok reply => exact ⟨.ok (), attempt_bind_of_ok done _⟩
    | error error => exact ⟨.error error, attempt_bind_of_error done _⟩
  exact ⟨⟨image', performs.settled⟩, performs.place_eq.trans place,
    (goesOn.of_attempt carried).runId_eq, performs.hint_eq ▸ prompt, rfl⟩

/-- A call that is to give a node does, and the run is seen as is told. -/
theorem call (seems : live.Seems now place runId sight) (ongoing : sight.IsOngoing)
    (call : Call) (storable : call.command.Storable) {node : Node} {next : Sight}
    (shows : sight.view now (call.retime fun _ => now) = ⟨some (.ok (.node node)), next⟩) :
    ∃ given after, attempt call.command.perform live = .ok (.ok (.node given)) after ∧
      given.id = node.id ∧ after.Seems now place runId next := by
  obtain ⟨outcome, after, done⟩ := attempt_returns call.command.perform live
  have left := (seems.sight_after ongoing call done).symm.trans shows
  obtain ⟨answered, rfl⟩ := View.mk.inj left
  have answered : outcome.map (Reply.retime fun _ => now) = .ok (.node node) := by
    cases call with
    | checkpoint => cases answered
    | _ => exact Option.some.inj answered
  cases outcome with
  | error error => cases answered
  | ok reply =>
      cases reply with
      | node given =>
          obtain rfl := Reply.node.inj (Except.ok.inj answered)
          exact ⟨given, after, done, given.id_retime.symm,
            seems.performs ongoing call.command storable done⟩
      | _ => cases answered

/-- A continuation is handed over. -/
theorem checkpoint (seems : live.Seems now place runId sight) (ongoing : sight.IsOngoing)
    (blob : Bytes) :
    ∃ after, attempt (Command.checkpoint blob).perform live = .ok (.ok .done) after ∧
      after.Seems now place runId
        { sight with checkpoint := some { heads := sight.graph.heads, blob, takenAt := now } } := by
  obtain ⟨image, settled⟩ := seems.settled
  have running : live.run.phase.isComplete = false := by
    have seen := seems.sight_eq
    subst seen
    exact ongoing.isComplete
  obtain ⟨after, image', taken, performs⟩ := takeCheckpoint_taken settled running blob
  have done : attempt (Command.checkpoint blob).perform live = .ok (.ok .done) after :=
    (Yields.bind .current (taken.bind (.pure Reply.done))).result
  have left := seems.sight_after ongoing (.checkpoint blob) done
  have holds : sight.holding now blob = after.run.sight.retime fun _ => now :=
    congrArg View.sight left
  rw [Sight.holding, ongoing.isComplete, if_neg Bool.false_ne_true] at holds
  exact ⟨after, done, holds ▸ seems.performs ongoing (.checkpoint blob) trivial done⟩

end LiveRun.Seems

/-! ## How far the program is -/

namespace Cli.DemoProgress

open Json

/-- How far the program is can be read back. -/
theorem decode?_encode {nextStep steps : Nat} (next : nextStep < UInt64.size)
    (all : steps < UInt64.size) :
    decode? (encode ⟨nextStep, steps⟩) = some ⟨nextStep, steps⟩ := by
  have ordinary : IsOrdinary (toJson ⟨nextStep, steps⟩) := by
    refine isOrdinary_record fun member inside => ?_
    simp only [List.mem_cons, List.not_mem_nil, or_false] at inside
    rcases inside with rfl | rfl
    · exact isOrdinary_nat next
    · exact isOrdinary_nat all
  have fields : (toJson ⟨nextStep, steps⟩).allFields? ["next_step", "steps"] =
      some [nat nextStep, nat steps] := by
    rw [toJson, allFields?_record]
    rfl
  unfold decode?
  rw [encode, parse_compact ordinary]
  simp only [Option.bind_eq_bind, Option.bind_some, fields, word?_nat next, word?_nat all]

end Cli.DemoProgress

/-! ## From step to step -/

namespace Cli.Demo

variable {now : Instant} {place : Place} {runId : String} {live : LiveRun} {phase : Phase}
  {step steps : Nat}

/-- What is seen of a run before a step, once its program has handed over how far it is. -/
def sightAt (phase : Phase) (now : Instant) (step steps : Nat) : Sight :=
  { phase, status := .running, result := .pending, graph := history now step
    checkpoint := some
      { heads := [2 * step + 1], blob := DemoProgress.encode ⟨step, steps⟩, takenAt := now } }

theorem isOngoing_sightAt (ongoing : phase = .running ∨ phase = .resuming) (now : Instant)
    (step steps : Nat) : (sightAt phase now step steps).IsOngoing :=
  ⟨ongoing, rfl, rfl⟩

/-- What is seen of a run that the program has ended. -/
def lastSight (now : Instant) (steps : Nat) : Sight :=
  { phase := .complete .success, status := .complete, result := .success
    graph := wholeHistory now steps, checkpoint := none }

theorem startDraft_storable (step : Nat) : (startDraft step).Storable := by
  intro action inside
  obtain rfl := List.mem_singleton.1 inside
  trivial

theorem endDraft_storable (step : Nat) : (endDraft step).Storable := by
  intro action inside
  cases inside

/-- A step leads from what is seen before it to what is seen before the next. -/
theorem oneStep_leads (ongoing : phase = .running ∨ phase = .resuming)
    (seems : live.Seems now place runId (sightAt phase now step steps)) :
    ∃ between, between.Seems now place runId (sightAt phase now (step + 1) steps) ∧
      ∀ {next : Fallible Bool} {value : Except Error Bool} {after : LiveRun},
        next.Comes between value after → (oneStep step steps next).Comes live value after := by
  have running := (isOngoing_sightAt ongoing now step steps).isComplete
  obtain ⟨start, live₁, first, startId, seems₁⟩ :=
    seems.call ⟨ongoing, rfl, rfl⟩ (.append (startDraft step)) (startDraft_storable step)
      (view_start running rfl)
  obtain ⟨_, live₂, second, -, seems₂⟩ :=
    seems₁.call ⟨ongoing, rfl, rfl⟩ (.attach (2 * step + 2) (stepLog step)) trivial
      (view_log running rfl)
  obtain ⟨_, live₃, third, -, seems₃⟩ :=
    seems₂.call ⟨ongoing, rfl, rfl⟩ (.append (endDraft step)) (endDraft_storable step)
      (view_end running rfl)
  obtain ⟨live₄, fourth, seems₄⟩ :=
    seems₃.checkpoint ⟨ongoing, rfl, rfl⟩ (DemoProgress.encode ⟨step + 1, steps⟩)
  refine ⟨live₄, seems₄, fun rest => ?_⟩
  -- The program names the node that began the step as the reply does.
  have start_id : start.id = 2 * step + 2 := startId
  have logs : attempt (Command.attach start.id (stepLog step)).perform live₁ = _ :=
    (congrArg (fun id => attempt (Command.attach id (stepLog step)).perform live₁) start_id).trans
      second
  have ends : attempt (Command.append { endDraft step with kind := .stepEnd start.id }).perform
      live₂ = _ :=
    (congrArg (fun id =>
      attempt (Command.append { endDraft step with kind := .stepEnd id }).perform live₂)
        start_id).trans third
  exact .ask first (.ask logs (.ask ends (.ask fourth rest)))

/-- A step is done unless it is the one to stop at. -/
theorem drive_step {stop : Option Nat} (within : step < steps) :
    drive ⟨step, steps⟩ stop =
      if stop = some step then .result (.ok false)
      else oneStep step steps (drive ⟨step + 1, steps⟩ stop) := by
  have left : steps - step = steps - (step + 1) + 1 := by omega
  have here : steps - (steps - (step + 1) + 1) = step := by omega
  show stepsLeft steps stop (steps - step) = _
  rw [left, stepsLeft, here]
  exact ite_congr rfl (fun _ => rfl) fun _ => rfl

theorem drive_last (steps : Nat) (stop : Option Nat) :
    drive ⟨steps, steps⟩ stop = requestNode (.finish .ok) fun _ => .result (.ok true) := by
  rw [drive, Nat.sub_self]
  rfl

/-- Steps that are not the one to stop at are done one after the other. -/
theorem drive_leads (ongoing : phase = .running ∨ phase = .resuming)
    {stop : Option Nat} {later : Nat} (onward : step ≤ later) (within : later ≤ steps)
    (goesOn : ∀ other, step ≤ other → other < later → stop ≠ some other)
    (seems : live.Seems now place runId (sightAt phase now step steps)) :
    ∃ between, between.Seems now place runId (sightAt phase now later steps) ∧
      ∀ {value : Except Error Bool} {after : LiveRun},
        (drive ⟨later, steps⟩ stop).Comes between value after →
          (drive ⟨step, steps⟩ stop).Comes live value after := by
  induction later, onward using Nat.le_induction with
  | base => exact ⟨live, seems, id⟩
  | succ later onward ih =>
      obtain ⟨between, seemsThen, leads⟩ :=
        ih (by omega) fun other least below => goesOn other least (by omega)
      obtain ⟨next, seemsNext, leadsNext⟩ := oneStep_leads ongoing seemsThen
      refine ⟨next, seemsNext, fun comes => leads ?_⟩
      rw [drive_step (by omega), if_neg (goesOn later onward (by omega))]
      exact leadsNext comes

/-- The program is driven up to the step that it stops at. -/
theorem drive_stops (ongoing : phase = .running ∨ phase = .resuming)
    {stop : Nat} (onward : step ≤ stop) (within : stop < steps)
    (seems : live.Seems now place runId (sightAt phase now step steps)) :
    ∃ after, (drive ⟨step, steps⟩ (some stop)).Comes live (.ok false) after ∧
      after.Seems now place runId (sightAt phase now stop steps) := by
  have goesOn (other : Nat) (_ : step ≤ other) (below : other < stop) : some stop ≠ some other :=
    fun same => Nat.ne_of_gt below (Option.some.inj same)
  obtain ⟨after, seemsThen, leads⟩ :=
    drive_leads ongoing onward (Nat.le_of_lt within) goesOn seems
  refine ⟨after, leads ?_, seemsThen⟩
  rw [drive_step within, if_pos rfl]
  exact .result _

/-- If it is to stop at no step it ends its run. -/
theorem drive_completes (ongoing : phase = .running ∨ phase = .resuming)
    (within : step ≤ steps) (seems : live.Seems now place runId (sightAt phase now step steps)) :
    ∃ after, (drive ⟨step, steps⟩ none).Comes live (.ok true) after ∧
      after.Seems now place runId (lastSight now steps) := by
  obtain ⟨between, seemsThen, leads⟩ := drive_leads ongoing within (Nat.le_refl _)
    (fun other _ _ => (Option.some_ne_none other).symm) seems
  obtain ⟨_, after, done, -, seemsLast⟩ :=
    seemsThen.call (isOngoing_sightAt ongoing now steps steps) (.finish .ok) trivial
      (view_finish (isOngoing_sightAt ongoing now steps steps).isComplete rfl)
  exact ⟨after, leads (drive_last steps none ▸ .ask done (.result _)), seemsLast⟩

/-! ## The whole program, and the rest of it -/

/-- The program hands over that it is before its first step, and goes on from there. -/
theorem program_begins (steps : Nat)
    (seems : live.Seems now place runId (Sight.first.retime fun _ => now)) :
    ∃ between, between.Seems now place runId (sightAt .running now 0 steps) ∧
      ∀ {stop : Option Nat} {value : Except Error Bool} {after : LiveRun},
        (drive ⟨0, steps⟩ stop).Comes between value after →
        (program steps stop).Comes live value after := by
  obtain ⟨between, done, begun⟩ :=
    seems.checkpoint ⟨.inl rfl, rfl, rfl⟩ (DemoProgress.encode ⟨0, steps⟩)
  exact ⟨between, begun, fun comes => .ask done comes⟩

/-- The program that is to stop does, and tells so. -/
theorem program_stops {stop : Nat} (within : stop < steps)
    (seems : live.Seems now place runId (Sight.first.retime fun _ => now)) :
    ∃ after, (program steps (some stop)).Comes live (.ok false) after ∧
      after.Seems now place runId (sightAt .running now stop steps) := by
  obtain ⟨between, begun, goesOn⟩ := program_begins steps seems
  obtain ⟨after, comes, seemsThen⟩ := drive_stops (.inl rfl) (Nat.zero_le stop) within begun
  exact ⟨after, goesOn comes, seemsThen⟩

/-- The program that is not to stop ends its run. -/
theorem program_completes (steps : Nat)
    (seems : live.Seems now place runId (Sight.first.retime fun _ => now)) :
    ∃ after, (program steps none).Comes live (.ok true) after ∧
      after.Seems now place runId (lastSight now steps) := by
  obtain ⟨between, begun, goesOn⟩ := program_begins steps seems
  obtain ⟨after, comes, seemsThen⟩ := drive_completes (.inl rfl) (Nat.zero_le steps) begun
  exact ⟨after, goesOn comes, seemsThen⟩

/-- The program that is reinstalled ends its run. -/
theorem resumer_completes {run : Run} (awake : run.phase ≠ .paused) (within : step ≤ steps)
    (word : steps < UInt64.size)
    (seems : live.Seems now place runId (sightAt .resuming now step steps)) :
    ∃ after, (resumer run (DemoProgress.encode ⟨step, steps⟩)).Comes live (.ok ()) after ∧
      after.Seems now place runId (lastSight now steps) := by
  obtain ⟨after, comes, seemsLast⟩ := drive_completes (.inr rfl) within seems
  refine ⟨after, ?_, seemsLast⟩
  have told := DemoProgress.decode?_encode (Nat.lt_of_le_of_lt within word) word
  rw [resumer, told]
  simp only [if_neg awake]
  exact comes.bind (.result _)

end Cli.Demo
end DurableRuns
