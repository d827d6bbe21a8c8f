/-
# DurableRuns.Proofs.Cli.Resumed -- the demonstration that stopped is taken up again

The only run under a root directory, of which the program stopped before a step, is opened as it
was left, handed over with how far the program was, and driven to its end
(`recoverRun_completes`).  So the recovery command reports it as resumed, whether or not it is told
that the process before was killed, and leaves what the program leaves that does not stop
(`recover_completes`).
-/
import DurableRuns.Proofs.Cli.Commands

namespace DurableRuns

set_option autoImplicit false

open Run RunM

/-- The report on a run that was opened names it. -/
theorem Coordinator.runId_of_recoverRun {coordinator kept : Coordinator} {place : Place}
    {machine after : Machine} {opened : Run} {found : OpeningReport} {report : RecoveryReport}
    (opens : openReporting place machine = .ok (opened, found) machine)
    (unclaimed : place.path ∉ coordinator.claimed)
    (recovers : coordinator.recoverRun place machine = .ok (report, kept) after) :
    report.runId = opened.runId := by
  have takes := takeOn_eq coordinator opens (directoryNameOf place)
  rw [recoverRun, if_neg unclaimed] at recovers
  obtain ⟨taken, left, took, gives⟩ := bind_eq_ok.1 recovers
  cases gives
  have told := takes.symm.trans took
  split at told
  · cases told
    rfl
  · split at told
    · cases told
      rfl
    · cases told

namespace Cli

variable {root : Place} {newName : String} {live : LiveRun} {later : Machine} {now : Instant}
  {step steps : Nat}

namespace Demo

variable {place : Place} {runId : String}

theorem graph_of_seems (seems : live.Seems now place runId (sightAt .running now step steps)) :
    live.run.graph.retime (fun _ => now) = history now step :=
  congrArg Sight.graph seems.sight_eq

/-- What the program has handed over is good for a resume. -/
theorem goodBlob?_of_seems (seems : live.Seems now place runId (sightAt .running now step steps)) :
    live.run.snapshot.goodBlob? = some (DemoProgress.encode ⟨step, steps⟩) := by
  have heads : live.run.graph.heads = [2 * step + 1] :=
    (congrArg Graph.heads (graph_of_seems seems)).trans (heads_history now step)
  obtain ⟨checkpoint, held, same⟩ :=
    Option.map_eq_some_iff.1 (congrArg Sight.checkpoint seems.sight_eq)
  have taken : checkpoint.heads = [2 * step + 1] := congrArg Checkpoint.heads same
  have blob : checkpoint.blob = DemoProgress.encode ⟨step, steps⟩ := congrArg Checkpoint.blob same
  exact Snapshot.goodBlob?_eq_some_iff.2 ⟨checkpoint, held, taken.trans heads.symm, blob⟩

theorem fits_of_seems (seems : live.Seems now place runId (sightAt .running now step steps))
    (words : 2 * step + 2 ≤ UInt64.size) : live.run.graph.Fits := by
  have nextId : live.run.graph.nextId = 2 * step + 2 :=
    (congrArg Graph.nextId (graph_of_seems seems)).trans (nextId_history now step)
  rw [Graph.Fits, nextId]
  exact words

/-- A run that stopped is opened as it was left. -/
theorem seems_reopened (seems : live.Seems now place runId (sightAt .running now step steps))
    (words : 2 * step + 2 ≤ UInt64.size) (killed : later.disk = live.machine.disk)
    (willing : ∀ refusal ∈ later.refusals, refusal = false) {opened : Run}
    (opens : openAt place later = .ok opened later) :
    opened.runId = runId ∧
      LiveRun.Seems now place runId (sightAt .resuming now step steps)
        { run := opened.resuming, machine := later } := by
  have fits := fits_of_seems seems words
  obtain ⟨image, settled⟩ := seems.settled
  have saved := seems.isSaved settled
  obtain ⟨-, rfl, rfl, prompt, seen⟩ := seems
  have phase : live.run.phase = .running := congrArg Sight.phase seen
  have saves := settled.saves saved (phase ▸ by decide)
  have shows := settled.tracks.shows
  rw [← killed] at shows
  obtain ⟨run, opensRun, same, -⟩ := saves.opens (settled.storable_image fits) shows
  obtain ⟨report, opening⟩ := settled.opens fits killed
  have reopens := openAt_eq_ok_iff.2 ⟨_, opening⟩
  cases reopens.symm.trans opens
  cases opensRun.symm.trans reopens
  have settledNow := (settled.reopened_settled killed willing).resuming
  have running : (live.reopened image).phase = .running :=
    (congrArg Snapshot.phase same).trans phase
  have resuming : (live.reopened image).resuming =
      { live.reopened image with phase := .resuming } := if_pos running
  rw [resuming] at settledNow ⊢
  have runId_eq : (live.reopened image).runId = live.run.runId := congrArg Snapshot.runId same
  have hint_eq : (live.reopened image).hint = live.run.hint := congrArg Snapshot.hint same
  refine ⟨runId_eq, ?_⟩
  constructor
  case settled => exact ⟨image, settledNow⟩
  case place_eq => rfl
  case runId_eq => exact runId_eq
  case prompt => exact (congrArg Hint.writesEveryStep hint_eq).trans prompt
  case sight_eq =>
    have regained : (live.reopened image).sight = live.run.sight := sight_congr same
    have whole := (congrArg (Sight.retime fun _ => now) regained).trans seen
    exact congrArg (fun sight : Sight => { sight with phase := .resuming }) whole

end Demo

/-- The run that stopped is handed to the program that is reinstalled, which ends it. -/
theorem recoverRun_completes {coordinator : Coordinator}
    (only : live.IsOnly now root newName (Demo.sightAt .running now step steps))
    (name : Place.IsStep newName) (within : step ≤ steps) (word : steps < UInt64.size)
    (words : 2 * step + 2 ≤ UInt64.size) (killed : later.disk = live.machine.disk)
    (willing : ∀ refusal ∈ later.refusals, refusal = false)
    (unclaimed : (root.join newName).path ∉ coordinator.claimed)
    (resumer : coordinator.resumer = Demo.resumer) :
    ∃ (after : LiveRun) (report : RecoveryReport) (kept : Coordinator),
      coordinator.recoverRun (root.join newName) later = .ok (report, kept) after.machine ∧
      report.runId = newName ∧ report.outcome = .resumed ∧ report.run = some after.run ∧
      after.IsOnly now root newName (Demo.lastSight now steps) := by
  have fits := Demo.fits_of_seems only.toSeems words
  have good := Demo.goodBlob?_of_seems only.toSeems
  have phase : live.run.phase = .running := congrArg Sight.phase only.sight_eq
  have unfinished : live.run.phase.isComplete = false := phase ▸ rfl
  obtain ⟨image, settled⟩ := only.settled
  have saved := only.isSaved settled
  rw [← only.place_eq] at unclaimed
  obtain ⟨opened, report, left, opens, -, recovers, hands, -⟩ :=
    Coordinator.recoverRun_saved settled saved fits unfinished unclaimed killed
      (settled.isFit saved (.inr (.inr only.prompt)))
  obtain ⟨verdict, handed⟩ := hands _ good
  obtain ⟨replies, between, runs, -, ends⟩ := handed.called
  rw [only.place_eq] at opens recovers unclaimed
  obtain ⟨openedId, seems⟩ := Demo.seems_reopened only.toSeems words killed willing opens
  -- The machine is another, but the disk under the root is as it was.
  have onlyNow : LiveRun.IsOnly now root newName (Demo.sightAt .resuming now step steps)
      { run := opened.resuming, machine := later } := ⟨seems, killed ▸ only.names⟩
  have awake : opened.resuming.phase ≠ .paused := by
    have resuming : opened.resuming.phase = .resuming := congrArg Sight.phase seems.sight_eq
    rw [resuming]
    decide
  obtain ⟨after, comes, seemsLast⟩ := Demo.resumer_completes awake within word seems
  rw [resumer] at runs
  obtain ⟨_, completes⟩ := id comes
  cases completes.symm.trans runs
  obtain ⟨outcome, taken, rfl⟩ := ends
  have phaseLast : between.run.phase = .complete .success :=
    congrArg Sight.phase seemsLast.sight_eq
  have resumed : between.run.resumed = between.run := if_neg (phaseLast ▸ by decide)
  obtain ⟨found, opening⟩ := openAt_eq_ok_iff.1 opens
  exact ⟨between, report, _, recovers,
    (Coordinator.runId_of_recoverRun opening unclaimed recovers).trans openedId, outcome,
    resumed ▸ taken, onlyNow.comes name comes seemsLast⟩

/-- It is the only one that the coordinator takes on. -/
theorem recoverAll_completes {coordinator : Coordinator}
    (only : live.IsOnly now coordinator.root newName (Demo.sightAt .running now step steps))
    (name : Place.IsStep newName) (within : step ≤ steps) (word : steps < UInt64.size)
    (words : 2 * step + 2 ≤ UInt64.size) (killed : later.disk = live.machine.disk)
    (willing : ∀ refusal ∈ later.refusals, refusal = false)
    (fresh : coordinator.claimed = []) (resumer : coordinator.resumer = Demo.resumer) :
    ∃ (after : LiveRun) (report : RecoveryReport) (kept : Coordinator),
      coordinator.recoverAll later = .ok ([report], kept) after.machine ∧
      report.runId = newName ∧ report.outcome = .resumed ∧ report.run = some after.run ∧
      after.IsOnly now coordinator.root newName (Demo.lastSight now steps) := by
  have unclaimed : (coordinator.root.join newName).path ∉ coordinator.claimed := by
    rw [fresh]
    exact List.not_mem_nil
  obtain ⟨after, report, kept, recovers, runId, outcome, taken, onlyLast⟩ :=
    recoverRun_completes only name within word words killed willing unclaimed resumer
  refine ⟨after, report, kept, ?_, runId, outcome, taken, onlyLast⟩
  obtain ⟨image, settled⟩ := only.settled
  have listed : Coordinator.listRuns later.disk coordinator.root =
      .ok [coordinator.root.join newName] := by
    rw [killed]
    exact Coordinator.listRuns_only only.names (only.place_eq ▸ settled.tracks.shows) settled.record
  rw [Coordinator.recoverAll_eq listed, Coordinator.recoverEach]
  exact bind_eq_ok.2 ⟨_, _, recovers, rfl⟩

/-- The report on a run that has ended is printed, and its shutdown does nothing. -/
theorem printReports_ended {report : RecoveryReport} (taken : report.run = some live.run)
    (ended : live.run.phase.isComplete = true) (lines : List String) :
    printReports [report] (live.machine, lines) =
      .ok () (live.machine, lines ++ [report.runId ++ ": " ++ report.outcome.describe]) := by
  have still : shutdown.runOn live.run live.machine = .ok ((), live.run) live.machine := by
    refine runOn_eq_ok.2 (bind_eq_ok.2 ⟨live.run, live, rfl, ?_⟩)
    rw [ended]
    rfl
  rw [printReports, taken]
  exact bind_eq_ok.2 ⟨(), _, rfl, bind_eq_ok.2 ⟨_, _, onMachine_eq_ok still _, rfl⟩⟩

/-- The only run under a root is resumed, and goes to its end. -/
theorem recover_completes
    (only : live.IsOnly now root newName (Demo.sightAt .running now step steps))
    (name : Place.IsStep newName) (apart : newName ≠ ".clean-shutdown") (within : step ≤ steps)
    (word : steps < UInt64.size) (words : 2 * step + 2 ≤ UInt64.size)
    (killed : later.disk = live.machine.disk)
    (willing : ∀ refusal ∈ later.refusals, refusal = false) (config : Config) (dirty : Bool)
    (lines : List String) :
    ∃ left image,
      recover config root dirty (later, lines) =
        .ok () (left, lines ++ [newName ++ ": Resumed", "Recovered 1 run(s)."]) ∧
      Shows left.disk (root.join newName) .immediate image ∧
      Demo.IsWhole now newName steps image := by
  let coordinator : Coordinator :=
    { root, termination := .dirty, resumer := Demo.resumer, config }
  obtain ⟨after, report, kept, recovers, runId, outcome, taken, onlyLast⟩ :=
    recoverAll_completes (show live.IsOnly now coordinator.root newName _ from only) name within
      word words killed willing rfl rfl
  have phase : after.run.phase = .complete .success := congrArg Sight.phase onlyLast.sight_eq
  obtain ⟨image, shows, whole⟩ := Demo.isWhole_of_seems onlyLast.toSeems
  obtain ⟨left, leaves, keeps⟩ := onlyLast.leaveMarker name apart
  refine ⟨left, image, ?_, keeps shows, whole⟩
  have told : report.runId ++ ": " ++ report.outcome.describe = newName ++ ": Resumed" := by
    rw [runId, outcome, String.append_assoc]
    rfl
  have prints := printReports_ended taken (phase ▸ rfl) lines
  rw [told] at prints
  have counted : "Recovered " ++ toString [report].length ++ " run(s)." =
      "Recovered 1 run(s)." := by
    show "Recovered " ++ toString 1 ++ " run(s)." = _
    decide
  have ends : recover config root true (later, lines) =
      .ok () (left, lines ++ [newName ++ ": Resumed", "Recovered 1 run(s)."]) := by
    refine bind_eq_ok.2 ⟨.dirty, _, rfl, bind_eq_ok.2 ⟨_, _, onMachine_eq_ok recovers lines,
      bind_eq_ok.2 ⟨_, _, prints, bind_eq_ok.2 ⟨_, _, onMachine_eq_ok leaves _, ?_⟩⟩⟩⟩
    rw [counted, print_eq, List.append_assoc, List.singleton_append]
  -- What the command learns of the process before is the same with and without the flag.
  cases dirty with
  | true => exact ends
  | false =>
      have free : later.disk.IsFree root.path := killed ▸ (only.reached name).isFree
      have absent : later.disk.at? (root.path ++ [".clean-shutdown"]) = none :=
        killed ▸ only.absent apart
      have learns := onMachine_eq_ok (Host.learnTermination_eq_dirty free absent) lines
      exact (Machine.bind_of_ok learns).trans ends

end Cli
end DurableRuns
