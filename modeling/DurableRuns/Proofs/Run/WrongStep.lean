/-
# DurableRuns.Proofs.Run.WrongStep -- a step that is structurally wrong fails its run

As long as the clients of a run note no block ends themselves, its graph is intact and its flow
goes on for as long as the run does (`Sight.IsInOrder`); every command keeps this, whatever becomes
of its writes.  If no write fails, the run is settled besides, and the host has not been told to
let go of it (`LiveRun.IsUsedSince`).

Main statement: `wrong_step_fails_run`.  A step that such a run refuses is refused for what is wrong
with it.  The run is then closed as failed, in memory and on disk, and nothing of it is lost.
-/
import DurableRuns.Proofs.Flow.Refusal
import DurableRuns.Proofs.Recovery.Owned
import DurableRuns.Proofs.Run.Alike

namespace DurableRuns

set_option autoImplicit false

open Run RunM

/-! ## Graphs that commands grow -/

/-- A command notes no block end. -/
def Command.IsPlain : Command → Prop
  | .append draft => ∀ action ∈ draft.actions, action.kind ≠ .blockEnd
  | .attach _ action => action.kind ≠ .blockEnd
  | _ => True

/-- What notes no block end can be written. -/
theorem Command.IsPlain.storable {command : Command} (plain : command.IsPlain) :
    command.Storable := by
  have fits {action : Action} (other : action.kind ≠ .blockEnd) : action.Storable := by
    cases action with
    | blockEnd closing => exact absurd rfl other
    | _ => trivial
  cases command with
  | append draft => exact fun action inside => fits (plain action inside)
  | attach id action => exact fits plain
  | _ => trivial

/-- The graph is intact, and the flow goes on for as long as the run does. -/
structure Sight.IsInOrder (sight : Sight) : Prop where
  intact : sight.graph.IsIntact
  goesOn : sight.phase.isComplete = false → sight.graph.endNode? = none

theorem actionsOf_plain {kind : NodeKind} {actions : List Action} {now : Instant}
    (plain : ∀ action ∈ actions, action.kind ≠ .blockEnd) :
    ∀ action ∈ actionsOf kind actions now, action.kind ≠ .blockEnd := by
  intro action inside
  rcases mem_actionsOf inside with rfl | given
  · nofun
  · exact plain action given

namespace Sight.IsInOrder

variable {sight other : Sight}

/-- What of a run has changed may be its phase, as long as it does not go on anew. -/
theorem rephased (inOrder : sight.IsInOrder) (graph : other.graph = sight.graph)
    (ended : sight.phase.isComplete = true → other.phase.isComplete = true) :
    other.IsInOrder := by
  refine ⟨graph ▸ inOrder.intact, fun going => graph ▸ inOrder.goesOn ?_⟩
  cases before : sight.phase.isComplete with
  | false => rfl
  | true => cases going.symm.trans (ended before)

theorem whileLive {operation : Operation} {done : Except Error Node × Sight}
    (inOrder : sight.IsInOrder) (goes : done.2.IsInOrder) :
    (sight.whileLive operation done).2.IsInOrder := by
  rw [Sight.whileLive]
  split
  · exact inOrder
  · exact goes

/-- A graph grows by a step, or its run is closed as failed. -/
theorem grown (inOrder : sight.IsInOrder) {kind : NodeKind} (inner : kind ≠ .flowEnd)
    (parents : List Nat) (name : String) {actions : List Action}
    (plain : ∀ action ∈ actions, action.kind ≠ .blockEnd) :
    (sight.grown kind parents name actions).2.IsInOrder := by
  rw [Sight.grown]
  split
  next => exact ⟨inOrder.intact.repaired _, fun going => by cases going⟩
  next graph node made =>
    refine ⟨(inOrder.intact.append made).1.attachAll node.id plain, fun _ => ?_⟩
    have usable := inOrder.intact.isGrown.isUsable
    obtain ⟨whole, extended, sort, -⟩ := Graph.appended_extends usable made actions
    refine (Graph.endNode?_eq_none_iff_hasKind _).2 fun id last => ?_
    rcases (extended.hasKind_iff usable.below id _).1 last with before | ⟨-, kind⟩
    · exact Graph.not_ended_of_append made id before
    · exact inner (sort.symm.trans kind)

theorem appended (inOrder : sight.IsInOrder) (now : Instant) {draft : NodeDraft}
    (plain : ∀ action ∈ draft.actions, action.kind ≠ .blockEnd) :
    (sight.appended now draft).2.IsInOrder := by
  rw [Sight.appended]
  split
  next => exact inOrder
  next step =>
    refine inOrder.whileLive (inOrder.grown ?_ _ _ (actionsOf_plain plain))
    intro last
    simp [last, NodeKind.isBoundary] at step

theorem attached (inOrder : sight.IsInOrder) (id : Nat) {action : Action}
    (plain : action.kind ≠ .blockEnd) : (sight.attached id action).2.IsInOrder := by
  refine inOrder.whileLive ?_
  split
  next => exact inOrder
  next graph node made =>
    refine ⟨inOrder.intact.attached plain made, fun going => ?_⟩
    have running := (Graph.endNode?_eq_none_iff_hasKind _).1 (inOrder.goesOn going)
    exact (Graph.endNode?_eq_none_iff_hasKind _).2 fun other last =>
      running other ((Graph.Attached.hasKind_iff made other _).1 last)

theorem finished (inOrder : sight.IsInOrder) (outcome : Outcome) :
    (sight.finished outcome).2.IsInOrder := by
  have plain : ∀ action ∈ outcome.actions, action.kind ≠ .blockEnd := by
    cases outcome with
    | ok => simp [Outcome.actions]
    | error message => simp [Outcome.actions, Action.kind]
  refine inOrder.whileLive ?_
  rw [Sight.grown]
  cases made : sight.graph.append .flowEnd sight.graph.heads flowEndName with
  | error fault => exact ⟨inOrder.intact.repaired _, fun going => by cases going⟩
  | ok grown =>
      exact ⟨(inOrder.intact.append made).1.attachAll _ plain, fun going => by cases going⟩

theorem holding (inOrder : sight.IsInOrder) (now : Instant) (blob : Bytes) :
    (sight.holding now blob).IsInOrder := by
  rw [Sight.holding]
  split
  · exact inOrder
  · exact ⟨inOrder.intact, inOrder.goesOn⟩

end Sight.IsInOrder

/-- A command that notes no block end keeps the graph in order, whatever becomes of its writes. -/
theorem Command.perform_inOrder {live : LiveRun} (inOrder : live.run.sight.IsInOrder)
    {command : Command} (plain : command.IsPlain) :
    EndsIn command.perform live fun after => after.run.sight.IsInOrder := by
  have still {α : Type} {step : RunM α} (spares : Spares step) :
      EndsIn step live fun after => after.run.sight.IsInOrder :=
    (spares live).mono (fun _ _ same => sight_congr same ▸ inOrder)
      fun _ _ same => sight_congr same ▸ inOrder
  have makes {step : RunM Node} {made : Except Error Node × Sight} (keeps : made.2.IsInOrder)
      (ends : EndsAs step live fun outcome after => made = (outcome, after.run.sight)) :
      EndsIn step live fun after => after.run.sight.IsInOrder := by
    refine ends.mono ?_ ?_
    all_goals
      rintro _ after rfl
      exact keeps
  have rephased {after : LiveRun} {phase : Phase} {status : RecordStatus}
      (same : after.run.snapshot = { live.run.snapshot with phase, status })
      (ended : live.run.phase.isComplete = true → phase.isComplete = true) :
      after.run.sight.IsInOrder := by
    have told : after.run.sight.phase = phase := congrArg Snapshot.phase same
    exact inOrder.rephased (congrArg Snapshot.graph same) fun before => told ▸ ended before
  refine .bind (.current ?_)
  split
  · exact .pure inOrder
  · cases command with
    | append draft =>
        exact reply_ends (makes (inOrder.appended _ plain) (append_sight live draft))
    | attach id action =>
        exact reply_ends (makes (inOrder.attached id plain) (attach_sight live id action))
    | finish outcome =>
        exact reply_ends (makes (inOrder.finished outcome) (finish_sight live outcome))
    | checkpoint blob =>
        have keeps := inOrder.holding live.machine.now blob
        exact reply_ends ((takeCheckpoint_sight live blob).mono (fun _ _ same => same ▸ keeps)
          fun _ _ same => same ▸ keeps)
    | flush => exact reply_ends (still flush_spares)
    | pause =>
        refine reply_ends ((pause_makes live).mono ?_ ?_)
        all_goals exact fun _ _ ⟨_, _, same, ended, _⟩ => rephased same ended
    | unpause =>
        refine reply_ends ((unpause_makes live).mono ?_ ?_)
        all_goals exact fun _ _ ⟨_, _, same, ended⟩ => rephased same ended
    | shutdown => exact reply_ends (still shutdown_spares)
    | look => exact reply_ends (.current inOrder)

/-! ## Runs in use -/

namespace LiveRun

/-- A command as a deed. -/
theorem afterDeed_command (live : LiveRun) (now : Instant) (command : Command) :
    live.afterDeed now (.command command) = live.after now command := by
  rw [afterDeed, after, Deed.carryOut]
  simp only [attempt, bind, EStateM.bind]
  cases command.perform (live.atTime now) <;> rfl

/-- A run that has been used since, by commands that note no block ends and while no write has
failed. -/
structure IsUsedSince (since live : LiveRun) : Prop where
  settled : ∃ image, Settled live image
  place_eq : live.run.place = since.run.place
  inOrder : live.run.sight.IsInOrder
  agrees : live.run.Agrees
  letsGo : LetsGo True since live

namespace IsUsedSince

variable {since live : LiveRun}

theorem after (used : IsUsedSince since live) (now : Instant) {command : Command}
    (plain : command.IsPlain) :
    IsUsedSince since (live.after now command) := by
  obtain ⟨image, settled⟩ := used.settled
  obtain ⟨outcome, left, image', done, performs⟩ :=
    command.perform_keeps (settled.atTime now) plain.storable
  have same : live.after now command = left := by
    rw [LiveRun.after, done.result]
  obtain ⟨letsGo, agrees⟩ :=
    afterDeed_letsGo (.command command) (fun _ => True.intro) used.agrees now
  rw [afterDeed_command] at letsGo agrees
  have inOrder : (live.atTime now).run.sight.IsInOrder := used.inOrder
  constructor
  case settled => exact ⟨image', same ▸ performs.settled⟩
  case place_eq => exact same ▸ performs.place_eq.trans used.place_eq
  case inOrder => exact after_of_ends (Command.perform_inOrder inOrder plain)
  case agrees => exact agrees
  case letsGo => exact used.letsGo.trans letsGo

theorem afterAll (used : IsUsedSince since live) {history : List (Instant × Command)}
    (plain : ∀ given ∈ history, given.2.IsPlain) :
    IsUsedSince since (live.afterAll history) := by
  induction history using List.reverseRecOn with
  | nil => exact used
  | append_singleton history given ih =>
      rw [afterAll_concat]
      have earlier := ih fun other inside => plain other (List.mem_append_left _ inside)
      exact earlier.after given.1 (plain given (by simp))

end IsUsedSince

/-- A run that is started in an empty directory, beside the machine before it. -/
theorem isUsedSince_started {place : Place} {runId : String} {asked : Option Hint}
    {config : Config} {machine started : Machine} {run : Run} (vacant : place.IsVacant machine.disk)
    (willing : ∀ refusal ∈ machine.refusals, refusal = false)
    (begins : Run.start place runId asked config machine = .ok run started) :
    IsUsedSince { run, machine } { run, machine := started } ∧ run.place = place ∧
      run.runId = runId := by
  obtain ⟨image, settled, -, here, running, graph⟩ := start_settled vacant willing begins
  obtain ⟨keeps, -, letsGo⟩ := (BegunFrom.start begins).keeps
    (.of_isRun_eq_false (absent_of_start begins))
  have named : run.runId = runId := by
    obtain ⟨reached, -, done⟩ := of_start_eq_ok begins
    have goesOn := beginning_keepsOn
      { run := Run.begun reached place runId (config.hintFor asked), machine := reached }
    rw [EndsIn, Ends, done] at goesOn
    exact goesOn.runId_eq
  refine ⟨⟨⟨image, settled⟩, rfl, ⟨?_, fun _ => ?_⟩, keeps.agrees,
    letsGo.mono fun allowed => by cases allowed⟩, here, named⟩
  · show run.graph.IsIntact
    exact graph ▸ Graph.IsIntact.begun flowStartName
  · show run.graph.endNode? = none
    rw [graph]
    rfl

end LiveRun

/-! ## A step that is refused -/

section Refused

variable {live after : LiveRun} {image : Image} {place : Place}

/-- A run was closed as failed for a reason, and this is on disk. -/
structure ClosedBy (reason : String) (live after : LiveRun) : Prop where
  settled : ∃ image, Settled after image
  saved : after.run.IsSaved
  place_eq : after.run.place = live.run.place
  graph : after.run.graph = live.run.graph.repaired reason
  phase : after.run.phase = .complete .failure
  status : after.run.record.status = .complete
  result : after.run.record.result = .failure
  checkpoint : after.run.checkpoint = none
  letsGo : LetsGo True live after

/-- A step that a running run refuses closes it as failed. -/
theorem Settled.append_fails (settled : Settled live image) (running : live.run.phase = .running)
    {draft : NodeDraft} (step : draft.kind.isBoundary = false) {fault : GraphFault}
    (refused : live.run.graph.append draft.kind (draft.parents.getD live.run.graph.heads)
      draft.name = .error fault) :
    ∃ after, Run.append draft live = .error (.graph fault) after ∧
      ClosedBy (Error.graph fault).message live after := by
  have going : live.run.phase.isComplete = false := by simp [running, Phase.isComplete]
  obtain ⟨after, image', done, performs⟩ := append_refused_keeps settled step going refused false
  have seen := (append_sight live draft).of_attempt done.result
  have unlike : ¬ draft.kind.isBoundary = true := by simp [step]
  have unfinished : ¬ live.run.sight.phase.isComplete = true := Bool.eq_false_iff.1 going
  have refusedToo : live.run.sight.graph.append draft.kind
      (draft.parents.getD live.run.sight.graph.heads) draft.name = .error fault := refused
  rw [Sight.appended, if_neg unlike, Sight.whileLive, if_neg unfinished, Sight.grown, refusedToo]
    at seen
  have looks : after.run.sight = live.run.sight.failed (Error.graph fault).message :=
    (congrArg Prod.snd seen).symm
  refine ⟨after, Yields.attempt_eq_error.1 done.result, ?_⟩
  constructor
  case settled => exact ⟨image', performs.settled⟩
  case saved => exact performs.saved (by simp)
  case place_eq => exact performs.place_eq
  case graph => exact congrArg Sight.graph looks
  case phase => exact congrArg Sight.phase looks
  case status => exact congrArg Sight.status looks
  case result => exact congrArg Sight.result looks
  case checkpoint => exact congrArg Sight.checkpoint looks
  case letsGo => exact (append_letsGo draft live).of_attempt done.result

/-- What is on disk is opened as it is in memory, under a clean record. -/
theorem Settled.opens_saved (settled : Settled live image) (saved : live.run.IsSaved)
    (awake : live.run.phase ≠ .resuming) (fits : live.run.graph.Fits) {later : Machine}
    (dropped : later.disk = live.machine.disk) :
    ∃ reopened, Run.openAt live.run.place later = .ok reopened later ∧
      reopened.snapshot = live.run.snapshot ∧
      RunFiles.readRecord live.run.place later = .ok reopened.record later ∧
      reopened.record.clean = .clean ∧ reopened.record.heads = live.run.graph.heads := by
  have saves := settled.saves saved awake
  have shows := settled.tracks.shows
  rw [← dropped] at shows
  have readable := settled.storable_image fits
  obtain ⟨reopened, opened, same, record⟩ := saves.opens readable shows
  rw [← record] at saves
  refine ⟨reopened, opened, same, ?_, ?_, saves.has.heads⟩
  · exact RunFiles.readRecord_eq_ok shows saves.recorded (readable.record _ saves.recorded)
  · rw [settled.tracks.flag _ saves.recorded, saved.flag]

namespace ClosedBy

variable {reason : String} (closed : ClosedBy reason live after)

include closed

/-- The host is told to let go of the run. -/
theorem released_eq (going : live.run.phase.isComplete = false) :
    after.machine.released = live.machine.released ++ [live.run.runId] := by
  have ended : after.run.phase.isComplete = true := by
    rw [closed.phase]
    rfl
  simpa [LiveRun.letGo, going, ended] using closed.letsGo.released_eq

/-- No continuation is left. -/
theorem checkpoint_gone :
    after.machine.disk.at? (RunFiles.checkpointFile after.run.place).path = none := by
  obtain ⟨image, settled⟩ := closed.settled
  have gone := settled.tracks.shows.checkpoint
  rw [settled.tracks.persisted closed.saved.persisted, closed.checkpoint] at gone
  rw [RunFiles.path_checkpointFile]
  exact gone

/-- The run is opened as it is in memory, under a clean record that tells the failure. -/
theorem opens (fits : after.run.graph.Fits) {later : Machine}
    (dropped : later.disk = after.machine.disk) :
    ∃ reopened, Run.openAt after.run.place later = .ok reopened later ∧
      reopened.snapshot = after.run.snapshot ∧
      RunFiles.readRecord after.run.place later = .ok reopened.record later ∧
      reopened.record.status = .complete ∧ reopened.record.result = .failure ∧
      reopened.record.clean = .clean ∧ reopened.record.heads = after.run.graph.heads := by
  obtain ⟨image, settled⟩ := closed.settled
  obtain ⟨reopened, opened, same, read, clean, heads⟩ :=
    settled.opens_saved closed.saved (by simp [closed.phase]) fits dropped
  exact ⟨reopened, opened, same, read, (congrArg Snapshot.status same).trans closed.status,
    (congrArg Snapshot.result same).trans closed.result, clean, heads⟩

end ClosedBy
end Refused

/-- **A structurally wrong step fails its run cleanly.**  A run was started in an empty directory
and was given commands, none of which noted a block end; no write failed, and the run is running.
It refuses a step exactly if something is wrong with it.  Then the fault tells what, and the run has
failed: each open block is closed and a flow end ends the flow, nothing else is new, and nothing
else has changed; the host has been told once to let go of the run; its continuation is gone; and
its directory is opened with the run as it is in memory, under a clean record that tells the
failure. -/
theorem wrong_step_fails_run {place : Place} {runId : String} {asked : Option Hint}
    {config : Config} {machine started : Machine} {run : Run} (vacant : place.IsVacant machine.disk)
    (willing : ∀ refusal ∈ machine.refusals, refusal = false)
    (begins : Run.start place runId asked config machine = .ok run started)
    (history : List (Instant × Command)) (plain : ∀ given ∈ history, given.2.IsPlain)
    (now : Instant) {live : LiveRun}
    (used : (LiveRun.afterAll { run, machine := started } history).atTime now = live)
    (running : live.run.phase = .running) (draft : NodeDraft) (step : draft.kind.isStep = true) :
    let parents := draft.parents.getD live.run.graph.heads
    ((∃ fault, live.run.graph.append draft.kind parents draft.name = .error fault) ↔
        ∃ fault, live.run.graph.Objects draft.kind parents fault) ∧
      ∀ fault, live.run.graph.append draft.kind parents draft.name = .error fault →
        live.run.graph.Objects draft.kind parents fault ∧
        ∃ after, Run.append draft live = .error (.graph fault) after ∧
          live.run.graph.Fails (Error.graph fault).message after.run.graph ∧
          after.run.phase = .complete .failure ∧
          after.machine.released = machine.released ++ [runId] ∧
          after.machine.disk.at? (RunFiles.checkpointFile place).path = none ∧
          (after.run.graph.Fits → ∀ later : Machine, later.disk = after.machine.disk →
            ∃ reopened, Run.openAt place later = .ok reopened later ∧
              reopened.snapshot = after.run.snapshot ∧
              RunFiles.readRecord place later = .ok reopened.record later ∧
              reopened.record.status = .complete ∧ reopened.record.result = .failure ∧
              reopened.record.clean = .clean ∧ reopened.record.heads = after.run.graph.heads) := by
  obtain ⟨since, here, named⟩ := LiveRun.isUsedSince_started vacant willing begins
  have usedSince := since.afterAll plain
  subst used
  generalize LiveRun.afterAll { run, machine := started } history = between at *
  obtain ⟨image, settledThen⟩ := usedSince.settled
  have settled := settledThen.atTime now
  have going : between.run.phase.isComplete = false := by
    have phase : between.run.phase = .running := running
    simp [phase, Phase.isComplete]
  have stored : between.run.graph.isEmpty = false := settled.well.isEmpty_eq_false
  have notEnded : between.run.graph.endNode? = none := usedSince.inOrder.goesOn going
  have boundary : draft.kind.isBoundary = false := by simpa [NodeKind.isStep] using step
  refine ⟨Graph.refuses_iff stored notEnded step, fun fault refused =>
    ⟨Graph.objects_of_append stored notEnded step refused, ?_⟩⟩
  obtain ⟨after, fails, closed⟩ := settled.append_fails running boundary refused
  have placed : after.run.place = place := closed.place_eq.trans (usedSince.place_eq.trans here)
  have before : between.machine.released = machine.released := by
    simpa [LiveRun.letGo, going] using usedSince.letsGo.released_eq
  have told : after.machine.released = between.machine.released ++ [between.run.runId] :=
    closed.released_eq going
  rw [before, usedSince.letsGo.runId_eq, named] at told
  subst placed
  exact ⟨after, fails, closed.graph ▸ usedSince.inOrder.intact.fails stored notEnded _,
    closed.phase, told, closed.checkpoint_gone, fun fits _ => closed.opens fits⟩

/-- A block within a block, with two branches that are still open. -/
def openBranches : List (Instant × Command) :=
  [(.sample, .append { kind := .stepStart true, name := "outer" }),
    (.sample, .append { kind := .atom, name := "left", parents := some [2] }),
    (.sample, .append { kind := .stepStart true, name := "inner", parents := some [2] }),
    (.sample, .append { kind := .atom, name := "deep", parents := some [4] })]

/-- The end of a step that opened no block. -/
def endOfNothing : NodeDraft := { kind := .stepEnd 3, name := "left" }

theorem wrong_step_fails_open_branches : ∃ run started live after,
    Run.start .sample "sample" (some .performanceOptimized) .default .blank = .ok run started ∧
      (LiveRun.afterAll { run, machine := started } openBranches).atTime .sample = live ∧
      live.run.phase = .running ∧ live.run.graph.IsOpen 2 ∧ live.run.graph.IsOpen 4 ∧
      Run.append endOfNothing live = .error (.graph (.notABlock 3)) after ∧
      live.run.graph.Fails (Error.graph (.notABlock 3)).message after.run.graph ∧
      after.run.phase = .complete .failure ∧ after.machine.released = ["sample"] := by
  have passed : Run.passes (fun run started =>
      let live := (LiveRun.afterAll { run, machine := started } openBranches).atTime .sample
      decide (live.run.phase = .running) &&
        decide (live.run.graph.IsOpen 2) && decide (live.run.graph.IsOpen 4) &&
        decide (live.run.graph.append endOfNothing.kind live.run.graph.heads endOfNothing.name =
          .error (.notABlock 3)))
      (Run.start .sample "sample" (some .performanceOptimized) .default .blank) = true := by
    decide +kernel
  obtain ⟨run, started, begins, holds⟩ := Run.of_passes passed
  simp only [Bool.and_eq_true, decide_eq_true_eq] at holds
  obtain ⟨⟨⟨running, outer⟩, inner⟩, refused⟩ := holds
  have plain : ∀ given ∈ openBranches, given.2.IsPlain := by
    simp [openBranches, Command.IsPlain]
  obtain ⟨-, fails⟩ := wrong_step_fails_run Place.sample_isVacant (fun _ none => by cases none)
    begins openBranches plain .sample rfl running endOfNothing rfl
  obtain ⟨-, after, error, failed, phase, released, -⟩ := fails _ refused
  exact ⟨run, started, _, after, begins, rfl, running, outer, inner, error, failed, phase, released⟩

end DurableRuns
