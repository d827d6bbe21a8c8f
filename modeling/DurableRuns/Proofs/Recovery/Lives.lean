/-
# DurableRuns.Proofs.Recovery.Lives -- a run over the lives of its processes

A run outlives the processes that drive it: it is started in an empty directory, used by
commands, its process is killed, a coordinator takes it up again, and so on (`Lived`).  Beside
the run stands the history of all the commands it was given in these lives, with what they
came to.

A run that writes every step loses nothing by a kill.  So whether it can be taken up again is
decided by its history, over all its lives: the last checkpoint is good until the next node is
appended (`resumed_iff_checkpoint_stands`).
-/
import DurableRuns.Proofs.Recovery.KillPoints
import DurableRuns.Proofs.Recovery.Resumption

namespace DurableRuns

set_option autoImplicit false

open Run RunM

/-! ## Histories -/

/-- The commands that a program gives to a run, with what they come to. -/
def Program.exchanges {α : Type} : Program α → LiveRun → List Exchange
  | .result _, _ => []
  | .ask command next, live =>
      match attempt command.perform live with
      | .ok outcome after => (command, outcome) :: (next outcome).exchanges after
      | .error _ _ => []

/-- The runs that are live after a start in an empty directory, commands, kills and recoveries
that resumed the run, beside the history of these commands.  No write is refused, and node
numbers have 64 bits.  A kill may also come in the midst of a recovery: the run was opened and
handed to the resumer, which gave some of its commands or none. -/
inductive Lived (place : Place) : LiveRun → List Exchange → Prop
  | start {machine after : Machine} {runId : String} {asked : Option Hint} {config : Config}
      {run : Run} (vacant : place.IsVacant machine.disk)
      (willing : ∀ refusal ∈ machine.refusals, refusal = false)
      (started : Run.start place runId asked config machine = .ok run after) :
      Lived place { run, machine := after } []
  | command {live after : LiveRun} {history : List Exchange} {command : Command} {now : Instant}
      {outcome : Except Error Reply} (lived : Lived place live history)
      (storable : command.Storable)
      (done : attempt command.perform (live.atTime now) = .ok outcome after)
      (fits : after.run.graph.Fits) : Lived place after (history ++ [(command, outcome)])
  | handed {live : LiveRun} {history : List Exchange} {later : Machine} {opened : Run}
      (lived : Lived place live history) (killed : later.disk = live.machine.disk)
      (willing : ∀ refusal ∈ later.refusals, refusal = false)
      (opens : openAt place later = .ok opened later) :
      Lived place { run := opened.resuming, machine := later } history
  | recovery {live : LiveRun} {history : List Exchange} {coordinator kept : Coordinator}
      {later machine : Machine} {opened run : Run} {report : RecoveryReport} {call : ResumeCall}
      (lived : Lived place live history) (killed : later.disk = live.machine.disk)
      (willing : ∀ refusal ∈ later.refusals, refusal = false)
      (storable : coordinator.resumer.Storable) (opens : openAt place later = .ok opened later)
      (recovers : coordinator.recoverRun place later = .ok (report, kept) machine)
      (resumed : report.outcome = .resumed) (called : report.call = some call)
      (taken : report.run = some run) (fits : run.graph.Fits) :
      Lived place { run, machine }
        (history ++ (coordinator.resumer opened.resuming call.blob).exchanges
          { run := opened.resuming, machine := later })

section Lives

variable {place : Place} {live after : LiveRun} {history : List Exchange} {image : Image}
  {later : Machine} {coordinator kept : Coordinator} {report : RecoveryReport}

/-- What is good for a resume after more exchanges. -/
theorem goodBlob?_append (history more : List Exchange) :
    goodBlob? (history ++ more) = more.foldl Exchange.goodBlob? (goodBlob? history) := by
  simp [goodBlob?]

/-- A run that is settled, with what is good for its resume as far as it can be told from its
history: a run that does not write every step may have lost its last commands to a kill. -/
structure Lived.Sound (place : Place) (live : LiveRun) (history : List Exchange) (image : Image) :
    Prop where
  settled : Settled live image
  place_eq : live.run.place = place
  fits : live.run.graph.Fits
  good : live.run.hint.writesEveryStep = true → live.run.phase.isComplete = false →
    live.run.snapshot.goodBlob? = goodBlob? history

/-! ## What a life preserves -/

/-- A command keeps a settled run settled, and tells what is good for its resume. -/
theorem Settled.performs {command : Command} {outcome : Except Error Reply}
    (settled : Settled live image) (storable : command.Storable)
    (done : attempt command.perform live = .ok outcome after) :
    ∃ image', Performs live after image image' (command.isSafePoint live.run outcome)
        (command.hasGrown outcome) ∧
      (after.run.phase.isComplete = false → live.run.phase.isComplete = false ∧
        after.run.snapshot.goodBlob? =
          Exchange.goodBlob? live.run.snapshot.goodBlob? (command, outcome)) := by
  obtain ⟨reply, between, image', yields, performs⟩ := command.perform_keeps settled storable
  obtain ⟨rfl, rfl⟩ : reply = outcome ∧ between = after := by
    simpa using yields.result.symm.trans done
  exact ⟨image', performs, EndsAs.of_attempt (command.perform_goodBlob settled.well
    settled.tracks.checkpoint_below) done⟩

/-- So does a program, for all of its commands. -/
theorem Settled.runs {α : Type} {program : Program α} (settled : Settled live image)
    (storable : program.Storable) {value : α} {replies : List (Except Error Reply)}
    (done : program.run live = .ok (value, replies) after) :
    ∃ image', Settled after image' ∧ after.run.place = live.run.place ∧
      after.run.hint = live.run.hint ∧
      (after.run.phase.isComplete = false → live.run.phase.isComplete = false ∧
        after.run.snapshot.goodBlob? =
          (program.exchanges live).foldl Exchange.goodBlob? live.run.snapshot.goodBlob?) := by
  -- The program chooses its next command by the reply; the history keeps them in this order.
  induction program generalizing live image replies with
  | result given =>
      cases done
      exact ⟨image, settled, rfl, rfl, fun unfinished => ⟨unfinished, rfl⟩⟩
  | ask command next ih =>
      obtain ⟨fits, others⟩ := storable
      obtain ⟨outcome, between, asked, rest⟩ := bind_eq_ok.1 done
      obtain ⟨⟨_, later⟩, _, followed, gives⟩ := bind_eq_ok.1 rest
      cases gives
      obtain ⟨image₁, performs, first⟩ := settled.performs fits asked
      obtain ⟨image', settledNow, place, hint, second⟩ :=
        ih outcome performs.settled (others outcome) followed
      refine ⟨image', settledNow, place.trans performs.place_eq, hint.trans performs.hint_eq, ?_⟩
      intro unfinished
      obtain ⟨running, good⟩ := second unfinished
      obtain ⟨live, before⟩ := first running
      rw [Program.exchanges, asked]
      exact ⟨live, by rw [good, before, List.foldl_cons]⟩

/-- What is opened has no more nodes than the run had in memory. -/
theorem Settled.fits_reopened (settled : Settled live image) (fits : live.run.graph.Fits) :
    (live.reopened image).graph.Fits := by
  obtain ⟨safe, whole, le⟩ := settled.safe
  rw [LiveRun.reopened, whole.has.nodes, graph_ofImage _ whole.well whole.has.heads]
  exact Nat.le_trans le fits

/-- A run that is opened and handed to a resumer is regained with what was good for it. -/
theorem Lived.Sound.handed (sound : Lived.Sound place live history image)
    (killed : later.disk = live.machine.disk)
    (willing : ∀ refusal ∈ later.refusals, refusal = false) {opened : Run}
    (opens : openAt place later = .ok opened later) :
    Lived.Sound place { run := opened.resuming, machine := later } history image := by
  obtain ⟨settled, rfl, fits, good⟩ := sound
  obtain ⟨report, opening⟩ := settled.opens fits killed
  have reopens := openAt_eq_ok_iff.2 ⟨_, opening⟩
  cases reopens.symm.trans opens
  have hint : (live.reopened image).hint = live.run.hint := settled.sound.recordHint
  have settledNow := (settled.reopened_settled killed willing).resuming
  obtain ⟨phase, same, complete⟩ := (live.reopened image).resuming_eq
  refine ⟨settledNow, place_resuming _, ?_, ?_⟩
  · rw [graph_resuming]
    exact settled.fits_reopened fits
  · rw [same]
    intro prompts unfinished
    have prompt : live.run.hint.writesEveryStep = true := hint ▸ prompts
    have saved := settled.atRest (by simp [mustBeSaved, prompt])
    have regained := settled.regained saved
    -- Opening turns a run that was being reinstalled into a running one, and ends none.
    have running : live.run.phase.isComplete = false := by
      have opened := complete.symm.trans unfinished
      rw [settled.phase_reopened] at opened
      by_cases resuming : live.run.phase = .resuming
      · rw [resuming]
        rfl
      · rw [if_neg resuming] at opened
        exact opened
    rw [← good prompt running]
    simp only [Snapshot.goodBlob?, Run.snapshot, regained.graph_eq, regained.checkpoint_eq]
    rfl

/-- A recovery that resumes a run leaves it as the program of the resumer does. -/
theorem Lived.Sound.recovered (sound : Lived.Sound place live history image)
    (killed : later.disk = live.machine.disk)
    (willing : ∀ refusal ∈ later.refusals, refusal = false)
    (storable : coordinator.resumer.Storable) {opened run : Run} {machine : Machine}
    {call : ResumeCall} (opens : openAt place later = .ok opened later)
    (recovers : coordinator.recoverRun place later = .ok (report, kept) machine)
    (resumed : report.outcome = .resumed) (called : report.call = some call)
    (taken : report.run = some run) (fits : run.graph.Fits) :
    ∃ image', Lived.Sound place { run, machine }
      (history ++ (coordinator.resumer opened.resuming call.blob).exchanges
        { run := opened.resuming, machine := later }) image' := by
  have handed := sound.handed killed willing opens
  have here := sound.place_eq
  subst here
  obtain ⟨loaded, opening, found, -⟩ := sound.settled.finds sound.fits killed
  have reopens := openAt_eq_ok_iff.2 ⟨_, opening⟩
  cases reopens.symm.trans opens
  obtain ⟨blob, hands⟩ :=
    Coordinator.handed_of_resumed opening rfl (by rw [found]; rfl) recovers resumed
  obtain ⟨replies, between, runs, callIs, -, runIs, rfl⟩ := hands.called
  cases callIs.symm.trans called
  cases runIs.symm.trans taken
  obtain ⟨image', settled, place, hint, good⟩ :=
    handed.settled.runs (storable _ blob) runs
  obtain ⟨phase, same, complete⟩ := between.run.resumed_eq
  refine ⟨image', settled.resumed, ?_, fits, ?_⟩
  · rw [place_resumed, place]
    exact handed.place_eq
  · rw [same]
    intro prompt unfinished
    obtain ⟨running, after⟩ := good (complete.symm.trans unfinished)
    rw [goodBlob?_append, ← handed.good (hint ▸ prompt) running]
    exact after

/-- Whatever becomes of a run over its lives, it is settled. -/
theorem Lived.sound (lived : Lived place live history) :
    ∃ image, Lived.Sound place live history image := by
  -- What a life preserves is carried from each process to the next by its directory alone.
  induction lived with
  | @start _ _ _ _ _ run vacant willing started =>
      obtain ⟨image, settled, -, here, -, first⟩ := start_settled vacant willing started
      refine ⟨image, settled, here, ?_, fun _ _ => ?_⟩
      · rw [first]
        show firstId + 1 ≤ UInt64.size
        decide
      · show run.checkpoint.bind _ = none
        rw [start_makes started]
        rfl
  | command lived storable done fits ih =>
      obtain ⟨image, sound⟩ := ih
      obtain ⟨image', performs, good⟩ :=
        (sound.settled.atTime _).performs storable done
      refine ⟨image', performs.settled, performs.place_eq.trans sound.place_eq, fits, ?_⟩
      intro prompt unfinished
      obtain ⟨running, after⟩ := good unfinished
      rw [goodBlob?_concat, ← sound.good (performs.hint_eq ▸ prompt) running]
      exact after
  | handed lived killed willing opens ih =>
      obtain ⟨image, sound⟩ := ih
      exact ⟨image, sound.handed killed willing opens⟩
  | recovery lived killed willing storable opens recovers resumed called taken fits ih =>
      obtain ⟨image, sound⟩ := ih
      exact sound.recovered killed willing storable opens recovers resumed called taken fits

/-! ## The last checkpoint -/

/-- A checkpoint was taken with these bytes, and since then neither another one was taken nor a
node appended. -/
def CheckpointStands (history : List Exchange) (blob : Bytes) : Prop :=
  ∃ before outcome after, history = before ++ (.checkpoint blob, outcome) :: after ∧
    ∀ exchange ∈ after, (∀ other, exchange.1 ≠ .checkpoint other) ∧
      ∀ draft node, exchange ≠ (.append draft, .ok (.node node))

/-- After an exchange a checkpoint stands if the exchange takes it or leaves it standing. -/
theorem checkpointStands_concat_iff (history : List Exchange) (last : Exchange) (blob : Bytes) :
    CheckpointStands (history ++ [last]) blob ↔ last.1 = .checkpoint blob ∨
      CheckpointStands history blob ∧ (∀ other, last.1 ≠ .checkpoint other) ∧
        ∀ draft node, last ≠ (.append draft, .ok (.node node)) := by
  constructor
  · rintro ⟨before, outcome, after, same, spares⟩
    rcases List.eq_nil_or_concat' after with rfl | ⟨rest, final, rfl⟩
    · have one := List.singleton_inj.1 (List.append_inj_right' same rfl)
      exact .inl (congrArg Prod.fst one)
    · rw [← List.cons_append, ← List.append_assoc] at same
      obtain ⟨earlier, one⟩ := List.append_inj' same rfl
      obtain rfl := List.singleton_inj.1 one
      refine .inr ⟨⟨before, outcome, rest, earlier, fun exchange inside => ?_⟩, ?_⟩
      · exact spares exchange (List.mem_append_left _ inside)
      · exact spares last (List.mem_append_right _ List.mem_cons_self)
  · rintro (taken | ⟨⟨before, outcome, after, rfl, spares⟩, other⟩)
    · obtain ⟨command, outcome⟩ := last
      obtain rfl : command = .checkpoint blob := taken
      exact ⟨history, outcome, [], rfl, fun _ none => by cases none⟩
    · refine ⟨before, outcome, after ++ [last], by simp, fun exchange inside => ?_⟩
      rcases List.mem_append.1 inside with earlier | now
      · exact spares exchange earlier
      · exact List.mem_singleton.1 now ▸ other

/-- The bytes that are good for a resume are those of the checkpoint that stands. -/
theorem goodBlob?_eq_some_iff {blob : Bytes} :
    goodBlob? history = some blob ↔ CheckpointStands history blob := by
  induction history using List.reverseRecOn with
  | nil => simp [goodBlob?, CheckpointStands]
  | append_singleton history last ih =>
      rw [goodBlob?_concat, checkpointStands_concat_iff, ← ih]
      obtain ⟨command, outcome⟩ := last
      cases command with
      | checkpoint other => simp [Exchange.goodBlob?, eq_comm]
      | append draft =>
          cases outcome with
          | ok reply => cases reply <;> simp [Exchange.goodBlob?]
          | error error => simp [Exchange.goodBlob?]
      | _ => simp [Exchange.goodBlob?]

/-- **A run that writes every step outlives its processes**: whatever it went through, be it killed
between two operations before it has ended, however the process ended, it is resumed exactly if
the last checkpoint stands.  The resumer then gets the bytes of this checkpoint, and the run it
is given has the graph from before the kill and is paused exactly if it was. -/
theorem resumed_iff_checkpoint_stands (lived : Lived place live history)
    (prompt : live.run.hint.writesEveryStep = true)
    (unfinished : live.run.phase.isComplete = false)
    (unclaimed : place.path ∉ coordinator.claimed)
    (accepting : coordinator.resumer.IsAccepting)
    (killed : later.disk = live.machine.disk) :
    ∃ opened report after, openAt place later = .ok opened later ∧
      opened.graph = live.run.graph ∧ (opened.phase = .paused ↔ live.run.phase = .paused) ∧
      coordinator.recoverRun place later =
        .ok (report, { coordinator with claimed := place.path :: coordinator.claimed }) after ∧
      (report.outcome = .resumed ↔ ∃ blob, CheckpointStands history blob) ∧
      ∀ blob, CheckpointStands history blob →
        HandedOver coordinator opened later blob (.ok ()) report after ∧
          (coordinator.resumer opened.resuming blob = .result (.ok ()) →
            report.run = some opened) := by
  obtain ⟨image, settled, rfl, fits, good⟩ := lived.sound
  have saved := settled.atRest (by simp [mustBeSaved, prompt])
  obtain ⟨opened, report, after, opens, regained, recovers, resumed, handed⟩ :=
    Coordinator.recoverRun_accepted settled saved fits unfinished unclaimed killed
      (settled.isFit saved (.inr (.inr prompt))) accepting
  rw [good prompt unfinished] at resumed handed
  simp only [goodBlob?_eq_some_iff] at resumed handed
  refine ⟨opened, report, after, opens, regained.graph_eq, regained.paused_iff, recovers, resumed,
    fun blob stands => ⟨handed blob stands, fun silent => ?_⟩⟩
  exact (handed blob stands).run_eq silent regained.awake

/-- A command may be given at any time, whatever it comes to. -/
theorem Lived.proceeds (lived : Lived place live history) (now : Instant) {command : Command}
    (storable : command.Storable) (fits : (live.after now command).run.graph.Fits) :
    ∃ outcome, Lived place (live.after now command) (history ++ [(command, outcome)]) := by
  rw [LiveRun.after] at fits ⊢
  obtain ⟨outcome, left, done⟩ := attempt_returns command.perform (live.atTime now)
  rw [done] at fits ⊢
  exact ⟨outcome, .command lived storable done fits⟩

/-- A coordinator of which every run is accepted, and no command given. -/
theorem Coordinator.accepting_isAccepting : Coordinator.accepting.resumer.IsAccepting :=
  fun _ _ _ => ⟨[], _, rfl⟩

/-- A checkpoint is taken after an append; the process is killed, and the run is resumed. -/
theorem resumed_after_append_and_checkpoint : ∃ live history opened report after,
    Lived .sample live history ∧ live.run.hint.writesEveryStep = true ∧
      live.run.phase.isComplete = false ∧ CheckpointStands history [7] ∧
      Coordinator.accepting.recoverRun .sample live.machine =
        .ok (report, { Coordinator.accepting with claimed := [["run"]] }) after ∧
      report.outcome = .resumed ∧ opened.graph = live.run.graph ∧ report.run = some opened := by
  let draft : NodeDraft := { kind := .atom, name := "only" }
  have passed : Run.passes (fun run started =>
      let grown := LiveRun.after { run, machine := started } .sample (.append draft)
      let live := grown.after .sample (.checkpoint [7])
      decide grown.run.graph.Fits && decide live.run.graph.Fits &&
        decide (live.run.hint.writesEveryStep = true) &&
        decide (live.run.phase.isComplete = false))
      (Run.start .sample "sample" none .default .blank) = true := by
    decide +kernel
  obtain ⟨run, started, begins, holds⟩ := Run.of_passes passed
  simp only [Bool.and_eq_true, decide_eq_true_eq] at holds
  obtain ⟨⟨⟨fitsGrown, fits⟩, prompt⟩, unfinished⟩ := holds
  have begun : Lived .sample { run, machine := started } [] :=
    .start Place.sample_isVacant (fun _ none => by cases none) begins
  have storable : Command.Storable (.append draft) := by
    simp [Command.Storable, NodeDraft.Storable, draft]
  obtain ⟨first, grown⟩ := begun.proceeds .sample storable fitsGrown
  have taken : Command.Storable (.checkpoint [7]) := trivial
  obtain ⟨second, lived⟩ := grown.proceeds .sample taken fits
  have stands : CheckpointStands ([] ++ [(.append draft, first)] ++ [(.checkpoint [7], second)]) [7] :=
    ⟨[] ++ [(.append draft, first)], second, [], rfl, fun _ none => by cases none⟩
  obtain ⟨opened, report, after, -, graph, -, recovers, resumed, handed⟩ :=
    resumed_iff_checkpoint_stands lived prompt unfinished (List.not_mem_nil)
      Coordinator.accepting_isAccepting rfl
  exact ⟨_, _, opened, report, after, lived, prompt, unfinished, stands, recovers,
    resumed.2 ⟨[7], stands⟩, graph, (handed [7] stands).2 rfl⟩

end Lives
end DurableRuns
