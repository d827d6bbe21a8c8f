/-
# DurableRuns.Proofs.Recovery.Verdict -- what the report of a failure is worth

A recovery that reports a run as failed closes it, and so the run has ended.  But the resumer may
have ended it before, and what has ended is not ended again.  How a run ended can be told from the
commands it was given and what they came to (`Program.run_ending`): it ends at most once, by a
`finish` or by a node that its graph does not admit.

So a run that is reported as failed has ended as failed, unless the program of the resumer
finished it as a success before it gave up (`Coordinator.reports_failed`); and then the report is
not true of the run (`Coordinator.failed_but_successful`).
-/
import DurableRuns.Proofs.Recovery.Deeds
import DurableRuns.Proofs.Recovery.Lives
import DurableRuns.Proofs.Run.Alike

namespace DurableRuns

set_option autoImplicit false

open Run RunM

/-! ## How a run ended -/

/-- How a run ended, if it has. -/
def Phase.ending? : Phase → Option RunResult
  | complete result => some result
  | _ => none

theorem Phase.ending?_eq_none_iff {phase : Phase} :
    phase.ending? = none ↔ phase.isComplete = false := by
  cases phase <;> simp [ending?, isComplete]

/-- How an exchange ended the run, if it did: the flow was ended, or the graph did not admit a
node. -/
def Exchange.ending? : Exchange → Option RunResult
  | (.finish outcome, .ok (.node _)) => some outcome.result
  | (.append _, .error (.graph _)) => some .failure
  | (.finish _, .error (.graph _)) => some .failure
  | _ => none

/-- A run ended by an exchange if it did, and else as it had before; what had ended was not ended
again. -/
def Phase.EndsBy (exchange : Exchange) (before after : Phase) : Prop :=
  after.ending?.toList = before.ending?.toList ++ exchange.ending?.toList

namespace Phase.EndsBy

variable {exchange : Exchange} {before after : Phase}

/-- How a run ended, if it had, is not changed by an exchange that does not end it. -/
theorem of_same (still : exchange.ending? = none) (same : after.ending? = before.ending?) :
    before.EndsBy exchange after := by
  simp [EndsBy, still, same]

/-- A run that had not ended is ended by an exchange. -/
theorem of_ended {result : RunResult} (running : before.isComplete = false)
    (ends : exchange.ending? = some result) (ended : after = .complete result) :
    before.EndsBy exchange after := by
  rw [EndsBy, ending?_eq_none_iff.2 running, ends, ended]
  rfl

end Phase.EndsBy

namespace Sight

variable (sight : Sight)

theorem grown_cases (kind : NodeKind) (parents : List Nat) (name : String)
    (actions : List Action) :
    (∃ fault, sight.grown kind parents name actions =
        (.error (.graph fault), sight.failed (Error.graph fault).message)) ∨
      ∃ node graph, sight.grown kind parents name actions = (.ok node, { sight with graph }) := by
  rw [grown]
  cases sight.graph.append kind parents name with
  | error fault => exact .inl ⟨fault, rfl⟩
  | ok made => exact .inr ⟨_, _, rfl⟩

theorem appended_ends (now : Instant) (draft : NodeDraft) :
    sight.phase.EndsBy (.append draft, (sight.appended now draft).1.map .node)
      (sight.appended now draft).2.phase := by
  rw [appended, whileLive]
  split
  · exact .of_same rfl rfl
  · split
    next => exact .of_same rfl rfl
    next going =>
      rcases sight.grown_cases draft.kind (draft.parents.getD sight.graph.heads) draft.name
        (actionsOf draft.kind draft.actions now) with ⟨fault, made⟩ | ⟨node, graph, made⟩
      · rw [made]
        exact .of_ended (Bool.eq_false_iff.2 going) rfl rfl
      · rw [made]
        exact .of_same rfl rfl

theorem attached_ends (id : Nat) (action : Action) :
    sight.phase.EndsBy (.attach id action, (sight.attached id action).1.map .node)
      (sight.attached id action).2.phase := by
  refine .of_same rfl ?_
  rw [attached, whileLive]
  split
  · rfl
  · split <;> rfl

/-- A flow that its graph lets end is ended with the outcome of its program. -/
theorem phase_finished {outcome : Outcome} {grown : Graph × Node}
    (running : sight.phase.isComplete = false)
    (admits : sight.graph.append .flowEnd sight.graph.heads flowEndName = .ok grown) :
    (sight.finished outcome).2.phase = .complete outcome.result := by
  rw [finished, whileLive, running, if_neg Bool.false_ne_true, Sight.grown, admits]
  rfl

theorem finished_ends (outcome : Outcome) :
    sight.phase.EndsBy (.finish outcome, (sight.finished outcome).1.map .node)
      (sight.finished outcome).2.phase := by
  rw [finished, whileLive]
  split
  next => exact .of_same rfl rfl
  next going =>
    have running : sight.phase.isComplete = false := Bool.eq_false_iff.2 going
    rcases sight.grown_cases .flowEnd sight.graph.heads flowEndName outcome.actions with
      ⟨fault, made⟩ | ⟨node, graph, made⟩
    · rw [made]
      exact .of_ended running rfl rfl
    · rw [made]
      exact .of_ended running rfl rfl

end Sight

namespace Run

variable (live : LiveRun)

/-- A pause ends no run. -/
theorem pause_ending :
    EndsIn pause live fun after => after.run.phase.ending? = live.run.phase.ending? := by
  refine .pause (fun _ => rfl) (fun _ => rfl) fun going _ => ?_
  rw [Phase.ending?_eq_none_iff.2 going]
  refine .bind (.update (.bind (.attempt ((Ends.trivial _ _).mono ?_ ?_))))
  · exact fun _ _ _ => .update rfl
  · exact fun _ _ _ => .bind (.update (.bind (.noteFault (.throw rfl))))

/-- So does the end of a pause. -/
theorem unpause_ending :
    EndsIn unpause live fun after => after.run.phase.ending? = live.run.phase.ending? := by
  refine .unpause (fun _ => rfl) (fun _ => rfl) fun going _ => ?_
  rw [Phase.ending?_eq_none_iff.2 going]
  exact .bind (.update (.bind (.noted ((Ends.trivial _ _).mono (fun _ _ _ => .update rfl)
    fun _ _ _ => .update rfl))))

/-- A run that is closed has ended, as failed if it had not before. -/
theorem fail_ending (reason : String) :
    EndsIn (fail reason) live fun after =>
      after.run.phase = .complete (live.run.phase.ending?.getD .failure) := by
  refine .bind (.current ?_)
  cases phase : live.run.phase with
  | complete result => exact .pure phase
  | _ =>
      exact (endAsFailed_sight reason live).mono (fun _ _ same => congrArg Sight.phase same)
        fun _ _ => False.elim

end Run

/-- How a run ended can be told from a command and what it came to. -/
theorem Command.perform_ending (command : Command) (live : LiveRun) :
    EndsAs command.perform live fun outcome after =>
      live.run.phase.EndsBy (command, outcome) after.run.phase := by
  have still {step : RunM Unit} {given : Command}
      (none : ∀ outcome, Exchange.ending? (given, outcome) = none)
      (ends : EndsIn step live fun after => after.run.phase.ending? = live.run.phase.ending?) :
      EndsAs (do step; return .done) live fun outcome after =>
        live.run.phase.EndsBy (given, outcome) after.run.phase :=
    Command.reply_ends (ends.mono (fun _ _ same => .of_same (none _) same)
      fun _ _ same => .of_same (none _) same)
  have spared {step : RunM Unit} (spares : Spares step) :
      EndsIn step live fun after => after.run.phase.ending? = live.run.phase.ending? := by
    have told {after : LiveRun} (same : after.run.snapshot = live.run.snapshot) :
        after.run.phase.ending? = live.run.phase.ending? :=
      congrArg (fun snapshot : Snapshot => snapshot.phase.ending?) same
    exact (spares live).mono (fun _ _ => told) fun _ _ => told
  have gives {step : RunM Node} {made : Except Error Node × Sight} {given : Command}
      (follows : EndsAs step live fun outcome after => made = (outcome, after.run.sight))
      (ends : live.run.phase.EndsBy (given, made.1.map .node) made.2.phase) :
      EndsAs (do return .node (← step)) live fun outcome after =>
        live.run.phase.EndsBy (given, outcome) after.run.phase := by
    refine Command.reply_ends (follows.mono ?_ ?_)
    · rintro _ after rfl
      exact ends
    · rintro _ after rfl
      exact ends
  refine .bind (.current ?_)
  cases waits : command.mustWait live.run.phase with
  | true => exact .pure (.of_same (by cases command <;> rfl) rfl)
  | false =>
      cases command with
      | append draft => exact gives (append_sight live draft) (live.run.sight.appended_ends _ draft)
      | finish outcome => exact gives (finish_sight live outcome) (live.run.sight.finished_ends _)
      | attach id action =>
          exact gives (attach_sight live id action) (live.run.sight.attached_ends id action)
      | checkpoint blob =>
          refine still (fun _ => rfl) ((takeCheckpoint_makes blob live).mono ?_ ?_)
          all_goals
            rintro _ after (⟨-, rfl⟩ | ⟨-, same⟩)
            · rfl
            · exact congrArg (fun snapshot : Snapshot => snapshot.phase.ending?) same
      | flush => exact still (fun _ => rfl) (spared flush_spares)
      | pause => exact still (fun _ => rfl) (pause_ending live)
      | unpause => exact still (fun _ => rfl) (unpause_ending live)
      | shutdown => exact still (fun _ => rfl) (spared shutdown_spares)
      | look => exact .bind (.current (.pure (.of_same rfl rfl)))

/-- **A run ends at most once**: how a run ended that a program was given can be told from the
commands of the program and what they came to. -/
theorem Program.run_ending {α : Type} {program : Program α} {live after : LiveRun}
    {found : α × List (Except Error Reply)} (done : program.run live = .ok found after) :
    after.run.phase.ending?.toList =
      live.run.phase.ending?.toList ++ (program.exchanges live).filterMap Exchange.ending? := by
  induction program generalizing live found with
  | result value =>
      cases done
      simp [exchanges]
  | ask command next ih =>
      obtain ⟨outcome, between, asked, rest⟩ := bind_eq_ok.1 done
      obtain ⟨later, _, followed, gives⟩ := bind_eq_ok.1 rest
      cases gives
      have first : live.run.phase.EndsBy (command, outcome) between.run.phase :=
        (command.perform_ending live).of_attempt asked
      rw [exchanges, asked, ih outcome followed, first, List.append_assoc]
      cases ending : Exchange.ending? (command, outcome) with
      | none => rw [List.filterMap_cons_none ending]; rfl
      | some result => rw [List.filterMap_cons_some ending]; rfl

/-! ## Reports of a failure -/

/-- The flow was ended as a success. -/
def FinishedWell (exchanges : List Exchange) : Prop :=
  ∃ node, (.finish .ok, .ok (.node node)) ∈ exchanges

/-- An exchange that ends a run ends it as a success if that is what it asks for, and else as
failed. -/
theorem Exchange.ending?_eq_some {exchange : Exchange} {result : RunResult}
    (ends : exchange.ending? = some result) :
    result = .failure ∨
      result = .success ∧ ∃ node, exchange = (.finish .ok, .ok (.node node)) := by
  obtain ⟨command, outcome⟩ := exchange
  unfold ending? at ends
  split at ends
  next outcome node same =>
    cases same
    cases ends
    cases outcome with
    | ok => exact .inr ⟨rfl, _, rfl⟩
    | error message => exact .inl rfl
  next => exact .inl (Option.some.inj ends).symm
  next => exact .inl (Option.some.inj ends).symm
  next => cases ends

theorem finishedWell_iff {exchanges : List Exchange} :
    FinishedWell exchanges ↔ .success ∈ exchanges.filterMap Exchange.ending? := by
  rw [List.mem_filterMap]
  constructor
  · rintro ⟨node, inside⟩
    exact ⟨_, inside, rfl⟩
  · rintro ⟨exchange, inside, ends⟩
    rcases Exchange.ending?_eq_some ends with failed | ⟨-, node, rfl⟩
    · cases failed
    · exact ⟨node, inside⟩

namespace Coordinator

variable {coordinator : Coordinator} {place : Place} {machine : Machine}

/-- What passed between an opened run and the resumer, if it was called. -/
def exchanged (coordinator : Coordinator) (opened : LiveRun) : Option ResumeCall → List Exchange
  | none => []
  | some call =>
      (coordinator.resumer opened.run.resuming call.blob).exchanges
        { opened with run := opened.run.resuming }

/-- How the run that a recovery closes had ended before can be told from what passed between it
and the resumer. -/
theorem Holds.ending {call : Option ResumeCall} {held : LiveRun}
    (holds : coordinator.Holds place machine call held) :
    ∃ opened, openAt place machine = .ok opened machine ∧ held.run.phase.ending?.toList =
      (coordinator.exchanged { run := opened, machine } call).filterMap Exchange.ending? := by
  cases holds with
  | opened opens running =>
      exact ⟨_, opens, congrArg Option.toList (Phase.ending?_eq_none_iff.2 running)⟩
  | @rejected run _ _ _ _ opens running taken rejects =>
      obtain ⟨phase, same, complete⟩ := run.resuming_eq
      have still : run.resuming.phase.ending? = none := by
        rw [same]
        exact Phase.ending?_eq_none_iff.2 (complete.trans running)
      refine ⟨_, opens, (Program.run_ending rejects).trans ?_⟩
      rw [still]
      rfl

/-! ### A recovery always reports -/

theorem handOver_returns [Numbering]
    (resumer : Resumer) (blob : Bytes) : Returns (handOver resumer blob) := by
  refine .bind (.update _) fun _ => .bind .current fun run =>
    .bind (Program.run_returns _) fun found => ?_
  obtain ⟨verdict, replies⟩ := found
  cases verdict with
  | ok => exact .bind (.update _) fun _ => .pure _
  | error reason => exact .pure _

theorem resume_returns [Numbering] (coordinator : Coordinator) (report : OpeningReport) :
    Returns (coordinator.resume report) := by
  refine .bind .current fun run => ?_
  split
  · exact .pure _
  · split
    · exact .pure _
    · exact .pure _
    · exact .bind (handOver_returns _ _) fun _ => .pure _

theorem settle_returns [Numbering] (coordinator : Coordinator) (report : OpeningReport) :
    Returns (coordinator.settle report) := by
  refine .bind .current fun run => .bind (resume_returns _ _) fun found => ?_
  obtain ⟨call, obstacle⟩ := found
  cases obstacle with
  | none => exact .pure _
  | some obstacle => exact .bind (fail_returns _) fun _ => .pure _

/-- A recovery comes to a report, whatever it finds in the directory. -/
theorem recoverRun_returns (coordinator : Coordinator) (place : Place) (machine : Machine) :
    ∃ report kept after, coordinator.recoverRun place machine = .ok (report, kept) after := by
  by_cases claimed : place.path ∈ coordinator.claimed
  · rw [recoverRun, if_pos claimed]
    exact ⟨_, _, _, rfl⟩
  · have taken : ∃ report after,
        coordinator.takeOn place (directoryNameOf place) machine = .ok report after := by
      rcases openReporting_cases place machine with ⟨run, loaded, opens, -⟩ | ⟨error, unopened⟩
      · rw [takeOn_eq coordinator opens]
        split
        · exact ⟨_, _, rfl⟩
        · obtain ⟨found, after, settles⟩ := settle_returns coordinator
            (.ofParts run.record loaded (RunFiles.checkpointOn machine.disk place))
            { run, machine }
          have runs : (coordinator.settle _).runOn run machine =
              .ok (found, after.run) after.machine := runOn_eq_ok.2 settles
          rw [runs]
          exact ⟨_, _, rfl⟩
      · simp only [takeOn, tryCatch, tryCatchThe, MonadExceptOf.tryCatch, EStateM.tryCatch, bind,
          EStateM.bind, unopened, pure, EStateM.pure]
        exact ⟨_, _, rfl⟩
    obtain ⟨report, after, taken⟩ := taken
    exact ⟨report, _, after, recoverRun_eq_takeOn claimed taken⟩

/-- **What the report of a failure is worth**: every recovery comes to a report, whatever the
directory holds, the machine refuses and the resumer does.  If it reports a run as failed the run
has ended: as a success, if the program of the resumer finished it so before it gave up, and else
as failed. -/
theorem reports_failed (coordinator : Coordinator) (place : Place) (machine : Machine) :
    ∃ report kept after, coordinator.recoverRun place machine = .ok (report, kept) after ∧
      ∀ reason, report.outcome = .failed reason → ∃ opened run,
        openAt place machine = .ok opened machine ∧ report.run = some run ∧
        (run.phase = .complete .success ∧
            FinishedWell (coordinator.exchanged { run := opened, machine } report.call) ∨
          run.phase = .complete .failure ∧
            ¬ FinishedWell (coordinator.exchanged { run := opened, machine } report.call)) := by
  obtain ⟨report, kept, after, recovers⟩ := recoverRun_returns coordinator place machine
  refine ⟨report, kept, after, recovers, fun reason failed => ?_⟩
  obtain ⟨held, run, holds, taken, closes⟩ := recoverRun_failed recovers failed
  obtain ⟨opened, opens, ending⟩ := holds.ending
  refine ⟨opened, run, opens, taken, ?_⟩
  have closed := fail_ending held reason.message
  rw [EndsIn, Ends, closes] at closed
  rw [finishedWell_iff, ← ending]
  cases before : held.run.phase.ending? with
  | none =>
      rw [before] at closed
      exact .inr ⟨closed, by simp⟩
  | some result =>
      rw [before] at closed ending
      have inside : result ∈ (coordinator.exchanged { run := opened, machine }
          report.call).filterMap Exchange.ending? := ending ▸ List.mem_singleton_self result
      obtain ⟨exchange, -, ends⟩ := List.mem_filterMap.1 inside
      rcases Exchange.ending?_eq_some ends with rfl | ⟨rfl, -⟩
      · exact .inr ⟨closed, by simp⟩
      · exact .inl ⟨closed, by simp⟩

/-- A coordinator whose resumer finishes every run, as a success, and does not accept it. -/
def finishing : Coordinator :=
  { accepting with resumer := fun _ _ => .ask (.finish .ok) fun _ => .result (.error "no") }

/-- What the resumer does with a run that has only its first node. -/
theorem finishing_run {opened : Run} (graph : opened.graph = .first)
    (running : opened.phase = .running) (machine : Machine) (blob : Bytes) :
    ∃ replies held, (finishing.resumer opened.resuming blob).run
        { run := opened.resuming, machine } = .ok (.error "no", replies) held ∧
      held.run.phase = .complete .success := by
  have same : opened.resuming = { opened with phase := .resuming } := if_pos running
  rw [same]
  let live : LiveRun := { run := { opened with phase := .resuming }, machine }
  obtain ⟨outcome, held, asked⟩ := attempt_returns (Command.finish .ok).perform live
  have shown : live.run.sight.view machine.now (.finish .ok) = ⟨some outcome, held.run.sight⟩ :=
    (Call.perform_view rfl (.finish .ok)).of_attempt asked
  have admits : ∃ grown, live.run.sight.graph.append .flowEnd live.run.sight.graph.heads
      flowEndName = .ok grown := by
    have first : live.run.sight.graph = .first := graph
    rw [first]
    exact ⟨_, rfl⟩
  obtain ⟨grown, admits⟩ := admits
  have ended : (live.run.sight.finished .ok).2.phase = .complete .success :=
    live.run.sight.phase_finished rfl admits
  exact ⟨[outcome], held, bind_eq_ok.2 ⟨outcome, held, asked, rfl⟩,
    (congrArg (fun view : View => view.sight.phase) shown).symm.trans ended⟩

/-- **The report is not true of the run**: a run has handed over its continuation, and its process
is killed.  The resumer finishes the run and then gives up; the recovery reports the run as failed,
and it has ended as a success. -/
theorem failed_but_successful : ∃ run started live report kept after reason last,
    Run.start .sample "sample" none .default .blank = .ok run started ∧
      live = LiveRun.after { run, machine := started } .sample (.checkpoint [7]) ∧
      finishing.recoverRun .sample live.machine = .ok (report, kept) after ∧
      report.outcome = .failed reason ∧ report.run = some last ∧
      last.phase = .complete .success := by
  have passed : Run.passes (fun run started =>
      let live := LiveRun.after { run, machine := started } .sample (.checkpoint [7])
      decide (live.run.graph = .first) && decide (live.run.phase = .running) &&
        decide (live.run.hint.writesEveryStep = true) &&
        decide (live.run.snapshot.goodBlob? = some [7]))
      (Run.start .sample "sample" none .default .blank) = true := by
    decide +kernel
  obtain ⟨run, started, begins, holds⟩ := Run.of_passes passed
  simp only [Bool.and_eq_true, decide_eq_true_eq] at holds
  obtain ⟨⟨⟨first, running⟩, prompt⟩, good⟩ := holds
  have begun : Lived .sample { run, machine := started } [] :=
    .start Place.sample_isVacant (fun _ none => by cases none) begins
  have few : Graph.first.Fits := by decide
  have storable : Command.Storable (.checkpoint [7]) := trivial
  obtain ⟨taken, lived⟩ := begun.proceeds .sample storable (first ▸ few)
  obtain ⟨image, settled, place, fits, -⟩ := lived.sound
  have saved := settled.atRest (by simp [mustBeSaved, prompt])
  have unclaimed : Place.sample.path ∉ finishing.claimed := List.not_mem_nil
  obtain ⟨opened, report, after, opens, regained, recovers, hands, -⟩ :=
    recoverRun_saved settled saved fits (congrArg Phase.isComplete running) (place ▸ unclaimed) rfl
      (settled.isFit saved (.inr (.inr prompt)))
  have regoing : opened.phase = .running := by
    obtain ⟨found, opening⟩ := settled.opens fits rfl
    cases (openAt_eq_ok_iff.2 ⟨_, opening⟩).symm.trans opens
    rw [settled.phase_reopened, running]
    rfl
  obtain ⟨verdict, handed⟩ := hands [7] good
  obtain ⟨replies, held, runs, -, rest⟩ := handed.called
  obtain ⟨_, _, done, ended⟩ := finishing_run (regained.graph_eq.trans first) regoing _ [7]
  cases runs.symm.trans done
  obtain ⟨last, failed, reported, closes⟩ := rest
  have closed := fail_ending held (closing opened (.continuation (.rejected "no"))).message
  rw [EndsIn, Ends, closes, ended] at closed
  exact ⟨run, started, _, report, _, after, _, last, begins, rfl, place ▸ recovers, failed,
    reported, closed⟩

end Coordinator
end DurableRuns
