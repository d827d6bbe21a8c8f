/-
# DurableRuns.Proofs.Recovery.Deeds -- what a recovery does are deeds

What a recovery does with a run that it opened are deeds: the program is reinstalled, the resumer
gives commands, and the run is closed if it is not accepted (`Coordinator.recoverRun_does`).  So
what holds of all deeds holds of recoveries, and whatever a kill leaves, of an operation on a run
or of a recovery, is what processes leave (`Reached.left`, `Left.recovered`).
-/
import DurableRuns.Proofs.Recovery.Decision
import DurableRuns.Proofs.Recovery.KillPoints
import DurableRuns.Proofs.Recovery.Leftover

namespace DurableRuns

set_option autoImplicit false

open Run RunM

section Deeds

variable {live between after : LiveRun}

/-! ## Rows of deeds -/

/-- Deeds lead from one live run to another, and the actions that they bring along can be
written. -/
def LiveRun.Does (live after : LiveRun) : Prop :=
  ∃ deeds : List (Instant × Deed),
    (∀ given ∈ deeds, given.2.Storable) ∧ live.afterDeeds deeds = after

namespace LiveRun.Does

theorem refl (live : LiveRun) : live.Does live := ⟨[], by simp, rfl⟩

theorem trans (first : live.Does between) (second : between.Does after) : live.Does after := by
  obtain ⟨early, storable, rfl⟩ := first
  obtain ⟨late, storableToo, rfl⟩ := second
  refine ⟨early ++ late, fun given inside => ?_, List.foldl_append ..⟩
  exact (List.mem_append.1 inside).elim (storable given) (storableToo given)

/-- A single deed, at a point in time. -/
theorem of_attempt {outcome : Except Error Unit} (deed : Deed) (now : Instant)
    (storable : deed.Storable)
    (done : attempt deed.carryOut (live.atTime now) = .ok outcome after) : live.Does after := by
  refine ⟨[(now, deed)], by simpa using storable, ?_⟩
  show live.afterDeed now deed = after
  rw [afterDeed, done]

theorem of_command {command : Command} {reply : Except Error Reply} (now : Instant)
    (storable : command.Storable)
    (done : attempt command.perform (live.atTime now) = .ok reply after) : live.Does after := by
  have carried : ∃ outcome,
      attempt (Deed.command command).carryOut (live.atTime now) = .ok outcome after := by
    rw [attempt] at done ⊢
    simp only [Deed.carryOut, Bind.bind, EStateM.bind]
    cases performed : command.perform (live.atTime now) with
    | ok value left =>
        rw [performed] at done
        cases done
        exact ⟨.ok (), rfl⟩
    | error error left =>
        rw [performed] at done
        cases done
        exact ⟨.error error, rfl⟩
  obtain ⟨outcome, carried⟩ := carried
  exact of_attempt (.command command) now storable carried

theorem of_fail {reason : String} (done : fail reason live = .ok () after) : live.Does after :=
  of_attempt (.fail reason) live.machine.now trivial (Yields.attempt_eq_ok.2 done)

theorem resuming (run : Run) (machine : Machine) :
    LiveRun.Does { run, machine } { run := run.resuming, machine } :=
  of_attempt .enterResuming machine.now trivial (Yields.attempt_eq_ok.2 rfl)

theorem resumed (run : Run) (machine : Machine) :
    LiveRun.Does { run, machine } { run := run.resumed, machine } :=
  of_attempt .leaveResuming machine.now trivial (Yields.attempt_eq_ok.2 rfl)

theorem conducts (does : live.Does after) (orderly : live.run.holdings.IsOrderly) :
    Conducts live after := by
  obtain ⟨deeds, storable, rfl⟩ := does
  exact afterDeeds_conducts orderly storable

end LiveRun.Does

/-- What a program does with a run are deeds. -/
theorem Program.run_does {α : Type} {program : Program α} (storable : program.Storable)
    {found : α × List (Except Error Reply)} (done : program.run live = .ok found after) :
    live.Does after := by
  induction program generalizing live found with
  | result value =>
      cases done
      exact .refl _
  | ask command next ih =>
      obtain ⟨fits, others⟩ := storable
      obtain ⟨reply, between, asked, rest⟩ := bind_eq_ok.1 done
      obtain ⟨later, _, followed, gives⟩ := bind_eq_ok.1 rest
      cases gives
      exact (LiveRun.Does.of_command live.machine.now fits asked).trans
        (ih reply (others reply) followed)

/-- A process that had begun a run, did deeds, and was killed in the midst of more, leaves what
processes leave. -/
theorem Left.of_does {place : Place} {earlier disk : Disk} {begun : LiveRun}
    {changes : List Change} {k : Nat} (left : Left place earlier)
    (begins : begun.BegunOn place earlier fun _ => True) (does : begun.Does live)
    (goes : live.Does after) (fits : after.run.graph.Fits)
    (log : after.machine.log = live.machine.log ++ changes)
    (killed : live.machine.disk.replay (changes.take k) = .ok disk) : Left place disk := by
  obtain ⟨-, orderly, -⟩ := begins.isOrderly left.remains
  obtain ⟨early, earlyLog, replayed, -⟩ := (does.conducts orderly).writes
  obtain ⟨deeds, storable, rfl⟩ := does.trans goes
  refine .used (k := early.length + k) left begins storable fits
    (by rw [log, earlyLog, List.append_assoc]) ?_
  rw [List.take_length_add_append, Disk.replay_append, replayed]
  exact killed

/-- So does a process that is killed between two deeds. -/
theorem Left.dropped {place : Place} {earlier : Disk} {begun : LiveRun} (left : Left place earlier)
    (begins : begun.BegunOn place earlier fun _ => True) (does : begun.Does live)
    (fits : live.run.graph.Fits) : Left place live.machine.disk :=
  left.of_does (k := 0) begins does (.refl _) fits (List.append_nil _).symm rfl

end Deeds

/-! ## Recoveries -/

section Recoveries

variable {place : Place} {machine after : Machine} {coordinator kept : Coordinator}
  {report : RecoveryReport}

namespace Coordinator

/-- What cannot be opened is not taken on, and no file is changed. -/
theorem recoverRun_unopened {error : Error}
    (unopened : openReporting place machine = .error error machine)
    (recovers : coordinator.recoverRun place machine = .ok (report, kept) after) :
    (∃ reason, report.outcome = .skipped reason) ∧ report.run = none ∧ after.log = machine.log := by
  rw [recoverRun] at recovers
  split at recovers
  · cases recovers
    exact ⟨⟨_, rfl⟩, rfl, rfl⟩
  · obtain ⟨taken, left, takes, gives⟩ := bind_eq_ok.1 recovers
    cases gives
    simp only [takeOn, tryCatch, tryCatchThe, MonadExceptOf.tryCatch, EStateM.tryCatch, bind,
      EStateM.bind, unopened, pure, EStateM.pure] at takes
    cases takes
    exact ⟨⟨_, rfl⟩, rfl, rfl⟩

/-- The run that a recovery closes, as it holds it before: as it was opened, if the resumer was not
called, or as the program of the resumer left it that did not accept it. -/
inductive Holds (coordinator : Coordinator) (place : Place) (machine : Machine) :
    Option ResumeCall → LiveRun → Prop
  | opened {run : Run} (opens : openAt place machine = .ok run machine)
      (running : run.phase.isComplete = false) :
      Holds coordinator place machine none { run, machine }
  | rejected {run : Run} {checkpoint : Checkpoint} {reason : String}
      {replies : List (Except Error Reply)} {live : LiveRun}
      (opens : openAt place machine = .ok run machine) (running : run.phase.isComplete = false)
      (taken : run.checkpoint = some checkpoint)
      (rejects : (coordinator.resumer run.resuming checkpoint.blob).run
        { run := run.resuming, machine } = .ok (.error reason, replies) live) :
      Holds coordinator place machine
        (some { runId := run.resuming.runId, phase := run.resuming.phase,
                blob := checkpoint.blob, replies }) live

/-- A recovery that reports a run as failed has closed the run that it held. -/
theorem recoverRun_failed {reason : Error}
    (recovers : coordinator.recoverRun place machine = .ok (report, kept) after)
    (failed : report.outcome = .failed reason) :
    ∃ held run, coordinator.Holds place machine report.call held ∧ report.run = some run ∧
      fail reason.message held = .ok () { run, machine := after } := by
  rcases openReporting_cases place machine with
    ⟨found, loaded, opens, -, -, continued⟩ | ⟨error, unopened⟩
  case inr =>
    obtain ⟨⟨_, skipped⟩, -⟩ := recoverRun_unopened unopened recovers
    cases failed.symm.trans skipped
  have opened := openAt_eq_ok_iff.2 ⟨_, opens⟩
  obtain ⟨running, ⟨checkpoint, verdict, taken, handed⟩ | refused⟩ :=
    recoverRun_cases opens rfl continued recovers (by simp [failed])
  · obtain ⟨replies, held, runs, called, rest⟩ := handed.called
    cases verdict with
    | ok => cases failed.symm.trans rest.1
    | error why =>
        obtain ⟨run, closed, left, closes⟩ := rest
        cases failed.symm.trans closed
        rw [called]
        exact ⟨held, run, .rejected opened running taken runs, left, closes⟩
  · obtain ⟨obstacle, run, closed, left, closes⟩ := refused.closed
    cases failed.symm.trans closed
    rw [refused.call]
    exact ⟨_, run, .opened opened running, left, closes⟩

/-- What is held was opened, and what was done with it since are deeds. -/
theorem Holds.does {call : Option ResumeCall} {held : LiveRun}
    (holds : coordinator.Holds place machine call held) (storable : coordinator.resumer.Storable) :
    ∃ run, openAt place machine = .ok run machine ∧ run.phase.isComplete = false ∧
      LiveRun.Does { run, machine } held := by
  cases holds with
  | opened opens running => exact ⟨_, opens, running, .refl _⟩
  | rejected opens running taken rejects =>
      exact ⟨_, opens, running,
        (LiveRun.Does.resuming _ _).trans (Program.run_does (storable _ _) rejects)⟩

/-- **What a recovery does are deeds**: it leaves the disk alone, or it opens a run and does
deeds with it.  No program is at work on the run that it leaves. -/
theorem recoverRun_does (storable : coordinator.resumer.Storable)
    (recovers : coordinator.recoverRun place machine = .ok (report, kept) after) :
    (report.run = none ∧ after.log = machine.log) ∨
      ∃ opened run, openAt place machine = .ok opened machine ∧ report.run = some run ∧
        run.phase ≠ .resuming ∧
        LiveRun.Does { run := opened, machine } { run, machine := after } := by
  rcases openReporting_cases place machine with
    ⟨found, loaded, opens, -, -, continued⟩ | ⟨error, unopened⟩
  case inr =>
    obtain ⟨-, none, log⟩ := recoverRun_unopened unopened recovers
    exact .inl ⟨none, log⟩
  have opened := openAt_eq_ok_iff.2 ⟨_, opens⟩
  by_cases claimed : place.path ∈ coordinator.claimed
  · obtain ⟨-, none, rfl⟩ := recoverRun_claimed claimed recovers
    exact .inl ⟨none, rfl⟩
  right
  have ended {run : Run} (complete : run.phase.isComplete = true) : run.phase ≠ .resuming := by
    intro resuming
    rw [resuming] at complete
    cases complete
  have closed {held : LiveRun} {reason : String} {run : Run}
      (closes : fail reason held = .ok () { run, machine := after }) : run.phase ≠ .resuming := by
    have completes := fail_completes reason held
    rw [EndsIn, Ends, closes] at completes
    exact ended completes
  cases complete : found.phase.isComplete with
  | true =>
      obtain ⟨-, taken, rfl⟩ := recoverRun_complete opens complete claimed recovers
      exact ⟨_, _, opened, taken, ended complete, .refl _⟩
  | false =>
      rcases recoverRun_handed_or_refused opens rfl continued complete claimed recovers with
        ⟨checkpoint, verdict, -, handed⟩ | refused
      · obtain ⟨replies, held, runs, -, rest⟩ := handed.called
        have does := (LiveRun.Does.resuming _ machine).trans (Program.run_does (storable _ _) runs)
        cases verdict with
        | ok =>
            obtain ⟨-, taken, rfl⟩ := rest
            exact ⟨_, _, opened, taken, held.run.phase_resumed_ne,
              does.trans (.resumed held.run held.machine)⟩
        | error reason =>
            obtain ⟨run, -, taken, closes⟩ := rest
            exact ⟨_, run, opened, taken, closed closes, does.trans (.of_fail closes)⟩
      · obtain ⟨obstacle, run, -, taken, closes⟩ := refused.closed
        exact ⟨_, run, opened, taken, closed closes, .of_fail closes⟩

end Coordinator

/-- What a recovery leaves that was killed anywhere is what processes leave. -/
theorem Left.recovered {changes : List Change} {k : Nat} {disk : Disk}
    (left : Left place machine.disk) (storable : coordinator.resumer.Storable)
    (recovers : coordinator.recoverRun place machine = .ok (report, kept) after)
    (fits : ∀ run, report.run = some run → run.graph.Fits)
    (log : after.log = machine.log ++ changes)
    (killed : machine.disk.replay (changes.take k) = .ok disk) : Left place disk := by
  rcases Coordinator.recoverRun_does storable recovers with
    ⟨-, unchanged⟩ | ⟨opened, run, opens, taken, -, does⟩
  · obtain rfl : changes = [] := by simpa [unchanged] using log
    rw [List.take_nil] at killed
    obtain rfl := Except.ok.inj killed
    exact left
  · obtain ⟨found, reports⟩ := openAt_eq_ok_iff.1 opens
    exact left.of_does (.opened rfl reports trivial) (.refl _) does (fits run taken) log killed

/-- A run that is live after a start in an empty directory and any number of operations was begun
by its process on what processes leave. -/
theorem Reached.does {live : LiveRun} (reached : Reached place live) :
    ∃ (earlier : Disk) (begun : LiveRun), Left place earlier ∧
      begun.BegunOn place earlier (fun _ => True) ∧ begun.Does live := by
  induction reached with
  | start vacant willing started =>
      exact ⟨_, _, .nothing vacant, .start rfl vacant started, .refl _⟩
  | @operate live after held reached operates fits ih =>
      obtain ⟨earlier, begun, left, begins, does⟩ := ih
      cases operates with
      | command storable done =>
          exact ⟨earlier, begun, left, begins, does.trans (.of_command _ storable done)⟩
      | @recovery coordinator kept now opened run report machine storable opens done taken =>
          -- The process that had the run is killed, and the recovery begins it anew.
          obtain ⟨-, -, -, fitsNow⟩ := reached.settled
          have dropped : Left place (live.atTime now).machine.disk :=
            (left.dropped begins does fitsNow : Left place live.machine.disk)
          rcases Coordinator.recoverRun_does storable done with
            ⟨none, -⟩ | ⟨found, last, finds, same, -, does⟩
          · cases none.symm.trans taken
          · obtain rfl := Option.some.inj (same.symm.trans taken)
            obtain ⟨report, reports⟩ := openAt_eq_ok_iff.1 finds
            exact ⟨_, _, dropped, .opened rfl reports trivial, does⟩

/-- What is left of a run that is dropped between two operations is what processes leave. -/
theorem Reached.dropped {live : LiveRun} (reached : Reached place live) :
    Left place live.machine.disk := by
  obtain ⟨earlier, begun, left, begins, does⟩ := reached.does
  obtain ⟨-, -, -, fits⟩ := reached.settled
  exact left.dropped begins does fits

/-- **Whatever a kill leaves of a run is what processes leave**: the run was started in an empty
directory and used by any number of operations, and was killed in the midst of one more. -/
theorem Reached.left {live ended : LiveRun} {held : List Graph} {changes : List Change} {k : Nat}
    {disk : Disk} (reached : Reached place live) (operates : Operates place live held ended)
    (fits : ended.run.graph.Fits) (log : ended.machine.log = live.machine.log ++ changes)
    (killed : live.machine.disk.replay (changes.take k) = .ok disk) : Left place disk := by
  cases operates with
  | command storable done =>
      obtain ⟨earlier, begun, left, begins, does⟩ := reached.does
      exact left.of_does begins does (.of_command _ storable done) fits log killed
  | @recovery coordinator kept now opened run report machine storable opens done taken =>
      have dropped : Left place (live.atTime now).machine.disk := reached.dropped
      refine dropped.recovered storable done (fun last same => ?_) log killed
      obtain rfl := Option.some.inj (same.symm.trans taken)
      exact fits

end Recoveries
end DurableRuns
