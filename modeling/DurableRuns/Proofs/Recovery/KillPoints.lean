/-
# DurableRuns.Proofs.Recovery.KillPoints -- a kill between any two writes does no harm

A run is used by commands and taken up again by recoveries (`Operates`), from a start in an
empty directory on (`Reached`).  Each operation writes several files.  Wherever among these
writes the process is killed, a clean record on the disk means that the run is opened with the
graph from before the operation or the one from after it (`kill_leaves_whole`).

A recovery is one operation with the commands of the resumer in its midst, so a kill may also
leave the graph from between two of these.
-/
import DurableRuns.Proofs.Recovery.Recovered
import DurableRuns.Proofs.Run.Starting

namespace DurableRuns

set_option autoImplicit false

open Run RunM

/-- One operation on a run that is live at a place: the graph the run had before it, the one it
had after it and those it held in its midst, and the run it left.  A recovery drops the run
and opens it anew; in its midst are the commands that the resumer gives. -/
inductive Operates (place : Place) (live : LiveRun) : List Graph → LiveRun → Prop
  | command {command : Command} {now : Instant} {outcome : Except Error Reply} {after : LiveRun}
      (storable : command.Storable)
      (done : attempt command.perform (live.atTime now) = .ok outcome after) :
      Operates place live [live.run.graph, after.run.graph] after
  | recovery {coordinator kept : Coordinator} {now : Instant} {opened run : Run}
      {report : RecoveryReport} {machine : Machine} (storable : coordinator.resumer.Storable)
      (opens : openAt place (live.atTime now).machine = .ok opened (live.atTime now).machine)
      (done : coordinator.recoverRun place (live.atTime now).machine = .ok (report, kept) machine)
      (taken : report.run = some run) :
      Operates place live
        (live.run.graph :: run.graph ::
          coordinator.held { run := opened, machine := (live.atTime now).machine } report.call)
        { run, machine }

/-- The runs that are live after a start in an empty directory and any number of operations,
while no write is refused and node numbers have 64 bits. -/
inductive Reached (place : Place) : LiveRun → Prop
  | start {machine after : Machine} {runId : String} {asked : Option Hint} {config : Config}
      {run : Run} (vacant : place.IsVacant machine.disk)
      (willing : ∀ refusal ∈ machine.refusals, refusal = false)
      (started : Run.start place runId asked config machine = .ok run after) :
      Reached place { run, machine := after }
  | operate {live after : LiveRun} {held : List Graph} (reached : Reached place live)
      (operates : Operates place live held after) (fits : after.run.graph.Fits) :
      Reached place after

variable {place : Place} {live after : LiveRun} {held : List Graph} {image : Image}

/-- A command that is given while the clock stands still. -/
theorem Operates.at_once {command : Command} {outcome : Except Error Reply}
    (storable : command.Storable) (done : attempt command.perform live = .ok outcome after) :
    Operates place live [live.run.graph, after.run.graph] after :=
  .command storable (done : attempt command.perform (live.atTime live.machine.now) = _)

/-- An operation leaves a settled run, and every disk on the way is whole. -/
theorem Operates.goes (operates : Operates place live held after) (settled : Settled live image)
    (here : live.run.place = place) (fits : live.run.graph.Fits) :
    ∃ now image', Settled after image' ∧ after.run.place = place ∧
      (after.run.graph.Fits → OpensWhole place held live.machine.disk) ∧
      Passes (fun disk => after.run.graph.Fits → OpensWhole place held disk)
        (live.atTime now).machine after.machine := by
  subst here
  cases operates with
  | @command command now outcome _ storable done =>
      have timely := settled.atTime now
      obtain ⟨reply, between, image', yields, performs⟩ := command.perform_keeps timely storable
      obtain ⟨-, rfl⟩ : reply = outcome ∧ between = after := by
        simpa using yields.result.symm.trans done
      have goes := Goes.of_performs timely yields performs
      refine ⟨now, image', goes.settled, goes.place_eq, ?_, goes.yields.passes⟩
      intro _
      exact (settled.opensWhole fits).mono (by simp)
  | @recovery coordinator kept now opened run report machine storable opens done taken =>
      have timely := settled.atTime now
      have unclaimed : live.run.place.path ∉ coordinator.claimed := by
        intro claimed
        obtain ⟨-, none, -⟩ := Coordinator.recoverRun_claimed claimed done
        cases none.symm.trans taken
      obtain ⟨other, between, image', recovered, same, settledNow, place, passes⟩ :=
        Coordinator.recoverRun_goes storable timely fits rfl timely.tracks.willing unclaimed
      cases recovered.symm.trans done
      obtain rfl := Option.some.inj (same.symm.trans taken)
      obtain ⟨found, opening⟩ := timely.opens fits rfl
      have reopens := openAt_eq_ok_iff.2 ⟨_, opening⟩
      cases reopens.symm.trans opens
      have first (rest : List Graph) : graphBefore live.run.diskFlag
          ((live.atTime now).reopened image).graph between.run.graph ∈
            live.run.graph :: between.run.graph :: rest := by
        rw [graphBefore]
        split
        next clean => simp [timely.graph_reopened clean]
        next => simp
      refine ⟨now, image', settledNow, place, ?_, ?_⟩
      · intro _
        exact (settled.opensWhole fits).mono (by simp)
      · refine passes.mono fun disk whole fitsNow => (whole fitsNow).mono ?_
        exact List.cons_subset.2 ⟨first _, List.subset_cons_self _ _⟩

theorem Reached.settled (reached : Reached place live) :
    ∃ image, Settled live image ∧ live.run.place = place ∧ live.run.graph.Fits := by
  induction reached with
  | start vacant willing started =>
      obtain ⟨image, settled, -, here, -, first⟩ := start_settled vacant willing started
      refine ⟨image, settled, here, ?_⟩
      rw [first]
      show firstId + 1 ≤ UInt64.size
      decide
  | operate reached operates fits ih =>
      obtain ⟨image, settled, here, fitsBefore⟩ := ih
      obtain ⟨-, image', settledNow, place, -, -⟩ := operates.goes settled here fitsBefore
      exact ⟨image', settledNow, place, fits⟩

/-- **No kill does harm**: an operation makes changes of the disk, one after the other.
Whichever of them a kill lets through, a clean record on the disk that is left means that the
run is opened with a graph it held before or after the operation. -/
theorem kill_leaves_whole (reached : Reached place live) (operates : Operates place live held after)
    (fits : after.run.graph.Fits) :
    ∃ changes, after.machine.log = live.machine.log ++ changes ∧
      live.machine.disk.replay changes = .ok after.machine.disk ∧
      ∀ k, ∃ disk, live.machine.disk.replay (changes.take k) = .ok disk ∧
        OpensWhole place held disk := by
  obtain ⟨image, settled, here, fitsBefore⟩ := reached.settled
  obtain ⟨now, -, -, -, first, passes⟩ := operates.goes settled here fitsBefore
  obtain ⟨changes, log, replayed, all⟩ := passes.meets_take
  refine ⟨changes, log, replayed, fun k => ?_⟩
  obtain ⟨disk, reaches, none | whole⟩ := all k
  -- Nothing was written yet, or the last change that was let through left a whole disk.
  · exact ⟨disk, reaches, none ▸ first fits⟩
  · exact ⟨disk, reaches, whole fits⟩

/-- A node is appended to a run that writes every step: three changes, and a kill may come
after each of them. -/
theorem kill_while_appending : ∃ live after,
    Reached .sample live ∧ Operates .sample live [live.run.graph, after.run.graph] after ∧
      after.run.graph.Fits ∧ ∃ changes, after.machine.log = live.machine.log ++ changes ∧
        changes.length = 3 ∧ live.machine.disk.replay changes = .ok after.machine.disk ∧
        ∀ k, ∃ disk, live.machine.disk.replay (changes.take k) = .ok disk ∧
          OpensWhole .sample [live.run.graph, after.run.graph] disk := by
  let command : Command := .append { kind := .atom, name := "only" }
  have passed : Run.passes (fun run started =>
      Run.passes (fun _ after => decide after.run.graph.Fits &&
          decide (after.machine.log.length = started.log.length + 3))
        (attempt command.perform (LiveRun.atTime { run, machine := started } .sample)))
      (Run.start .sample "sample" none .default .blank) = true := by
    decide +kernel
  obtain ⟨run, started, begins, holds⟩ := Run.of_passes passed
  have reached : Reached .sample { run, machine := started } :=
    .start Place.sample_isVacant (fun _ none => by cases none) begins
  obtain ⟨outcome, after, done, holds⟩ := Run.of_passes holds
  obtain ⟨fits, three⟩ := Bool.and_eq_true_iff.1 holds
  have storable : command.Storable := by simp [command, Command.Storable, NodeDraft.Storable]
  have operates : Operates .sample { run, machine := started } [run.graph, after.run.graph] after :=
    .command storable done
  obtain ⟨changes, log, replayed, all⟩ :=
    kill_leaves_whole reached operates (of_decide_eq_true fits)
  refine ⟨_, after, reached, operates, of_decide_eq_true fits, changes, log, ?_, replayed, all⟩
  have total := of_decide_eq_true three
  rw [log, List.length_append] at total
  exact Nat.add_left_cancel total

end DurableRuns
