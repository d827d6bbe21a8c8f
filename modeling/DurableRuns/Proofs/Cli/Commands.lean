/-
# DurableRuns.Proofs.Cli.Commands -- the commands under an empty root directory

Where no write is refused, the demonstration command makes the only run under an empty root
directory: it stops at the step it is told to (`demo_stops`), or it ends its run and leaves the
marker of a shutdown in good order (`demo_completes`).  The recovery command finds the run that
stopped, hands it to the resumer, and leaves it as the command that does not stop does
(`recover_completes`).

A run is followed by what is seen of it and by the directory it keeps to: whatever else is under
the root stays as it was.
-/
import DurableRuns.Cli.Command
import DurableRuns.Proofs.Cli.Driving
import DurableRuns.Proofs.Recovery.Apart

namespace DurableRuns

set_option autoImplicit false

open Run RunM

/-! ## Directories -/

namespace Disk

variable {disk made : Disk} {root : Place} {name : String}

/-- Where a directory is made under an empty root it is the only one. -/
theorem IsTree.names_of_made (tree : disk.IsTree) (plain : ∀ name ∈ root.path, Place.IsStep name)
    (step : Place.IsStep name) (vacant : root.IsVacant disk)
    (directories : disk.makeDirectories (root.path ++ [name]) = .ok made) :
    made.names root.path = .ok [name] := by
  have plainNames : ∀ other ∈ root.path ++ [name], Place.IsStep other := by
    simpa [or_imp, forall_and] using ⟨plain, step⟩
  obtain ⟨standing, reached⟩ := tree.makeDirectories plainNames directories
  obtain ⟨names, listed⟩ : ∃ names, made.names root.path = .ok names := by
    rw [Disk.names, reached root.path (List.prefix_append ..)]
    exact ⟨_, rfl⟩
  have only (other : String) : other ∈ names ↔ other ∈ [name] := by
    rw [mem_names listed, at?_makeDirectories directories, List.mem_singleton]
    constructor
    · intro stands
      by_contra different
      have apart : ¬ root.path ++ [other] <+: root.path ++ [name] := by
        rw [List.prefix_append_right_inj]
        simpa [List.prefix_cons_iff] using different
      rw [if_neg apart] at stands
      exact stands (vacant _ (List.prefix_append ..) (by simp))
    · rintro rfl
      rw [if_pos (List.prefix_refl _)]
      exact Option.some_ne_none _
  have same := (List.perm_ext_iff_of_nodup (standing.nodup_names listed) (by simp)).2 only
  rw [listed, List.perm_singleton.1 same]

end Disk

/-- A settled run keeps its nodes where it is, and its directory stands. -/
theorem Settled.isAt {live : LiveRun} {image : Image} (settled : Settled live image) :
    live.IsAt live.run.place := by
  refine ⟨⟨rfl, ?_⟩, settled.tracks.shows.reached⟩
  have knows := settled.tracks.store
  unfold Run.StoreKnows at knows
  cases store : live.run.store with
  | immediate directory atomic =>
      rw [store] at knows
      exact knows.2
  | batched file nodes unflushed fault =>
      rw [store] at knows
      exact knows.2.1

/-- A program changes nothing but in the directory of its run. -/
theorem Program.Comes.changesOnly {α : Type} {program : Program α} {live after : LiveRun}
    {value : α} {place : Place} (comes : program.Comes live value after) (isAt : live.IsAt place) :
    live.machine.ChangesOnly place after.machine := by
  obtain ⟨replies, runs⟩ := comes
  obtain ⟨outcome, left, _, done, -, leaves⟩ :=
    program.run_local live live isAt ⟨rfl, .refl place.path live.machine⟩
  cases (Yields.attempt_eq_ok.2 runs).symm.trans done
  exact leaves.changes

/-- Under a root that holds the directory of a run, and nothing else, this run is listed. -/
theorem Coordinator.listRuns_only {disk : Disk} {root : Place} {name : String} {kind : StorageKind}
    {image : Image} {record : Record} (names : disk.names root.path = .ok [name])
    (shows : Shows disk (root.join name) kind image) (recorded : image.record = some record) :
    listRuns disk root = .ok [root.join name] := by
  have directory : disk.isDirectory (root.join name).path = true :=
    decide_eq_true (shows.reached _ (List.prefix_refl _))
  have holds : RunFiles.isRun disk (root.join name) = true := by
    rw [RunFiles.isRun, Disk.isFile, RunFiles.path_recordFile, shows.record, recorded]
    rfl
  simp [listRuns, names, directory, holds]

namespace Host

variable {root : Place} {machine : Machine}

theorem path_markerFile (root : Place) :
    (markerFile root).path = root.path ++ [".clean-shutdown"] :=
  root.path_join (by decide)

/-- Without a marker the process before was killed. -/
theorem learnTermination_eq_dirty (free : machine.disk.IsFree root.path)
    (absent : machine.disk.at? (root.path ++ [".clean-shutdown"]) = none) :
    learnTermination root machine = .ok .dirty machine := by
  have missing : machine.disk.missing (root.path ++ [".clean-shutdown"]) = .notFound :=
    Disk.missing_eq_notFound (by rwa [List.dropLast_concat])
  rw [learnTermination, Machine.get_bind, path_markerFile, if_pos ⟨absent, missing⟩]
  rfl

/-- The marker is left, and all else stays. -/
theorem leaveMarker_eq_ok (willing : ∀ refusal ∈ machine.refusals, refusal = false)
    (reached : machine.disk.IsReached root.path)
    (absent : machine.disk.at? (root.path ++ [".clean-shutdown"]) = none) :
    ∃ after, leaveMarker root machine = .ok () after ∧
      ∀ path, path ≠ root.path ++ [".clean-shutdown"] →
        after.disk.at? path = machine.disk.at? path := by
  have vacant : machine.disk.at? (root.path ++ [".clean-shutdown"]) ≠ some .directory := by
    rw [absent]
    nofun
  obtain ⟨written, ok⟩ := Disk.write_succeeds_of_isReached reached vacant []
  have made : (Change.write (markerFile root).path [] true).apply machine.disk = .ok written := by
    rw [path_markerFile]
    exact ok
  refine ⟨_, Machine.commit_eq_ok willing made .disk, fun path other => ?_⟩
  exact (Disk.at?_write_of_isReached reached ok path).trans (if_neg other)

end Host

/-! ## The only run under a root directory -/

/-- What begins a run keeps to its directory. -/
theorem Run.beginning_local (place : Place) : Local place beginning :=
  .bind markDirty_local fun _ => .bind (storeNode_local _) fun _ => reachSafePoint_local

/-- A run is seen so, and nothing but its directory is under the root. -/
structure LiveRun.IsOnly (now : Instant) (root : Place) (name : String) (sight : Sight)
    (live : LiveRun) : Prop extends live.Seems now (root.join name) name sight where
  names : live.machine.disk.names root.path = .ok [name]

namespace LiveRun.IsOnly

variable {root : Place} {newName : String} {live after : LiveRun} {now : Instant} {sight : Sight}

/-- A program that drives the only run leaves it so. -/
theorem comes {α : Type} {program : Program α} {value : α} {next : Sight}
    (only : live.IsOnly now root newName sight) (step : Place.IsStep newName)
    (comes : program.Comes live value after)
    (seems : after.Seems now (root.join newName) newName next) :
    after.IsOnly now root newName next := by
  obtain ⟨image, settled⟩ := only.settled
  have changes := comes.changesOnly settled.isAt
  have beside := changes.beside
  rw [only.place_eq, root.path_join step] at beside
  exact ⟨seems, (Disk.names_of_beside beside).trans only.names⟩

theorem reached (only : live.IsOnly now root newName sight) (step : Place.IsStep newName) :
    live.machine.disk.IsReached root.path := by
  obtain ⟨image, settled⟩ := only.settled
  have reached := settled.tracks.shows.reached
  rw [only.place_eq, root.path_join step] at reached
  exact fun above up => reached above (up.trans (List.prefix_append ..))

/-- There is no marker. -/
theorem absent (only : live.IsOnly now root newName sight) (apart : newName ≠ ".clean-shutdown") :
    live.machine.disk.at? (root.path ++ [".clean-shutdown"]) = none := by
  by_contra stands
  have inside := (Disk.mem_names only.names ".clean-shutdown").2 stands
  exact apart (List.mem_singleton.1 inside).symm

/-- The marker is left beside the only run, which stays as it is. -/
theorem leaveMarker (only : live.IsOnly now root newName sight) (step : Place.IsStep newName)
    (apart : newName ≠ ".clean-shutdown") :
    ∃ after, Host.leaveMarker root live.machine = .ok () after ∧
      ∀ {kind : StorageKind} {image : Image},
        Shows live.machine.disk (root.join newName) kind image →
          Shows after.disk (root.join newName) kind image := by
  obtain ⟨image, settled⟩ := only.settled
  obtain ⟨after, done, same⟩ := Host.leaveMarker_eq_ok settled.tracks.willing (only.reached step)
    (only.absent apart)
  refine ⟨after, done, fun shows => shows.congr fun path near => same path ?_⟩
  rintro rfl
  rw [root.path_join step] at near
  have areApart : Disk.AreApart (root.path ++ [newName]) (root.path ++ [".clean-shutdown"]) :=
    .of_names apart
  exact near.elim areApart.1 areApart.2

end LiveRun.IsOnly

namespace Cli

/-- The root directory is empty, or there is none yet; no write will be refused; and the name of
the next run is a plain one, and not that of the marker. -/
structure IsReady (root : Place) (newName : String) (machine : Machine) : Prop where
  tree : machine.disk.IsTree
  vacant : root.IsVacant machine.disk
  free : machine.disk.IsFree root.path
  plain : ∀ name ∈ root.path, Place.IsStep name
  willing : ∀ refusal ∈ machine.refusals, refusal = false
  step : Place.IsStep newName
  apart : newName ≠ ".clean-shutdown"

variable {root : Place} {newName : String} {machine : Machine} {live after : LiveRun}
  {config : Config} {hint : Option Hint} {now : Instant} {sight : Sight}

namespace IsReady

theorem vacant_join (ready : IsReady root newName machine) :
    (root.join newName).IsVacant machine.disk := by
  rw [Place.IsVacant, root.path_join ready.step]
  intro path below different
  refine ready.vacant path ((List.prefix_append ..).trans below) ?_
  rintro rfl
  exact Disk.not_concat_prefix _ _ below

theorem free_join (ready : IsReady root newName machine) :
    machine.disk.IsFree (root.join newName).path := by
  rw [root.path_join ready.step]
  intro above up content stands
  rcases List.prefix_concat_iff.1 up with rfl | higher
  · cases (ready.vacant _ (List.prefix_append ..) (by simp)).symm.trans stands
  · exact ready.free above higher content stands

/-- A start makes the only directory under the root. -/
theorem names_started (ready : IsReady root newName machine) {run : Run} {left : Machine}
    (started : Run.start (root.join newName) newName hint config machine = .ok run left) :
    left.disk.names root.path = .ok [newName] := by
  obtain ⟨reached, committed, begins⟩ := Run.of_start_eq_ok started
  rcases machine.commit_cases (.makeDirectories (root.join newName).path) .disk with
    ⟨made, directories, taken⟩ | ⟨fault, refused⟩
  · cases taken.symm.trans committed
    have isAt : LiveRun.IsAt (root.join newName)
        { run := begun (machine.changed (.makeDirectories (root.join newName).path) made)
            (root.join newName) newName (config.hintFor hint)
          machine := machine.changed (.makeDirectories (root.join newName).path) made } :=
      ⟨⟨rfl, NodeStore.isAt_ofRun ..⟩, (ready.vacant_join.reached directories).1⟩
    obtain ⟨outcome, final, _, done, -, leaves⟩ :=
      beginning_local _ _ _ isAt ⟨rfl, .refl _ _⟩
    cases (Yields.attempt_eq_ok.2 begins).symm.trans done
    have beside := leaves.changes.beside
    change machine.disk.makeDirectories (root.join newName).path = .ok made at directories
    rw [root.path_join ready.step] at beside directories
    exact (Disk.names_of_beside beside).trans
      (ready.tree.names_of_made ready.plain ready.step ready.vacant directories)
  · cases refused.symm.trans committed

/-- A start makes the only run. -/
theorem starts (ready : IsReady root newName machine)
    (prompt : (config.hintFor hint).writesEveryStep = true) (now : Instant) :
    ∃ live : LiveRun,
      Run.start (root.join newName) newName hint config machine = .ok live.run live.machine ∧
      live.IsOnly now root newName (Sight.first.retime fun _ => now) := by
  obtain ⟨run, left, started⟩ :=
    Run.start_returns ready.vacant_join ready.free_join ready.willing newName hint config
  obtain ⟨image, settled, -, here, -⟩ := Run.start_settled ready.vacant_join ready.willing started
  obtain ⟨reached, -, begins⟩ := Run.of_start_eq_ok started
  have same : run.snapshot =
      (begun reached (root.join newName) newName (config.hintFor hint)).snapshot := by
    have ends := beginning_spares
      { run := begun reached (root.join newName) newName (config.hintFor hint), machine := reached }
    rwa [EndsIn, Ends, begins] at ends
  have hint_eq : run.hint = config.hintFor hint := congrArg Snapshot.hint same
  refine ⟨{ run, machine := left }, started, ?_⟩
  constructor
  case toSeems =>
    constructor
    case settled => exact ⟨image, settled⟩
    case place_eq => exact here
    case runId_eq => exact congrArg Snapshot.runId same
    case prompt => exact (congrArg Hint.writesEveryStep hint_eq).trans prompt
    case sight_eq => exact congrArg (Sight.retime fun _ => now) (start_sight started)
  case names => exact ready.names_started started

end IsReady

/-! ## What the program leaves -/

namespace Demo

/-- The directory of a run that the program has ended: the record, marked clean, tells a success
at the last head; there is no continuation; and the nodes are the whole history, with all times
set to one. -/
structure IsWhole (now : Instant) (runId : String) (steps : Nat) (image : Image) : Prop where
  record : ∃ record, image.record = some record ∧ record.runId = runId ∧
    record.status = .complete ∧ record.result = .success ∧ record.clean = .clean ∧
    record.heads = [2 * steps + 2]
  checkpoint : image.checkpoint = none
  nodes : image.nodes.retime (fun _ => now) = (wholeHistory now steps).table

/-- All that the program has done is on the disk when it has ended its run. -/
theorem isWhole_of_seems {place : Place} {runId : String} {steps : Nat}
    (seems : live.Seems now place runId (lastSight now steps)) :
    ∃ image, Shows live.machine.disk place .immediate image ∧ IsWhole now runId steps image := by
  obtain ⟨image, settled⟩ := seems.settled
  have saved := seems.isSaved settled
  obtain ⟨-, rfl, rfl, prompt, seen⟩ := seems
  have phase : live.run.phase = .complete .success := congrArg Sight.phase seen
  have status : live.run.record.status = .complete := congrArg Sight.status seen
  have result : live.run.record.result = .success := congrArg Sight.result seen
  have graph : live.run.graph.retime (fun _ => now) = wholeHistory now steps :=
    congrArg Sight.graph seen
  have saves := settled.saves saved (phase ▸ by decide)
  have heads : live.run.graph.heads = [2 * steps + 2] := congrArg Graph.heads graph
  have clean := (settled.tracks.flag _ settled.record).trans saved.flag
  have shows := settled.tracks.shows
  rw [Hint.storageKind, if_pos prompt] at shows
  refine ⟨image, shows, ?_⟩
  constructor
  case record =>
    exact ⟨_, saves.recorded, saves.runId, status, result, clean, saves.has.heads.trans heads⟩
  case checkpoint =>
    exact saves.checkpoint.trans (settled.sound.ended (congrArg Phase.isComplete phase))
  case nodes =>
    rw [saves.has.nodes]
    exact congrArg Graph.table graph

end Demo

/-! ## The demonstration command -/

theorem onMachine_eq_ok {α : Type} {step : MachineM α} {value : α} {left : Machine}
    (done : step machine = .ok value left) (lines : List String) :
    onMachine step (machine, lines) = .ok value (left, lines) := by
  rw [onMachine, done]

theorem print_eq (line : String) (machine : Machine) (lines : List String) :
    print line (machine, lines) = .ok () (machine, lines ++ [line]) := rfl

section Demonstration

variable (ready : IsReady root newName machine)
  (prompt : (config.hintFor hint).writesEveryStep = true) (lines : List String)

include ready prompt

/-- The program is run on a new run. -/
theorem demo_runs (now : Instant) (steps : Nat) (stop : Option Nat) :
    ∃ live : LiveRun, live.IsOnly now root newName (Sight.first.retime fun _ => now) ∧
      ∀ {value : Except Error Bool} {after : LiveRun},
        (Demo.program steps stop).Comes live value after →
        demo config newName root hint steps stop (machine, lines) =
          (match value with
          | .error error => throw error
          | .ok true => do
              print ("Run " ++ newName ++ " completed: " ++ after.run.phase.result.name)
              onMachine (Host.leaveMarker root)
          | .ok false => print ("Run " ++ newName ++ " stopped without shutdown"))
            (after.machine, lines) := by
  have absent : machine.disk.at? (root.path ++ [".clean-shutdown"]) = none :=
    ready.vacant _ (List.prefix_append ..) (by simp)
  have learns := onMachine_eq_ok (Host.learnTermination_eq_dirty ready.free absent) lines
  obtain ⟨live, started, only⟩ := ready.starts prompt now
  refine ⟨live, only, fun {value after} comes => ?_⟩
  obtain ⟨replies, runs⟩ := comes
  have driven : (Demo.program steps stop).run.runOn live.run live.machine =
      .ok ((value, replies), after.run) after.machine := runOn_eq_ok.2 runs
  have begins := onMachine_eq_ok started lines
  have drives := onMachine_eq_ok driven lines
  exact (Machine.bind_of_ok learns).trans
    ((Machine.bind_of_ok begins).trans (Machine.bind_of_ok drives))

/-- The program stops at the step that it is told to, and its run is left as it is. -/
theorem demo_stops {stop steps : Nat} (within : stop < steps) (now : Instant) :
    ∃ live : LiveRun,
      demo config newName root hint steps (some stop) (machine, lines) =
        .ok () (live.machine, lines ++ ["Run " ++ newName ++ " stopped without shutdown"]) ∧
      live.IsOnly now root newName (Demo.sightAt .running now stop steps) := by
  obtain ⟨live, only, gives⟩ := demo_runs ready prompt lines now steps (some stop)
  obtain ⟨after, comes, seems⟩ := Demo.program_stops within only.toSeems
  exact ⟨after, gives comes, only.comes ready.step comes seems⟩

/-- The program ends its run, and the marker of a shutdown in good order is left. -/
theorem demo_completes (now : Instant) (steps : Nat) :
    ∃ left image,
      demo config newName root hint steps none (machine, lines) =
        .ok () (left, lines ++ ["Run " ++ newName ++ " completed: success"]) ∧
      Shows left.disk (root.join newName) .immediate image ∧
      Demo.IsWhole now newName steps image := by
  obtain ⟨live, only, gives⟩ := demo_runs ready prompt lines now steps none
  obtain ⟨after, comes, seems⟩ := Demo.program_completes steps only.toSeems
  obtain ⟨image, shows, whole⟩ := Demo.isWhole_of_seems seems
  obtain ⟨left, leaves, keeps⟩ :=
    (only.comes ready.step comes seems).leaveMarker ready.step ready.apart
  refine ⟨left, image, ?_, keeps shows, whole⟩
  have phase : after.run.phase = .complete .success := congrArg Sight.phase seems.sight_eq
  have prints : print ("Run " ++ newName ++ " completed: " ++ after.run.phase.result.name)
      (after.machine, lines) =
        .ok () (after.machine, lines ++ ["Run " ++ newName ++ " completed: success"]) := by
    rw [phase, print_eq, String.append_assoc]
    rfl
  rw [gives comes]
  exact bind_eq_ok.2 ⟨(), _, prints, onMachine_eq_ok leaves _⟩

end Demonstration

end Cli
end DurableRuns
