/-
# DurableRuns.Proofs.Cli.Around -- what the commands do around a root directory

A run is in a directory right under the root directory, and whatever is done with it stays in there
(`Machine.ChangesOnly`).  So a command changes little of what is right under the root, at it or
above it: it makes the directory of a new run, and it takes the marker away or leaves it.
`Host.Brings` says this of two disks, with what then stands in the place of the marker.

Main statements: `demo_brings` and `recover_brings`, for every disk and every refusal of the device.
A demonstration leaves no marker if it was stopped, and else one, unless it fails; a recovery leaves
one unless it fails.  A command that fails leaves no marker where there was none.
-/
import DurableRuns.Proofs.Cli.Commands

namespace DurableRuns

set_option autoImplicit false

open Run RunM

/-! ## Around a directory -/

namespace Disk

/-- Two disks are the same above a directory, at it and right under it. -/
def SameAround (root : Path) (disk other : Disk) : Prop :=
  ∀ path : Path, path.length ≤ root.length + 1 → other.at? path = disk.at? path

/-- Right under a directory a disk is like a tree: whatever is there has a plain name, and the
directory stands. -/
structure IsTreeUnder (root : Path) (disk : Disk) : Prop where
  plain : ∀ name, disk.at? (root ++ [name]) ≠ none → Place.IsStep name
  reached : ∀ name, disk.at? (root ++ [name]) ≠ none → disk.IsReached root

variable {root : Path} {disk between other : Disk}

namespace SameAround

theorem refl (root : Path) (disk : Disk) : SameAround root disk disk := fun _ _ => rfl

theorem trans (first : SameAround root disk between) (second : SameAround root between other) :
    SameAround root disk other :=
  fun path short => (second path short).trans (first path short)

theorem symm (same : SameAround root disk other) : SameAround root other disk :=
  fun path short => (same path short).symm

theorem isReached {directory : Path} (same : SameAround root disk other)
    (short : directory.length ≤ root.length + 1) (reached : disk.IsReached directory) :
    other.IsReached directory :=
  fun above up => (same above (up.length_le.trans short)).trans (reached above up)

end SameAround

theorem IsTree.isTreeUnder (tree : disk.IsTree) (root : Path) : disk.IsTreeUnder root where
  plain := fun name stands => tree.plain _ stands name (by simp)
  reached := fun name stands => by simpa using tree.rooted _ stands

end Disk

/-- Nothing that is done in a directory right under a root shows around the root. -/
theorem Machine.ChangesOnly.sameAround {place : Place} {before after : Machine} {root : Path}
    (changes : before.ChangesOnly place after) (child : place.path.length = root.length + 1) :
    Disk.SameAround root before.disk after.disk :=
  fun _ short => Disk.at?_of_beside changes.beside
    (Disk.not_isInside_of_length_le (child ▸ short))

namespace Host

/-- Where the marker of a shutdown in good order is, for a root directory. -/
def markerPath (root : Path) : Path := root ++ [".clean-shutdown"]

/-- The marker is there. -/
def IsMarked (root : Path) (disk : Disk) : Prop := disk.at? (markerPath root) ≠ none

instance (root : Path) (disk : Disk) : Decidable (IsMarked root disk) :=
  inferInstanceAs (Decidable (_ ≠ _))

/-- One disk came of another, with an entry in the place of the marker: it is like a tree under the
root directory if the other was, and the root directory stands if it did. -/
structure Brings (root : Path) (entry : Option Entry) (before after : Disk) : Prop where
  tree : before.IsTreeUnder root → after.IsTreeUnder root
  reached : before.IsReached root → after.IsReached root
  marker : after.at? (markerPath root) = entry

/-- One disk came of another, and the marker is as it was or is gone. -/
def BringsNone (root : Path) (before after : Disk) : Prop :=
  Brings root (before.at? (markerPath root)) before after ∨ Brings root none before after

variable {root : Path} {entry : Option Entry} {before between after : Disk}

theorem path_markerFile_eq (root : Place) : (markerFile root).path = markerPath root.path :=
  path_markerFile root

theorem ne_markerPath {above : Path} (up : above <+: root) : above ≠ markerPath root := by
  rintro rfl
  exact Disk.not_concat_prefix _ _ up

namespace Brings

theorem trans {earlier : Option Entry} (first : Brings root earlier before between)
    (second : Brings root entry between after) : Brings root entry before after where
  tree := fun tree => second.tree (first.tree tree)
  reached := fun reached => second.reached (first.reached reached)
  marker := second.marker

theorem of_sameAround (same : Disk.SameAround root before after) :
    Brings root (before.at? (markerPath root)) before after where
  tree := by
    intro tree
    have there (name : String) : after.at? (root ++ [name]) = before.at? (root ++ [name]) :=
      same _ (by simp)
    constructor
    case plain => exact fun name stands => tree.plain name (there name ▸ stands)
    case reached =>
      intro name stands
      exact same.isReached (Nat.le_succ _) (tree.reached name (there name ▸ stands))
  reached := same.isReached (Nat.le_succ _)
  marker := same _ (by simp [markerPath])

theorem refl (root : Path) (disk : Disk) : Brings root (disk.at? (markerPath root)) disk disk :=
  .of_sameAround (.refl root disk)

/-- The directory of a new run is made. -/
theorem of_makeDirectories {name : String} (step : Place.IsStep name)
    (apart : name ≠ ".clean-shutdown")
    (made : before.makeDirectories (root ++ [name]) = .ok after) :
    Brings root (before.at? (markerPath root)) before after ∧
      after.IsReached (root ++ [name]) := by
  have stands (path : Path) := Disk.at?_makeDirectories made path
  have other {child : String} (differs : child ≠ name) : ¬ root ++ [child] <+: root ++ [name] := by
    rw [List.prefix_append_right_inj]
    simpa [List.prefix_cons_iff] using differs
  have reached : after.IsReached (root ++ [name]) := fun above up =>
    (stands above).trans (if_pos up)
  have above : after.IsReached root := fun path up =>
    reached path (up.trans (List.prefix_append ..))
  refine ⟨?_, reached⟩
  constructor
  case tree =>
    refine fun tree => ⟨fun child found => ?_, fun _ _ => above⟩
    by_cases new : child = name
    · exact new ▸ step
    · rw [stands, if_neg (other new)] at found
      exact tree.plain child found
  case reached => exact fun _ => above
  case marker => rw [stands, markerPath, if_neg (other apart.symm)]

/-- The marker is left. -/
theorem of_write (written : before.write (markerPath root) [] = .ok after) :
    Brings root (some (.file [])) before after ∧ after.IsReached root := by
  have stands (path : Path) := Disk.at?_write written path
  have reached : after.IsReached root := by
    intro above up
    rw [stands, if_neg (ne_markerPath up), markerPath, List.dropLast_concat, if_pos up]
  refine ⟨?_, reached⟩
  constructor
  case tree =>
    refine fun tree => ⟨fun child found => ?_, fun _ _ => reached⟩
    by_cases here : child = ".clean-shutdown"
    · exact here ▸ by decide
    · rw [stands, markerPath, if_neg (by simpa using here), List.dropLast_concat,
        if_neg (Disk.not_concat_prefix _ _)] at found
      exact tree.plain child found
  case reached => exact fun _ => reached
  case marker => exact (stands _).trans (if_pos rfl)

/-- The marker is taken away. -/
theorem of_remove (removed : before.remove (markerPath root) = .ok after) :
    Brings root none before after := by
  have stands (path : Path) := Disk.at?_remove removed path
  have still : before.IsReached root → after.IsReached root := by
    intro reached above up
    rw [stands, if_neg (ne_markerPath up)]
    exact reached above up
  have stood {path : Path} (found : after.at? path ≠ none) : before.at? path ≠ none := by
    intro missing
    rw [stands, missing, ite_self] at found
    exact found rfl
  constructor
  case tree =>
    exact fun tree => ⟨fun child found => tree.plain child (stood found),
      fun child found => still (tree.reached child (stood found))⟩
  case reached => exact still
  case marker => exact (stands _).trans (if_pos rfl)

end Brings

namespace BringsNone

theorem refl (root : Path) (disk : Disk) : BringsNone root disk disk := .inl (.refl root disk)

theorem of_eq (same : after = before) : BringsNone root before after := same ▸ .refl root before

theorem brings (first : BringsNone root before between) (second : Brings root entry between after) :
    Brings root entry before after :=
  first.elim (fun first => first.trans second) fun first => first.trans second

theorem trans (first : BringsNone root before between) (second : BringsNone root between after) :
    BringsNone root before after := by
  rcases second with kept | gone
  · rcases first with before | before
    · exact .inl (before.marker ▸ before.trans kept)
    · exact .inr (before.marker ▸ before.trans kept)
  · exact .inr (first.brings gone)

theorem sameAround (first : BringsNone root before between)
    (same : Disk.SameAround root between after) : BringsNone root before after :=
  first.trans (.inl (.of_sameAround same))

theorem isTreeUnder (brings : BringsNone root before after) (tree : before.IsTreeUnder root) :
    after.IsTreeUnder root :=
  brings.elim (fun brings => brings.tree tree) fun brings => brings.tree tree

end BringsNone

/-- A marker that is gone does not come back. -/
theorem Brings.then_none (first : Brings root none before between)
    (second : BringsNone root between after) : Brings root none before after :=
  second.elim (fun second => first.trans (first.marker ▸ second)) first.trans

end Host

/-! ## What a step comes to -/

/-- A step, begun on a state, comes to a value and `done` holds, or fails and `failed` holds. -/
def ComesTo {ε σ α : Type} (step : EStateM ε σ α) (state : σ) (done : α → σ → Prop)
    (failed : σ → Prop) : Prop :=
  match step state with
  | .ok value after => done value after
  | .error _ after => failed after

namespace ComesTo

variable {ε σ α β : Type} {state : σ} {done : α → σ → Prop} {failed : σ → Prop}

theorem of_ok {step : EStateM ε σ α} {value : α} {after : σ}
    (comes : ComesTo step state done failed) (gives : step state = .ok value after) :
    done value after := by
  rwa [ComesTo, gives] at comes

theorem of_error {step : EStateM ε σ α} {error : ε} {after : σ}
    (comes : ComesTo step state done failed) (fails : step state = .error error after) :
    failed after := by
  rwa [ComesTo, fails] at comes

theorem mono {step : EStateM ε σ α} {done' : α → σ → Prop} {failed' : σ → Prop}
    (comes : ComesTo step state done failed)
    (ok : ∀ value after, done value after → done' value after)
    (error : ∀ after, failed after → failed' after) : ComesTo step state done' failed' := by
  rw [ComesTo]
  split
  next value after gives => exact ok value after (comes.of_ok gives)
  next fault after fails => exact error after (comes.of_error fails)

/-- The value and the state are those that the step comes to. -/
theorem with_result {step : EStateM ε σ α} (comes : ComesTo step state done failed) :
    ComesTo step state (fun value after => step state = .ok value after ∧ done value after)
      failed := by
  rw [ComesTo]
  split
  next value after gives => exact ⟨gives, comes.of_ok gives⟩
  next fault after fails => exact comes.of_error fails

theorem pure {value : α} (holds : done value state) :
    ComesTo (Pure.pure value : EStateM ε σ α) state done failed := holds

theorem bind {step : EStateM ε σ β} {next : β → EStateM ε σ α}
    (comes : ComesTo step state (fun value between => ComesTo (next value) between done failed)
      failed) : ComesTo (step >>= next) state done failed := by
  rw [ComesTo] at comes ⊢
  simp only [Bind.bind, EStateM.bind]
  cases first : step state with
  | ok value between =>
      rw [first] at comes
      exact comes
  | error error after =>
      rw [first] at comes
      exact comes

theorem get {next : σ → EStateM ε σ α} (comes : ComesTo (next state) state done failed) :
    ComesTo (MonadState.get >>= next) state done failed := comes

end ComesTo

/-- A change is made, or all stays as it is. -/
theorem Machine.commit_comesTo (change : Change) (toError : DiskFault → Error) (machine : Machine) :
    ComesTo (commit change toError) machine
      (fun _ after => change.apply machine.disk = .ok after.disk)
      fun after => after.disk = machine.disk := by
  rw [ComesTo]
  rcases machine.commit_cases change toError with ⟨made, applies, done⟩ | ⟨fault, refused⟩
  · rw [done]
    exact applies
  · rw [refused]
    rfl

namespace Host

variable {root : Place} {machine : Machine}

/-- The marker is taken away, if it is there, and tells how the process before ended. -/
theorem learnTermination_comesTo (root : Place) (machine : Machine) :
    ComesTo (learnTermination root) machine
      (fun termination after => Brings root.path none machine.disk after.disk ∧
        (termination = .clean ↔ IsMarked root.path machine.disk))
      fun after => after.disk = machine.disk := by
  refine .get ?_
  simp only [path_markerFile_eq]
  split
  next missing =>
    obtain ⟨absent, -⟩ := missing
    exact .pure ⟨absent ▸ .refl root.path machine.disk, by simp [IsMarked, absent]⟩
  next =>
    refine .bind ((Machine.commit_comesTo _ _ machine).mono (fun _ after removed => ?_) fun _ => id)
    have stands : IsMarked root.path machine.disk := by
      intro absent
      change machine.disk.remove (markerPath root.path) = .ok after.disk at removed
      rw [Disk.remove, absent] at removed
      cases removed
    exact .pure ⟨.of_remove removed, by simp [stands]⟩

/-- The marker is left, if the device takes it. -/
theorem leaveMarker_comesTo (root : Place) (machine : Machine) :
    ComesTo (leaveMarker root) machine
      (fun _ after => Brings root.path (some (.file [])) machine.disk after.disk ∧
        after.disk.IsReached root.path)
      fun after => after.disk = machine.disk := by
  rw [leaveMarker, path_markerFile_eq]
  exact (Machine.commit_comesTo _ _ machine).mono (fun _ _ => Brings.of_write) fun _ => id

end Host

/-! ## Runs under the root -/

/-- The directory of a run is right under a root directory, and stands. -/
structure Place.IsUnder (root : Path) (disk : Disk) (place : Place) : Prop where
  length_eq : place.path.length = root.length + 1
  reached : disk.IsReached place.path

theorem Place.IsUnder.of_sameAround {root : Path} {disk other : Disk} {place : Place}
    (under : place.IsUnder root disk) (same : Disk.SameAround root disk other) :
    place.IsUnder root other :=
  ⟨under.length_eq, same.isReached under.length_eq.le under.reached⟩

/-- A run that is opened is at its place. -/
theorem Run.isAt_of_openReporting {place : Place} {machine after : Machine} {run : Run}
    {report : OpeningReport} (opens : openReporting place machine = .ok (run, report) after) :
    run.IsAt place := by
  obtain ⟨record, between, -, rest⟩ := bind_eq_ok.1 opens
  obtain ⟨_, _, looked, rest⟩ := bind_eq_ok.1 rest
  cases looked
  obtain ⟨loaded, _, -, rest⟩ := bind_eq_ok.1 rest
  cases rest
  exact ⟨rfl, NodeStore.isAt_ofRun ..⟩

/-- What is done with a run does not show around the root. -/
theorem RunM.Local.comesTo {α : Type} {step : RunM α} {place : Place} {root : Path} {run : Run}
    {machine : Machine} (steps : Local place step) (isAt : run.IsAt place)
    (under : place.IsUnder root machine.disk) :
    ComesTo (step.runOn run) machine
      (fun found after => Disk.SameAround root machine.disk after.disk ∧ found.2.IsAt place)
      fun after => Disk.SameAround root machine.disk after.disk := by
  obtain ⟨outcome, after, _, done, -, leaves⟩ :=
    steps { run, machine } _ ⟨isAt, under.reached⟩ ⟨rfl, .refl _ _⟩
  have same := leaves.changes.sameAround under.length_eq
  rw [ComesTo, RunM.runOn]
  cases outcome with
  | ok value =>
      rw [Yields.attempt_eq_ok.1 done]
      exact ⟨same, leaves.isAt.run⟩
  | error error =>
      rw [Yields.attempt_eq_error.1 done]
      exact same

namespace Coordinator

variable {root : Path} {disk disk' : Disk} {machine : Machine} {places : List Place}

/-- The directories that are listed stand right under the root. -/
theorem isUnder_of_listed {root : Place} (tree : disk.IsTreeUnder root.path)
    (listed : listRuns disk root = .ok places) :
    ∀ place ∈ places, place.IsUnder root.path disk := by
  rcases listRuns_cases listed with ⟨names, found, rfl⟩ | ⟨-, rfl⟩
  · intro place inside
    obtain ⟨named, stands⟩ := List.mem_filter.1 inside
    obtain ⟨name, child, rfl⟩ := List.mem_map.1 named
    have present := (Disk.mem_names found name).1 (List.mem_mergeSort.1 child)
    have path := root.path_join (tree.plain name present)
    constructor
    case length_eq => rw [path, List.length_append]; rfl
    case reached =>
      have directory : disk.at? (root.join name).path = some .directory :=
        of_decide_eq_true (Bool.and_eq_true_iff.1 stands).1
      rw [path] at directory ⊢
      intro above up
      rcases List.prefix_concat_iff.1 up with rfl | higher
      · exact directory
      · exact tree.reached name present above higher
  · nofun

/-- The runs of reports are in directories right under the root. -/
def AreUnder (root : Path) (disk : Disk) (reports : List RecoveryReport) : Prop :=
  ∀ report ∈ reports, ∀ run, report.run = some run →
    ∃ place : Place, run.IsAt place ∧ place.IsUnder root disk

theorem AreUnder.of_sameAround {reports : List RecoveryReport} (under : AreUnder root disk reports)
    (same : Disk.SameAround root disk disk') : AreUnder root disk' reports := by
  intro report inside run runs
  obtain ⟨place, isAt, here⟩ := under report inside run runs
  exact ⟨place, isAt, here.of_sameAround same⟩

/-- Taking a directory on does not show around the root. -/
theorem takeOn_comesTo (coordinator : Coordinator) {place : Place} (name : String)
    (under : place.IsUnder root machine.disk) :
    ComesTo (coordinator.takeOn place name) machine
      (fun report after => Disk.SameAround root machine.disk after.disk ∧
        ∀ run, report.run = some run → run.IsAt place)
      fun after => Disk.SameAround root machine.disk after.disk := by
  rcases openReporting_cases place machine with ⟨run, loaded, opens, -⟩ | ⟨error, unopened⟩
  · have isAt := isAt_of_openReporting opens
    rw [ComesTo, takeOn_eq coordinator opens]
    cases run.phase.isComplete with
    | true =>
        refine ⟨.refl root machine.disk, ?_⟩
        rintro _ ⟨⟩
        exact isAt
    | false =>
        have settles := (settle_local coordinator (.ofParts run.record loaded
          (RunFiles.checkpointOn machine.disk place))).comesTo isAt under
        rw [ComesTo] at settles
        rw [if_neg Bool.false_ne_true]
        split at settles
        next found after gives =>
          rw [gives]
          refine ⟨settles.1, ?_⟩
          rintro _ ⟨⟩
          exact settles.2
        next fails =>
          rw [fails]
          exact settles
  · rw [ComesTo, takeOn_eq_of_error coordinator unopened]
    refine ⟨fun _ _ => rfl, ?_⟩
    intro _ none
    cases none

theorem recoverRun_comesTo (coordinator : Coordinator) {place : Place}
    (under : place.IsUnder root machine.disk) :
    ComesTo (coordinator.recoverRun place) machine
      (fun found after => Disk.SameAround root machine.disk after.disk ∧
        ∀ run, found.1.run = some run → run.IsAt place)
      fun after => Disk.SameAround root machine.disk after.disk := by
  rw [recoverRun]
  split
  · refine .pure ⟨.refl root machine.disk, ?_⟩
    intro _ none
    cases none
  · exact .bind ((takeOn_comesTo _ _ under).mono (fun _ _ => id) fun _ => id)

/-- Taking the directories on one after the other does not show around the root. -/
theorem recoverEach_comesTo (coordinator : Coordinator)
    (under : ∀ place ∈ places, place.IsUnder root machine.disk) :
    ComesTo (coordinator.recoverEach places) machine
      (fun found after => Disk.SameAround root machine.disk after.disk ∧
        AreUnder root machine.disk found.1)
      fun after => Disk.SameAround root machine.disk after.disk := by
  induction places generalizing coordinator machine with
  | nil =>
      refine .pure ⟨.refl root machine.disk, fun report inside => ?_⟩
      cases inside
  | cons place rest ih =>
      have here := under place List.mem_cons_self
      refine .bind ((recoverRun_comesTo coordinator here).mono ?_ fun _ => id)
      rintro ⟨report, kept⟩ between ⟨same, isAt⟩
      have later := ih kept fun other inside =>
        (under other (List.mem_cons_of_mem _ inside)).of_sameAround same
      refine .bind (later.mono ?_ fun _ => same.trans)
      rintro ⟨reports, kept⟩ after ⟨same', others⟩
      refine .pure ⟨same.trans same', fun other inside run runs => ?_⟩
      rcases List.mem_cons.1 inside with rfl | inside
      · exact ⟨place, isAt run runs, here⟩
      · exact others.of_sameAround same.symm other inside run runs

/-- A recovery does not show around the root. -/
theorem recoverAll_comesTo (coordinator : Coordinator)
    (tree : machine.disk.IsTreeUnder coordinator.root.path) :
    ComesTo coordinator.recoverAll machine
      (fun found after => Disk.SameAround coordinator.root.path machine.disk after.disk ∧
        AreUnder coordinator.root.path machine.disk found.1)
      fun after => Disk.SameAround coordinator.root.path machine.disk after.disk := by
  refine .get ?_
  cases listed : listRuns machine.disk coordinator.root with
  | error fault => exact .refl _ machine.disk
  | ok places => exact recoverEach_comesTo coordinator (isUnder_of_listed tree listed)

end Coordinator

namespace Cli

variable {root : Place} {machine : Machine} {lines : List String}

theorem onMachine_comesTo {α : Type} {step : MachineM α} {done : α → Machine × List String → Prop}
    {failed : Machine × List String → Prop}
    (comes : ComesTo step machine (fun value after => done value (after, lines))
      fun after => failed (after, lines)) :
    ComesTo (onMachine step) (machine, lines) done failed := by
  rw [ComesTo] at comes ⊢
  rw [onMachine]
  cases result : step machine with
  | ok value after =>
      rw [result] at comes
      exact comes
  | error error after =>
      rw [result] at comes
      exact comes

/-! ## The recovery command -/

/-- Shutting the recovered runs down does not show around the root. -/
theorem printReports_comesTo {root : Path} {reports : List RecoveryReport}
    (under : Coordinator.AreUnder root machine.disk reports) :
    ComesTo (printReports reports) (machine, lines)
      (fun _ after => Disk.SameAround root machine.disk after.1.disk)
      fun after => Disk.SameAround root machine.disk after.1.disk := by
  induction reports generalizing machine lines with
  | nil => exact .pure (.refl root machine.disk)
  | cons report rest ih =>
      have others : Coordinator.AreUnder root machine.disk rest :=
        fun other inside => under other (List.mem_cons_of_mem _ inside)
      rw [printReports]
      refine .bind ?_
      rw [ComesTo, print_eq]
      cases taken : report.run with
      | none => exact ih others
      | some run =>
          obtain ⟨place, isAt, here⟩ := under report List.mem_cons_self run taken
          refine .bind (onMachine_comesTo ((shutdown_local.comesTo isAt here).mono ?_
            fun _ => id))
          rintro _ after ⟨same, -⟩
          exact (ih (others.of_sameAround same)).mono (fun _ _ => same.trans) fun _ => same.trans

/-- **A recovery leaves the marker**, unless it fails. -/
theorem recover_brings (config : Config) (dirty : Bool)
    (tree : machine.disk.IsTreeUnder root.path) :
    ComesTo (recover config root dirty) (machine, lines)
      (fun _ after => Host.Brings root.path (some (.file [])) machine.disk after.1.disk ∧
        after.1.disk.IsReached root.path)
      fun after => Host.BringsNone root.path machine.disk after.1.disk := by
  -- Whatever was learned, the runs are recovered and shut down, and then the marker is left.
  have goesOn (termination : Termination) {between : Machine}
      (came : Host.BringsNone root.path machine.disk between.disk) :
      ComesTo (do
          let found ← onMachine (Coordinator.mk root termination Demo.resumer config []).recoverAll
          printReports found.1
          onMachine (Host.leaveMarker root)
          print ("Recovered " ++ toString found.1.length ++ " run(s)."))
        (between, lines)
        (fun _ after => Host.Brings root.path (some (.file [])) machine.disk after.1.disk ∧
          after.1.disk.IsReached root.path)
        fun after => Host.BringsNone root.path machine.disk after.1.disk := by
    refine .bind (onMachine_comesTo ((Coordinator.recoverAll_comesTo _
      (came.isTreeUnder tree)).mono ?_ fun _ => came.sameAround))
    rintro ⟨reports, _⟩ recovered ⟨same, under⟩
    refine .bind ((printReports_comesTo (under.of_sameAround same)).mono ?_
      fun _ same' => came.sameAround (same.trans same'))
    rintro _ ⟨shut, printed⟩ same'
    have cameThen := came.sameAround (same.trans same')
    refine .bind (onMachine_comesTo ((Host.leaveMarker_comesTo root shut).mono ?_ ?_))
    · exact fun _ _ left => ⟨cameThen.brings left.1, left.2⟩
    · exact fun _ still => cameThen.trans (.of_eq still)
  cases dirty with
  | true => exact goesOn .dirty (.refl root.path machine.disk)
  | false =>
      refine .bind (onMachine_comesTo ((Host.learnTermination_comesTo root machine).mono ?_ ?_))
      · exact fun termination between learned => goesOn termination (.inr learned.1)
      · exact fun after still => .of_eq still

/-! ## Where the program stops -/

end Cli

namespace Call

variable {call : Call} {live after : LiveRun} {reply : Reply}

/-- A call pauses no run. -/
theorem holdsAppends_perform {outcome : Except Error Reply}
    (free : live.run.phase.holdsAppends = false)
    (done : attempt call.command.perform live = .ok outcome after) :
    after.run.phase.holdsAppends = false := by
  have shown := (perform_view free call).of_attempt done
  have still := Sight.holdsAppends_view (show live.run.sight.phase.holdsAppends = false from free)
    live.machine.now call
  rwa [shown] at still

/-- A call that is answered and does not fail gives a node. -/
theorem reply_eq_node (free : live.run.phase.holdsAppends = false)
    (done : attempt call.command.perform live = .ok (.ok reply) after)
    (told : call.answer (.ok reply) = some (.ok reply)) : ∃ node, reply = .node node := by
  have shown := congrArg View.answer ((perform_view free call).of_attempt done)
  rw [told] at shown
  have given {made : Except Error Node × Sight}
      (same : (View.ofNode made).answer = some (.ok reply)) : ∃ node, reply = .node node := by
    obtain ⟨node | node, sight⟩ := made
    · cases same
    · cases same
      exact ⟨node, rfl⟩
  cases call with
  | checkpoint => cases told
  | _ => exact given shown

end Call

namespace Cli

namespace Demo

variable {steps left : Nat} {stop : Option Nat} {live after : LiveRun} {ended : Bool}

/-- A request that is followed by a result did not fail. -/
theorem comes_of_request {command : Command} {next : Reply → Fallible Bool}
    (comes : (request command next).Comes live (.ok ended) after) :
    ∃ reply between, attempt command.perform live = .ok (.ok reply) between ∧
      (next reply).Comes between (.ok ended) after := by
  obtain ⟨replies, runs⟩ := comes
  obtain ⟨outcome, between, asked, follows⟩ := bind_eq_ok.1 runs
  obtain ⟨⟨value, later⟩, _, goesOn, gives⟩ := bind_eq_ok.1 follows
  cases gives
  cases outcome with
  | error error => cases goesOn
  | ok reply => exact ⟨reply, between, asked, later, goesOn⟩

/-- Nor did it have to wait, while the run is not paused. -/
theorem comes_of_requestNode {call : Call} {next : Node → Fallible Bool}
    (free : live.run.phase.holdsAppends = false)
    (told : ∀ outcome, call.answer outcome = some outcome)
    (comes : (requestNode call.command next).Comes live (.ok ended) after) :
    ∃ node between, between.run.phase.holdsAppends = false ∧
      (next node).Comes between (.ok ended) after := by
  obtain ⟨reply, between, done, follows⟩ := comes_of_request comes
  obtain ⟨node, rfl⟩ := Call.reply_eq_node free done (told _)
  exact ⟨node, between, Call.holdsAppends_perform free done, follows⟩

/-- One step is followed by what comes next. -/
theorem comes_of_oneStep {step : Nat} {next : Fallible Bool}
    (free : live.run.phase.holdsAppends = false)
    (comes : (oneStep step steps next).Comes live (.ok ended) after) :
    ∃ between, between.run.phase.holdsAppends = false ∧
      next.Comes between (.ok ended) after := by
  obtain ⟨start, first, free, comes⟩ :=
    comes_of_requestNode free (fun _ => rfl)
      (show (requestNode (Call.append _).command _).Comes live _ after from comes)
  obtain ⟨_, second, free, comes⟩ :=
    comes_of_requestNode free (fun _ => rfl)
      (show (requestNode (Call.attach _ _).command _).Comes first _ after from comes)
  obtain ⟨_, third, free, comes⟩ :=
    comes_of_requestNode free (fun _ => rfl)
      (show (requestNode (Call.append _).command _).Comes second _ after from comes)
  obtain ⟨_, last, done, comes⟩ := comes_of_request comes
  exact ⟨last, Call.holdsAppends_perform
    free (show attempt (Call.checkpoint _).command.perform third = _ from done), comes⟩

/-- The program tells whether it came to one of its last steps that it was to stop at. -/
theorem ended_of_stepsLeft (within : left ≤ steps) (free : live.run.phase.holdsAppends = false)
    (comes : (stepsLeft steps stop left).Comes live (.ok ended) after) :
    ended = true ↔ ∀ step ∈ stop, steps - left ≤ step → steps ≤ step := by
  induction left generalizing live with
  | zero =>
      obtain ⟨_, _, _, comes⟩ := comes_of_requestNode free (fun _ => rfl)
        (show (requestNode (Call.finish .ok).command _).Comes live _ after from comes)
      obtain ⟨_, runs⟩ := comes
      cases runs
      simp
  | succ left ih =>
      rw [stepsLeft] at comes
      split at comes
      next here =>
        obtain ⟨_, runs⟩ := comes
        cases runs
        simp only [here, Option.mem_def, Option.some.injEq, forall_eq', Bool.false_eq_true,
          false_iff]
        omega
      next other =>
        obtain ⟨between, free, comes⟩ := comes_of_oneStep free comes
        rw [ih (by omega) free comes]
        refine forall₂_congr fun step stops => ?_
        have differs : step ≠ steps - (left + 1) := fun same => other (same ▸ stops)
        omega

/-- The program tells whether it came to its end, and it does unless it is to stop before. -/
theorem ended_of_program (free : live.run.phase.holdsAppends = false)
    (comes : (program steps stop).Comes live (.ok ended) after) :
    ended = true ↔ ∀ step ∈ stop, steps ≤ step := by
  obtain ⟨_, between, done, comes⟩ := comes_of_request comes
  have freeThen := Call.holdsAppends_perform free
    (show attempt (Call.checkpoint _).command.perform live = _ from done)
  rw [ended_of_stepsLeft (Nat.sub_le ..) freeThen comes]
  simp

end Demo

end Cli

/-! ## The demonstration command -/

/-- A start makes a directory right under the root, and its run is in there. -/
theorem Run.start_comesTo {root : Place} {name : String} (step : Place.IsStep name)
    (other : name ≠ ".clean-shutdown") (runId : String) (asked : Option Hint) (config : Config)
    (machine : Machine) :
    ComesTo (start (root.join name) runId asked config) machine
      (fun run after => Host.BringsNone root.path machine.disk after.disk ∧
        run.IsAt (root.join name) ∧ (root.join name).IsUnder root.path after.disk ∧
        run.sight = .first)
      fun after => Host.BringsNone root.path machine.disk after.disk := by
  have path := root.path_join step
  rw [ComesTo]
  cases found : RunFiles.isRun machine.disk (root.join name) with
  | true =>
      have refused : start (root.join name) runId asked config machine =
          .error (.config (.alreadyHoldsRun (root.join name).shown)) machine := by
        rw [start, Machine.get_bind, found, if_pos rfl]
        rfl
      rw [refused]
      exact .refl root.path machine.disk
  | false =>
      rcases machine.commit_cases (.makeDirectories (root.join name).path) .disk with
        ⟨made, directories, done⟩ | ⟨fault, refused⟩
      · have starts := start_eq (root.join name) runId asked config found done
        change machine.disk.makeDirectories (root.join name).path = .ok made at directories
        rw [path] at directories
        obtain ⟨brings, reached⟩ := Host.Brings.of_makeDirectories step other directories
        have under : (root.join name).IsUnder root.path made := by
          constructor
          case length_eq => rw [path, List.length_append]; rfl
          case reached => rwa [path]
        have isAt : LiveRun.IsAt (root.join name)
            { run := begun (machine.changed (.makeDirectories (root.join name).path) made)
                (root.join name) runId (config.hintFor asked)
              machine := machine.changed (.makeDirectories (root.join name).path) made } :=
          ⟨⟨rfl, NodeStore.isAt_ofRun ..⟩, under.reached⟩
        obtain ⟨outcome, after, _, begins, -, leaves⟩ :=
          beginning_local (root.join name) _ _ isAt ⟨rfl, .refl _ _⟩
        have same := leaves.changes.sameAround under.length_eq
        have came : Host.BringsNone root.path machine.disk after.machine.disk :=
          Host.BringsNone.sameAround (.inl brings) same
        cases outcome with
        | ok =>
            rw [Yields.attempt_eq_ok.1 begins] at starts
            rw [starts]
            exact ⟨came, leaves.isAt.run, under.of_sameAround same, start_sight starts⟩
        | error error =>
            rw [Yields.attempt_eq_error.1 begins] at starts
            rw [starts]
            exact came
      · rw [start_eq_error found refused]
        exact .refl root.path machine.disk

namespace Cli

variable {root : Place} {machine : Machine} {lines : List String}

/-- A demonstration is to stop before its end. -/
def isStopped (steps : Nat) (stop : Option Nat) : Bool := stop.any fun step => decide (step < steps)

theorem isStopped_eq_false_iff {steps : Nat} {stop : Option Nat} :
    isStopped steps stop = false ↔ ∀ step ∈ stop, steps ≤ step := by
  cases stop <;> simp [isStopped]

/-- **A demonstration leaves the marker**, unless it was stopped or fails. -/
theorem demo_brings (config : Config) {newName : String} (step : Place.IsStep newName)
    (other : newName ≠ ".clean-shutdown") (hint : Option Hint) (steps : Nat) (stop : Option Nat) :
    ComesTo (demo config newName root hint steps stop) (machine, lines)
      (fun _ after =>
        Host.Brings root.path (if isStopped steps stop then none else some (.file [])) machine.disk
          after.1.disk ∧ after.1.disk.IsReached root.path)
      fun after => Host.BringsNone root.path machine.disk after.1.disk := by
  refine .bind (onMachine_comesTo ((Host.learnTermination_comesTo root machine).mono ?_ ?_))
  · rintro _ learned ⟨gone, -⟩
    refine .bind (onMachine_comesTo
      ((start_comesTo step other newName hint config learned).mono ?_ ?_))
    · rintro run begun ⟨came, isAt, under, sight⟩
      have unmarked := gone.then_none came
      refine .bind (onMachine_comesTo
        (((Program.run_local _).comesTo isAt under).with_result.mono ?_ ?_))
      · rintro ⟨⟨outcome, replies⟩, left⟩ after ⟨gives, same, -⟩
        have free : run.phase.holdsAppends = false :=
          congrArg (fun sight : Sight => sight.phase.holdsAppends) sight
        have comes : (Demo.program steps stop).Comes { run, machine := begun } outcome
            { run := left, machine := after } := ⟨replies, runOn_eq_ok.1 gives⟩
        have still := unmarked.then_none (.inl (.of_sameAround same))
        have reached : after.disk.IsReached root.path := by
          refine same.isReached (Nat.le_succ _) fun above up => under.reached above ?_
          rw [root.path_join step]
          exact up.trans (List.prefix_append ..)
        cases outcome with
        | error error => exact .inr still
        | ok ended =>
            have tells := Demo.ended_of_program free comes
            cases ended with
            | false =>
                have stopped : isStopped steps stop = true := by
                  rw [← Bool.not_eq_false, isStopped_eq_false_iff, ← tells]
                  exact Bool.false_ne_true
                rw [stopped]
                exact ⟨still, reached⟩
            | true =>
                have goesOn := isStopped_eq_false_iff.2 (tells.1 rfl)
                rw [goesOn]
                refine .bind ?_
                rw [ComesTo, print_eq]
                refine onMachine_comesTo ((Host.leaveMarker_comesTo root after).mono ?_ ?_)
                · exact fun _ _ left => ⟨still.trans left.1, left.2⟩
                · exact fun _ same => .inr (still.then_none (.of_eq same))
      · exact fun after same => .inr (unmarked.then_none (.inl (.of_sameAround same)))
    · exact fun after came => .inr (gone.then_none came)
  · exact fun after still => .of_eq still

end Cli

end DurableRuns
