/-
# DurableRuns.Proofs.Cli.Marker -- what the marker of a shutdown in good order tells

One marker stands for all runs under a root directory.  A `Launch` is a process of the program, and
`carryOutAll` is what launches come to, one after the other, each of which finds the disk as the one
before it left it.  What counts of each is how it ended (`Ending`).

A stop takes the marker away, and so it cannot be there while the stop is the last thing that
happened.  But a demonstration that comes to its end leaves the marker for its own run, whatever
other runs were stopped before.  Main statement: `marker_overlooks_iff`.  The marker overlooks a run
that was stopped since the last recovery if and only if a demonstration came to its end after the
stop.

Each launch keeps what the marker tells of the launches before it (`Tells.concat`), and so does
every row of launches (`Tells.carryOutAll`).
-/
import DurableRuns.Proofs.Cli.Around
import DurableRuns.Proofs.Cli.Interrupted

namespace DurableRuns.Cli

set_option autoImplicit false

/-! ## Launches -/

/-- How a launch ended that ran the demonstration or recovered runs. -/
inductive Ending where
  /-- The demonstration came to its end. -/
  | completed
  /-- The demonstration was stopped before its end, as it was told to. -/
  | stopped
  | recovered
  /-- There was an error. -/
  | failed
deriving DecidableEq, Repr

/-- The root directory that a request is about, as it was typed. -/
def Request.root? : Request → Option String
  | .inspect _ => none
  | .demo root .. => some root
  | .recover root _ => some root

/-- How a request ended, by the code that the process ended with.  To show a run is no matter. -/
def Request.ending? (code : Nat) : Request → Option Ending
  | .inspect _ => none
  | .demo _ _ steps stop =>
      some (if code ≠ 0 then .failed else if isStopped steps stop then .stopped else .completed)
  | .recover _ _ => some (if code ≠ 0 then .failed else .recovered)

/-- A process of the program: how it is called and where it runs, what changes of the disk the
device will refuse to it, and when it runs. -/
structure Launch where
  arguments : List String
  surroundings : Surroundings
  refusals : List Bool := []
  now : Instant

namespace Launch

/-- What a process prints, and the disk that it leaves. -/
def carryOut (launch : Launch) (disk : Disk) : Result × Disk :=
  let (result, machine) := runProgram launch.arguments launch.surroundings
    { disk, refusals := launch.refusals, now := launch.now }
  (result, machine.disk)

/-- How a process ended, if it ran the demonstration or recovered runs. -/
def ending? (launch : Launch) (disk : Disk) : Option Ending :=
  match parse launch.arguments with
  | .run invocation => invocation.request.ending? (launch.carryOut disk).1.code
  | _ => none

/-- If a process runs the demonstration or recovers runs, it does so under a root directory.  The
name of its new run is a plain one, and not that of the marker. -/
structure IsOver (root : Path) (launch : Launch) : Prop where
  here : ∀ invocation, parse launch.arguments = .run invocation →
    ∀ text, invocation.request.root? = some text →
      (Place.ofText launch.surroundings.workingDirectory text).path = root
  step : Place.IsStep launch.surroundings.newName
  apart : launch.surroundings.newName ≠ ".clean-shutdown"

end Launch

/-- What processes come to, one after the other: how they ended, and the disk that is left. -/
def carryOutAll : List Launch → Disk → List Ending × Disk
  | [], disk => ([], disk)
  | launch :: rest, disk =>
      let (endings, left) := carryOutAll rest (launch.carryOut disk).2
      ((launch.ending? disk).toList ++ endings, left)

/-! ## What one launch does -/

/-- What an ending tells of the disk that is left around the root. -/
def Ending.Leaves (root : Path) (before after : Disk) : Ending → Prop
  | .completed | .recovered =>
      Host.Brings root (some (.file [])) before after ∧ after.IsReached root
  | .stopped => Host.Brings root none before after ∧ after.IsReached root
  | .failed => Host.BringsNone root before after

/-- What a launch leaves: what its ending tells, or else all as it was. -/
def Leaves (root : Path) (before after : Disk) : Option Ending → Prop
  | none => after = before
  | some ending => ending.Leaves root before after

variable {root : Path} {disk before after left : Disk} {machine : Machine} {lines : List String}

/-- To print changes nothing. -/
theorem forM_print_comesTo (printed : List String) :
    ComesTo (printed.forM print) (machine, lines) (fun _ after => after.1 = machine)
      fun after => after.1 = machine := by
  induction printed generalizing lines with
  | nil => exact .pure rfl
  | cons line rest ih =>
      refine .bind ?_
      rw [ComesTo, print_eq]
      exact ih

/-- To show a run changes nothing. -/
theorem inspect_comesTo (run : Place) :
    ComesTo (inspect run) (machine, lines) (fun _ after => after.1 = machine)
      fun after => after.1 = machine := by
  have opens : ComesTo (Run.openAt run) machine (fun _ after => after = machine)
      fun after => after = machine := by
    refine .bind ?_
    rw [ComesTo]
    rcases openReporting_cases run machine with ⟨opened, loaded, opens, -⟩ | ⟨error, fails⟩
    · rw [opens]
      exact .pure rfl
    · rw [fails]
  refine .bind (onMachine_comesTo (opens.mono (fun opened after same => ?_) fun _ => id))
  exact same ▸ forM_print_comesTo (runLines opened)

/-- A request leaves what its ending tells. -/
theorem perform_comesTo (config : Config) {newName : String} (here : Path) (request : Request)
    (step : Place.IsStep newName) (apart : newName ≠ ".clean-shutdown")
    (rooted : ∀ text, request.root? = some text → (Place.ofText here text).path = root)
    (tree : machine.disk.IsTreeUnder root) :
    ComesTo (perform config newName here request) (machine, lines)
      (fun _ after => Leaves root machine.disk after.1.disk (request.ending? 0))
      fun after => Leaves root machine.disk after.1.disk (request.ending? 1) := by
  cases request with
  | inspect run =>
      exact (inspect_comesTo _).mono (fun _ _ => congrArg Machine.disk)
        fun _ => congrArg Machine.disk
  | demo text hint steps stop =>
      obtain rfl := rooted text rfl
      refine (demo_brings config step apart hint steps stop).mono (fun _ after left => ?_)
        fun _ => id
      rw [Request.ending?, if_neg (not_not_intro rfl)]
      cases stops : isStopped steps stop with
      | true =>
          rw [stops] at left
          exact left
      | false =>
          rw [stops] at left
          exact left
  | recover text dirty =>
      obtain rfl := rooted text rfl
      exact recover_brings config dirty tree

/-- Where nothing was changed, a request may have failed. -/
theorem Leaves.of_failed (request : Request) : Leaves root disk disk (request.ending? 1) := by
  cases request with
  | inspect => rfl
  | _ => exact Host.BringsNone.refl root disk

/-- A process leaves what its ending tells. -/
theorem Launch.IsOver.leaves {launch : Launch} (rooted : launch.IsOver root)
    (tree : disk.IsTreeUnder root) :
    Leaves root disk (launch.carryOut disk).2 (launch.ending? disk) := by
  cases asked : parse launch.arguments with
  | misused =>
      simp only [Launch.carryOut, Launch.ending?, runProgram, asked]
      rfl
  | help =>
      simp only [Launch.carryOut, Launch.ending?, runProgram, asked]
      rfl
  | run invocation =>
      simp only [Launch.carryOut, Launch.ending?, runProgram, asked]
      split
      next error unset => exact .of_failed invocation.request
      next config set =>
        have comes : ComesTo _
            (({ disk, refusals := launch.refusals, now := launch.now } : Machine), []) _ _ :=
          perform_comesTo config launch.surroundings.workingDirectory invocation.request rooted.step
            rooted.apart (rooted.here invocation asked) tree
        rw [ComesTo] at comes
        split at comes
        next gives =>
          rw [gives]
          exact comes
        next fails =>
          rw [fails]
          exact comes

/-! ## What came last -/

/-- Something happened, after what meets a condition, and since then there was only what is
allowed. -/
def Since (happened : Ending) (past : List Ending → Prop) (allowed : Ending → Prop)
    (endings : List Ending) : Prop :=
  ∃ earlier later, endings = earlier ++ happened :: later ∧ past earlier ∧
    ∀ ending ∈ later, allowed ending

/-- A run was stopped since the last recovery. -/
def StoppedSince : List Ending → Prop := Since .stopped (fun _ => True) (· ≠ .recovered)

/-- A run was stopped since the last recovery, and after the last stop a demonstration came to its
end. -/
def Overlooked : List Ending → Prop :=
  Since .completed StoppedSince fun ending => ending ≠ .recovered ∧ ending ≠ .stopped

theorem since_concat {happened ending : Ending} {past : List Ending → Prop}
    {allowed : Ending → Prop} {endings : List Ending} :
    Since happened past allowed (endings ++ [ending]) ↔
      ending = happened ∧ past endings ∨ Since happened past allowed endings ∧ allowed ending := by
  constructor
  · rintro ⟨earlier, later, whole, met, all⟩
    rcases List.eq_nil_or_concat later with rfl | ⟨front, last, rfl⟩
    · obtain ⟨rfl, same⟩ := List.append_inj' whole rfl
      exact .inl ⟨List.singleton_inj.1 same, met⟩
    · rw [List.concat_eq_append] at whole all
      rw [← List.cons_append, ← List.append_assoc] at whole
      obtain ⟨rfl, same⟩ := List.append_inj' whole rfl
      obtain rfl := List.singleton_inj.1 same
      exact .inr ⟨⟨earlier, front, rfl, met, fun other inside =>
        all other (List.mem_append_left _ inside)⟩, all _ (by simp)⟩
  · rintro (⟨rfl, met⟩ | ⟨⟨earlier, later, rfl, met, all⟩, last⟩)
    · exact ⟨endings, [], rfl, met, List.forall_mem_nil _⟩
    · refine ⟨earlier, later ++ [ending], by simp, met, fun other inside => ?_⟩
      rcases List.mem_append.1 inside with before | now
      · exact all other before
      · exact List.mem_singleton.1 now ▸ last

theorem stoppedSince_concat {endings : List Ending} {ending : Ending} :
    StoppedSince (endings ++ [ending]) ↔
      ending = .stopped ∨ StoppedSince endings ∧ ending ≠ .recovered := by
  rw [StoppedSince, since_concat, and_true]

theorem overlooked_concat {endings : List Ending} {ending : Ending} :
    Overlooked (endings ++ [ending]) ↔
      ending = .completed ∧ StoppedSince endings ∨
        Overlooked endings ∧ ending ≠ .recovered ∧ ending ≠ .stopped :=
  since_concat

/-- A stop that came last is not overlooked. -/
theorem not_overlooked_concat_stopped (endings : List Ending) :
    StoppedSince (endings ++ [.stopped]) ∧ ¬ Overlooked (endings ++ [.stopped]) := by
  rw [stoppedSince_concat, overlooked_concat]
  simp

theorem Overlooked.stoppedSince {endings : List Ending} (overlooked : Overlooked endings) :
    StoppedSince endings := by
  obtain ⟨earlier, later, rfl, ⟨before, between, rfl, -, unrecovered⟩, since⟩ := overlooked
  refine ⟨before, between ++ .completed :: later, by simp, trivial, fun ending inside => ?_⟩
  rcases List.mem_append.1 inside with early | late
  · exact unrecovered ending early
  · rcases List.mem_cons.1 late with rfl | late
    · nofun
    · exact (since ending late).1

/-! ## What the marker tells -/

/-- What the marker tells of the launches so far, by how they ended. -/
structure Tells (root : Path) (endings : List Ending) (disk : Disk) : Prop where
  tree : disk.IsTreeUnder root
  /-- Once a launch did not fail, the root directory stands, and the marker is a file or nothing. -/
  settled : ∀ ending ∈ endings, ending ≠ .failed →
    disk.IsReached root ∧
      (disk.at? (Host.markerPath root) = none ∨ disk.at? (Host.markerPath root) = some (.file []))
  /-- The marker overlooks a stop only where a demonstration came to its end after it. -/
  overlooks : Host.IsMarked root disk → StoppedSince endings → Overlooked endings
  /-- After a launch that did not fail the marker is there, unless a run was stopped. -/
  last : ∀ ending, endings.getLast? = some ending → ending ≠ .failed →
    (Host.IsMarked root disk ↔ ending ≠ .stopped)

namespace Tells

variable {endings : List Ending} {ending : Ending}

theorem nil (tree : disk.IsTreeUnder root) : Tells root [] disk := by
  constructor
  case tree => exact tree
  case settled => exact nofun
  case overlooks =>
    rintro - ⟨_, _, whole, -⟩
    simp at whole
  case last => exact nofun

/-- A launch that did not fail leaves the root directory and its marker, or none. -/
theorem of_unfailed {entry : Option Entry} (tree : disk.IsTreeUnder root)
    (brings : Host.Brings root entry disk after) (reached : after.IsReached root)
    (settled : entry = none ∨ entry = some (.file []))
    (overlooks : entry ≠ none → StoppedSince (endings ++ [ending]) →
      Overlooked (endings ++ [ending]))
    (last : entry ≠ none ↔ ending ≠ .stopped) : Tells root (endings ++ [ending]) after := by
  have marker := brings.marker
  constructor
  case tree => exact brings.tree tree
  case settled => exact fun _ _ _ => ⟨reached, marker ▸ settled⟩
  case overlooks => exact fun marked => overlooks (marker ▸ marked)
  case last =>
    intro other found _
    rw [List.getLast?_concat, Option.some.injEq] at found
    rw [Host.IsMarked, marker, ← found]
    exact last

/-- One more launch is told of as well. -/
theorem concat (tells : Tells root endings before) (leaves : ending.Leaves root before after) :
    Tells root (endings ++ [ending]) after := by
  cases ending with
  | completed =>
      obtain ⟨brings, reached⟩ := leaves
      refine of_unfailed tells.tree brings reached (.inr rfl) (fun _ stopped => ?_) (by simp)
      rw [stoppedSince_concat, or_iff_right (by decide)] at stopped
      exact overlooked_concat.2 (.inl ⟨rfl, stopped.1⟩)
  | stopped =>
      obtain ⟨brings, reached⟩ := leaves
      exact of_unfailed tells.tree brings reached (.inl rfl) (fun marked => absurd rfl marked)
        (by simp)
  | recovered =>
      obtain ⟨brings, reached⟩ := leaves
      refine of_unfailed tells.tree brings reached (.inr rfl) (fun _ stopped => ?_) (by simp)
      rw [stoppedSince_concat, or_iff_right (by decide)] at stopped
      exact absurd rfl stopped.2
  | failed =>
      have unfailed {other : Ending} (inside : other ∈ endings ++ [.failed])
          (succeeded : other ≠ .failed) : other ∈ endings := by
        simpa [succeeded] using inside
      have falls : (before.IsReached root → after.IsReached root) ∧
          (after.at? (Host.markerPath root) = none ∨
            after.at? (Host.markerPath root) = before.at? (Host.markerPath root)) :=
        leaves.elim (fun brings => ⟨brings.reached, .inr brings.marker⟩)
          fun brings => ⟨brings.reached, .inl brings.marker⟩
      obtain ⟨reached, marker⟩ := falls
      constructor
      case tree => exact leaves.isTreeUnder tells.tree
      case settled =>
        intro other inside succeeded
        obtain ⟨stood, settled⟩ := tells.settled other (unfailed inside succeeded) succeeded
        exact ⟨reached stood, marker.elim .inl fun same => same ▸ settled⟩
      case overlooks =>
        intro marked stopped
        rw [stoppedSince_concat, or_iff_right (by decide)] at stopped
        have stood : Host.IsMarked root before := by
          rcases marker with gone | same
          · exact absurd gone marked
          · rwa [Host.IsMarked, ← same]
        exact overlooked_concat.2 (.inr ⟨tells.overlooks stood stopped.1, by decide, by decide⟩)
      case last =>
        intro other found succeeded
        rw [List.getLast?_concat, Option.some.injEq] at found
        exact absurd found.symm succeeded

/-- So is every row of launches. -/
theorem carryOutAll {launches : List Launch} (tells : Tells root endings disk)
    (rooted : ∀ launch ∈ launches, launch.IsOver root) :
    Tells root (endings ++ (Cli.carryOutAll launches disk).1)
      (Cli.carryOutAll launches disk).2 := by
  induction launches generalizing endings disk with
  | nil => simpa [Cli.carryOutAll] using tells
  | cons launch rest ih =>
      have leaves := (rooted launch List.mem_cons_self).leaves tells.tree
      have others := fun other inside => rooted other (List.mem_cons_of_mem launch inside)
      rw [Cli.carryOutAll]
      cases ended : launch.ending? disk with
      | none =>
          rw [ended] at leaves
          have still : (launch.carryOut disk).2 = disk := leaves
          exact ih (still.symm ▸ tells) others
      | some ending =>
          rw [ended] at leaves
          have later := ih (tells.concat leaves) others
          rw [List.append_assoc] at later
          exact later

end Tells

/-- With the marker the process before ended in good order. -/
theorem learnTermination_eq_clean {place : Place} {content : Bytes}
    (stands : machine.disk.at? (Host.markerPath place.path) = some (.file content))
    (willing : ∀ refusal ∈ machine.refusals, refusal = false) :
    ∃ after, Host.learnTermination place machine = .ok .clean after := by
  obtain ⟨removed, removes⟩ := Disk.remove_succeeds stands
  have taken : (Change.remove (Host.markerPath place.path)).apply machine.disk = .ok removed :=
    removes
  refine ⟨machine.changed (.remove (Host.markerPath place.path)) removed, ?_⟩
  rw [Host.learnTermination, Machine.get_bind]
  simp only [Host.path_markerFile_eq]
  rw [if_neg (by simp [stands])]
  exact bind_eq_ok.2 ⟨(), _, Machine.commit_eq_ok willing taken .disk, rfl⟩

/-- How the process before ended is learned, and the marker tells it. -/
theorem learnTermination_tells {place : Place} (here : place.path = root)
    (reached : machine.disk.IsReached root)
    (settled : machine.disk.at? (Host.markerPath root) = none ∨
      machine.disk.at? (Host.markerPath root) = some (.file []))
    (willing : ∀ refusal ∈ machine.refusals, refusal = false) :
    ∃ termination after, Host.learnTermination place machine = .ok termination after ∧
      (termination = .clean ↔ Host.IsMarked root machine.disk) := by
  subst here
  rcases settled with absent | stands
  · exact ⟨.dirty, _, Host.learnTermination_eq_dirty reached.isFree absent,
      by simp [Host.IsMarked, absent]⟩
  · obtain ⟨after, gives⟩ := learnTermination_eq_clean stands willing
    exact ⟨.clean, after, gives, by simp [Host.IsMarked, stands]⟩

/-- **The marker overlooks a stop if a demonstration came to its end after it, and only then.**
Under a root directory the program is launched any number of times, to run the demonstration as a
new run, which may be stopped, or to recover the runs; the device may refuse any changes.  If the
marker is there and a run was stopped since the last recovery, then a demonstration came to its end
after the stop; and if the last launch did not fail, the marker is there whenever one did.

The next process that recovers the runs learns that they were shut down in good order if and only if
the marker is there. -/
theorem marker_overlooks_iff {launches : List Launch} {endings : List Ending} (tree : disk.IsTree)
    (rooted : ∀ launch ∈ launches, launch.IsOver root)
    (comes : carryOutAll launches disk = (endings, left)) :
    (Host.IsMarked root left ∧ StoppedSince endings → Overlooked endings) ∧
    (endings.getLast? ≠ some .failed →
      (Host.IsMarked root left ∧ StoppedSince endings ↔ Overlooked endings)) ∧
    ((∃ ending ∈ endings, ending ≠ .failed) → ∀ (place : Place) (later : Machine),
      place.path = root → later.disk = left → (∀ refusal ∈ later.refusals, refusal = false) →
      ∃ termination after, Host.learnTermination place later = .ok termination after ∧
        (termination = .clean ↔ Host.IsMarked root left)) := by
  have tells : Tells root endings left := by
    have whole := (Tells.nil (tree.isTreeUnder root)).carryOutAll rooted
    rwa [comes] at whole
  have overlooks : Host.IsMarked root left ∧ StoppedSince endings → Overlooked endings :=
    fun stood => tells.overlooks stood.1 stood.2
  refine ⟨overlooks,
    fun unfailed => ⟨overlooks, fun overlooked => ⟨?_, overlooked.stoppedSince⟩⟩, ?_⟩
  · rcases List.eq_nil_or_concat endings with rfl | ⟨front, last, rfl⟩
    · obtain ⟨_, _, whole, -⟩ := overlooked
      simp at whole
    · rw [List.concat_eq_append] at tells overlooked unfailed
      rw [List.getLast?_concat] at unfailed
      refine (tells.last last List.getLast?_concat fun failed => unfailed (failed ▸ rfl)).2 ?_
      rcases overlooked_concat.1 overlooked with ⟨rfl, -⟩ | ⟨-, -, unstopped⟩
      · nofun
      · exact unstopped
  · rintro ⟨ending, inside, succeeded⟩ place later here rfl willing
    obtain ⟨reached, settled⟩ := tells.settled ending inside succeeded
    exact learnTermination_tells here reached settled willing

/-- A process that runs the demonstration under a directory named `runs`. -/
def sampleLaunch (steps : Nat) (stop : Option Nat) (byte : UInt8) : Launch where
  arguments := demoWords "runs" none steps stop
  surroundings := { Surroundings.sample with newName := Cli.newName (List.replicate 16 byte) }
  now := .sample

theorem isOver_sampleLaunch {steps : Nat} {stop : Option Nat} (word : steps < UInt64.size)
    (stopWord : ∀ step ∈ stop, step < UInt64.size) (byte : UInt8) :
    (sampleLaunch steps stop byte).IsOver ["home", "runs"] where
  here := by
    intro invocation asked text typed
    cases (parse_demoWords none isFresh_sample.operand word stopWord).symm.trans asked
    cases typed
    exact Surroundings.path_sample
  step := isStep_newName (List.replicate 16 byte)
  apart := newName_ne (by decide) (List.replicate 16 byte)

/-- A run is stopped, another one comes to its end, and a third one is stopped: there is no
marker. -/
theorem last_stop_seen : ∃ left,
    carryOutAll
      [sampleLaunch 1 (some 0) 0, sampleLaunch 0 none 1, sampleLaunch 2 (some 1) 2] .empty =
        ([.stopped, .completed, .stopped], left) ∧
    ¬ Host.IsMarked ["home", "runs"] left ∧
    ∃ after, Host.learnTermination ⟨"runs", ["home", "runs"]⟩ { disk := left, now := .sample } =
      .ok .dirty after := by
  let launches := [sampleLaunch 1 (some 0) 0, sampleLaunch 0 none 1, sampleLaunch 2 (some 1) 2]
  let left := (carryOutAll launches .empty).2
  have endings : (carryOutAll launches .empty).1 = [.stopped, .completed, .stopped] := by
    decide +kernel
  have comes : carryOutAll launches .empty = ([.stopped, .completed, .stopped], left) :=
    Prod.ext endings rfl
  have rooted : ∀ launch ∈ launches, launch.IsOver ["home", "runs"] := by
    simp only [launches, List.mem_cons, List.not_mem_nil, or_false]
    rintro _ (rfl | rfl | rfl)
    all_goals exact isOver_sampleLaunch (by decide) (by decide) _
  obtain ⟨-, exact, learns⟩ := marker_overlooks_iff .empty rooted comes
  obtain ⟨stopped, seen⟩ := not_overlooked_concat_stopped [.stopped, .completed]
  have unmarked : ¬ Host.IsMarked ["home", "runs"] left :=
    fun marked => seen ((exact (by decide)).1 ⟨marked, stopped⟩)
  obtain ⟨termination, after, gives, tells⟩ := learns ⟨.stopped, by simp, by decide⟩
    ⟨"runs", ["home", "runs"]⟩ { disk := left, now := .sample } rfl rfl
    (List.forall_mem_nil _)
  refine ⟨left, comes, unmarked, after, ?_⟩
  cases termination with
  | dirty => exact gives
  | clean => exact absurd (tells.1 rfl) unmarked

/-- A stop is overlooked: a run is stopped, and another one comes to its end.  The marker is there,
and the next process learns that the runs were shut down in good order. -/
theorem stop_overlooked : ∃ left,
    carryOutAll [sampleLaunch 1 (some 0) 0, sampleLaunch 0 none 1] .empty =
      ([.stopped, .completed], left) ∧
    Host.IsMarked ["home", "runs"] left ∧ StoppedSince [.stopped, .completed] ∧
    ∃ after, Host.learnTermination ⟨"runs", ["home", "runs"]⟩ { disk := left, now := .sample } =
      .ok .clean after := by
  let launches := [sampleLaunch 1 (some 0) 0, sampleLaunch 0 none 1]
  let left := (carryOutAll launches .empty).2
  have endings : (carryOutAll launches .empty).1 = [.stopped, .completed] := by decide +kernel
  have stands : left.at? (Host.markerPath ["home", "runs"]) = some (.file []) := by decide +kernel
  have marked : Host.IsMarked ["home", "runs"] left := by simp [Host.IsMarked, stands]
  have stopped : StoppedSince [.stopped, .completed] := ⟨[], [.completed], rfl, trivial, by decide⟩
  exact ⟨left, Prod.ext endings rfl, marked, stopped,
    learnTermination_eq_clean stands (List.forall_mem_nil _)⟩

end DurableRuns.Cli
