/-
# DurableRuns.Proofs.Cli.Interrupted -- an interrupted demonstration ends like any other

Main statement: `interrupted_ends_alike`.  One process runs the demonstration under an empty root
directory and stops before some step, and another one recovers what is under this directory.  The
second resumes the run and ends it, and leaves the nodes that a process leaves which does not stop.

Both ends are compared with the history that the program makes (`Demo.IsWhole`), which knows of no
process.  What is asked of the name of the run holds of every name that a new run gets
(`isStep_newName`, `newName_ne`).
-/
import DurableRuns.Cli.NewName
import DurableRuns.Proofs.Cli.Arguments
import DurableRuns.Proofs.Cli.Resumed

namespace DurableRuns.Cli

set_option autoImplicit false

/-! ## Names of new runs -/

/-- Hexadecimal digits are letters and digits. -/
theorem isAlphanum_of_mem_hexText {bytes : Bytes} {c : Char}
    (inside : c ∈ (hexText bytes).toList) : c.isAlphanum = true := by
  have all : ∀ digit < 16, (Char.ofNat (Json.hexDigit digit).toNat).isAlphanum = true := by decide
  rw [hexText, String.toList_ofList] at inside
  obtain ⟨byte, -, inside⟩ := List.mem_flatMap.1 inside
  obtain ⟨digit, found, rfl⟩ := List.mem_map.1 inside
  have byte_lt := byte.toNat_lt
  have small : digit < 16 := by
    simp only [List.mem_cons, List.not_mem_nil, or_false] at found
    omega
  exact all digit small

/-- A new name is made of letters, digits and dashes, and has a dash. -/
theorem mem_newName {random : Bytes} {c : Char} (inside : c ∈ (newName random).toList) :
    c = '-' ∨ c.isAlphanum = true := by
  simp only [newName, groupsOf, List.map_cons, List.map_nil, String.intercalate_cons_cons,
    String.intercalate_singleton, String.toList_append, List.mem_append] at inside
  have dash : c ∈ "-".toList → c = '-' := by simp
  grind [isAlphanum_of_mem_hexText]

theorem dash_mem_newName (random : Bytes) : '-' ∈ (newName random).toList := by
  simp [newName, groupsOf, String.intercalate_cons_cons]

/-- So no name with a full stop or a slash is a new one. -/
theorem newName_ne {name : String} (stop : '.' ∈ name.toList) (random : Bytes) :
    newName random ≠ name := by
  intro same
  rcases mem_newName (same ▸ stop) with dash | alphanum
  · exact absurd dash (by decide)
  · exact absurd alphanum (by decide)

/-- A new name is a plain one. -/
theorem isStep_newName (random : Bytes) : Place.IsStep (newName random) where
  noSlash := by
    intro inside
    rcases mem_newName inside with dash | alphanum
    · exact absurd dash (by decide)
    · exact absurd alphanum (by decide)
  ne_empty := by
    intro same
    have dash := dash_mem_newName random
    rw [same] at dash
    exact absurd dash (by decide)
  ne_here := newName_ne (by decide) random
  ne_up := newName_ne (by decide) random

/-! ## Processes -/

/-- Where a process makes its run under a typed root directory. -/
def Surroundings.runPlace (surroundings : Surroundings) (root : String) : Place :=
  (Place.ofText surroundings.workingDirectory root).join surroundings.newName

/-- A process finds no files under the typed root directory, and no write will be refused to it.
Its settings can be read, and its runs have every step on disk before they go on. -/
structure IsFresh (root : String) (asked : Option Hint) (surroundings : Surroundings)
    (machine : Machine) : Prop where
  operand : IsOperand root
  settings : ∃ config, Config.default.withEnvironment surroundings.lookup = .ok config ∧
    (config.hintFor asked).writesEveryStep = true
  here : ∀ name ∈ surroundings.workingDirectory, Place.IsStep name
  tree : machine.disk.IsTree
  vacant : (Place.ofText surroundings.workingDirectory root).IsVacant machine.disk
  free : machine.disk.IsFree (Place.ofText surroundings.workingDirectory root).path
  willing : ∀ refusal ∈ machine.refusals, refusal = false
  step : Place.IsStep surroundings.newName
  apart : surroundings.newName ≠ ".clean-shutdown"

/-- A process comes after another one: it finds the disk as that one has left it, no write will be
refused to it, and what is typed for the root directory leads to the same place. -/
structure Succeeds (root : String) (surroundings : Surroundings) (machine : Machine)
    (after : Surroundings) (later : Machine) : Prop where
  disk : later.disk = machine.disk
  willing : ∀ refusal ∈ later.refusals, refusal = false
  here : Place.ofText after.workingDirectory root =
    Place.ofText surroundings.workingDirectory root
  settings : ∃ config, Config.default.withEnvironment after.lookup = .ok config

/-- Both directories are those of a run that ended well, without a continuation, and they differ in
nothing but the run's name, its hint and its times. -/
structure EndsAlike (image whole : Image) : Prop where
  record : ∃ record other, image.record = some record ∧ whole.record = some other ∧
    record.status = .complete ∧ record.result = .success ∧ record.clean = .clean ∧
    other.status = .complete ∧ other.result = .success ∧ other.clean = .clean ∧
    record.heads = other.heads
  checkpoint : image.checkpoint = none ∧ whole.checkpoint = none
  nodes : ∀ now, image.nodes.retime (fun _ => now) = whole.nodes.retime fun _ => now

variable {root : String} {asked : Option Hint} {here there : Surroundings}
  {machine other : Machine} {steps stop : Nat} {now : Instant}

/-- Two runs that have the whole history end alike. -/
theorem Demo.IsWhole.endsAlike {runId otherId : String} {image whole : Image}
    (left : IsWhole now runId steps image) (right : IsWhole now otherId steps whole) :
    EndsAlike image whole := by
  obtain ⟨record, recorded, -, status, result, clean, heads⟩ := left.record
  obtain ⟨other, otherRecorded, -, otherStatus, otherResult, otherClean, otherHeads⟩ := right.record
  constructor
  case record =>
    exact ⟨record, other, recorded, otherRecorded, status, result, clean, otherStatus, otherResult,
      otherClean, heads.trans otherHeads.symm⟩
  case checkpoint => exact ⟨left.checkpoint, right.checkpoint⟩
  case nodes =>
    intro later
    have same := congrArg (NodeTable.retime fun _ => later) (left.nodes.trans right.nodes.symm)
    rwa [NodeTable.retime_retime, NodeTable.retime_retime] at same

namespace IsFresh

variable (fresh : IsFresh root asked here machine)

include fresh

theorem ready : IsReady (.ofText here.workingDirectory root) here.newName machine where
  tree := fresh.tree
  vacant := fresh.vacant
  free := fresh.free
  plain := Place.plain_ofText fresh.here root
  willing := fresh.willing
  step := fresh.step
  apart := fresh.apart

/-- A process that is not stopped runs the demonstration to its end. -/
theorem completes (word : steps < UInt64.size) (now : Instant) :
    ∃ left image,
      runProgram (demoWords root asked steps none) here machine =
        (⟨0, ["Run " ++ here.newName ++ " completed: success"], []⟩, left) ∧
      Shows left.disk (here.runPlace root) .immediate image ∧
      Demo.IsWhole now here.newName steps image := by
  obtain ⟨config, reads, prompt⟩ := fresh.settings
  obtain ⟨left, image, done, shows, whole⟩ := demo_completes fresh.ready prompt [] now steps
  exact ⟨left, image,
    runProgram_eq (parse_demoWords asked fresh.operand word nofun) reads done, shows, whole⟩

/-- A process that is stopped is followed by one that resumes the run and ends it. -/
theorem stops_and_resumes (within : stop < steps) (word : steps < UInt64.size)
    (words : 2 * stop + 2 ≤ UInt64.size) (now : Instant) :
    ∃ stopped,
      runProgram (demoWords root asked steps (some stop)) here machine =
        (⟨0, ["Run " ++ here.newName ++ " stopped without shutdown"], []⟩, stopped) ∧
      ∀ (after : Surroundings) (later : Machine) (dirty : Bool),
        Succeeds root here stopped after later →
        ∃ left image,
          runProgram (recoverWords root dirty) after later =
            (⟨0, [here.newName ++ ": Resumed", "Recovered 1 run(s)."], []⟩, left) ∧
          Shows left.disk (here.runPlace root) .immediate image ∧
          Demo.IsWhole now here.newName steps image := by
  obtain ⟨config, reads, prompt⟩ := fresh.settings
  obtain ⟨live, done, only⟩ := demo_stops fresh.ready prompt [] within now
  have stopWord : ∀ step ∈ some stop, step < UInt64.size := by
    rintro _ ⟨⟩
    exact within.trans word
  refine ⟨live.machine,
    runProgram_eq (parse_demoWords asked fresh.operand word stopWord) reads done, ?_⟩
  intro after later dirty succeeds
  obtain ⟨laterConfig, laterReads⟩ := succeeds.settings
  obtain ⟨left, image, recovered, shows, whole⟩ :=
    recover_completes only fresh.step fresh.apart within.le word words succeeds.disk
      succeeds.willing laterConfig dirty []
  rw [← succeeds.here] at recovered
  exact ⟨left, image, runProgram_eq (parse_recoverWords fresh.operand dirty) laterReads recovered,
    shows, whole⟩

end IsFresh

/-- An interrupted demonstration ends like an uninterrupted one.  One process does some of the steps
and stops, as if it had been killed; a later one recovers, whether or not it is told that the one
before was killed.  It reports the run as resumed, and the run is left complete and successful,
with no continuation, and with the nodes and the heads that are left where nothing is interrupted:
those of the whole history, whatever the times.

The last condition says that the nodes up to the stop can be numbered with 64 bits. -/
theorem interrupted_ends_alike (fresh : IsFresh root asked here machine)
    (unhindered : IsFresh root asked there other) (within : stop < steps)
    (word : steps < UInt64.size) (words : 2 * stop + 2 ≤ UInt64.size) (now : Instant) :
    ∃ (stopped ended : Machine) (whole : Image),
      runProgram (demoWords root asked steps (some stop)) here machine =
        (⟨0, ["Run " ++ here.newName ++ " stopped without shutdown"], []⟩, stopped) ∧
      runProgram (demoWords root asked steps none) there other =
        (⟨0, ["Run " ++ there.newName ++ " completed: success"], []⟩, ended) ∧
      Shows ended.disk (there.runPlace root) .immediate whole ∧
      Demo.IsWhole now there.newName steps whole ∧
      ∀ (after : Surroundings) (later : Machine) (dirty : Bool),
        Succeeds root here stopped after later →
        ∃ left image,
          runProgram (recoverWords root dirty) after later =
            (⟨0, [here.newName ++ ": Resumed", "Recovered 1 run(s)."], []⟩, left) ∧
          Shows left.disk (here.runPlace root) .immediate image ∧
          EndsAlike image whole := by
  obtain ⟨stopped, stops, resumes⟩ := fresh.stops_and_resumes within word words now
  obtain ⟨ended, whole, completes, shows, isWhole⟩ := unhindered.completes word now
  refine ⟨stopped, ended, whole, stops, completes, shows, isWhole, ?_⟩
  intro after later dirty succeeds
  obtain ⟨left, image, recovers, showsLeft, isWholeLeft⟩ := resumes after later dirty succeeds
  exact ⟨left, image, recovers, showsLeft, isWholeLeft.endsAlike isWhole⟩

/-- A working directory, an empty environment and a name that a new run can get. -/
def Surroundings.sample : Surroundings :=
  ⟨["home"], fun _ => none, Cli.newName (List.replicate 16 0)⟩

theorem Surroundings.path_sample :
    (Place.ofText sample.workingDirectory "runs").path = ["home", "runs"] := by
  have relative : "runs".startsWith "/" = false := by
    rw [String.startsWith_string_eq_false_iff]
    decide
  rw [Place.ofText, relative]
  decide

/-- There is a process that finds an empty disk. -/
theorem isFresh_sample : IsFresh "runs" (some .survivableNonatomic) .sample .blank where
  operand := ⟨by decide, Bool.eq_false_iff.2 fun looks =>
    absurd (looksLikeOption_iff.1 looks).1 (by decide)⟩
  settings := ⟨.default, rfl, rfl⟩
  here := by decide
  tree := .empty
  vacant := by
    intro path below _
    have inside : path ≠ [] := by
      rintro rfl
      rw [Surroundings.path_sample] at below
      exact absurd below (by decide)
    rw [Disk.at?_eq_lookup _ inside]
    rfl
  free := by
    intro above _ content stands
    by_cases top : above = []
    · subst top
      cases stands
    · cases (Disk.at?_eq_lookup _ top).symm.trans stands
  willing := Machine.willing_blank .empty
  step := isStep_newName (List.replicate 16 0)
  apart := newName_ne (by decide) (List.replicate 16 0)

/-- Of two steps, one is done before the stop. -/
theorem interrupted_ends_alike_two :
    ∃ (stopped ended : Machine) (whole : Image),
      runProgram ["demo", "runs", "--hint", "survivable-nonatomic", "--steps", "2",
          "--stop-after", "1"] .sample .blank =
        (⟨0, ["Run " ++ Surroundings.sample.newName ++ " stopped without shutdown"], []⟩,
          stopped) ∧
      runProgram ["demo", "runs", "--hint", "survivable-nonatomic", "--steps", "2"] .sample
          .blank =
        (⟨0, ["Run " ++ Surroundings.sample.newName ++ " completed: success"], []⟩, ended) ∧
      Shows ended.disk (Surroundings.sample.runPlace "runs") .immediate whole ∧
      ∃ left image,
        runProgram ["recover", "runs"] .sample { Machine.blank with disk := stopped.disk } =
          (⟨0, [Surroundings.sample.newName ++ ": Resumed", "Recovered 1 run(s)."], []⟩, left) ∧
        Shows left.disk (Surroundings.sample.runPlace "runs") .immediate image ∧
        EndsAlike image whole := by
  obtain ⟨stopped, ended, whole, stops, completes, shows, -, resumes⟩ :=
    interrupted_ends_alike isFresh_sample isFresh_sample (show 1 < 2 by decide) (by decide)
      (by decide) .sample
  have succeeds : Succeeds "runs" .sample stopped .sample
      { Machine.blank with disk := stopped.disk } :=
    ⟨rfl, Machine.willing_blank _, rfl, .default, rfl⟩
  exact ⟨stopped, ended, whole, stops, completes, shows, resumes _ _ false succeeds⟩

end DurableRuns.Cli
