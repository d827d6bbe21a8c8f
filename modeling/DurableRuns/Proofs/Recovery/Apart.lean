/-
# DurableRuns.Proofs.Recovery.Apart -- runs are recovered apart from one another, and once

A coordinator may be called any number of times, for all runs under its root or for one
(`Coordinator.serve`).  `Answers` says what a call, or a row of calls, comes to: every directory
is reported on whenever it is asked for, but only the first report is more than that it was taken
on before; and what this report says, and what is left in the directory, is what a coordinator that
knows nothing would have come to with the directory alone.

One step of the proof takes on one directory (`recoverRun_answers`), another puts two rows of
answers together (`Answers.append`).
-/
import DurableRuns.Proofs.Recovery.Alone
import DurableRuns.Proofs.Recovery.Listing

namespace DurableRuns

set_option autoImplicit false

open Run RunM

/-! ## Calls -/

/-- The reports on a directory, but those that it was taken on before. -/
def RecoveryReport.firstOf (place : Place) (reports : List RecoveryReport) : List RecoveryReport :=
  reports.filter fun report =>
    decide (report.place = place ∧ report.outcome ≠ .skipped .alreadyClaimed)

namespace Coordinator

/-- What is asked of a coordinator: to recover the runs under its root, or the one in a
directory. -/
inductive Request where
  | all
  | only (place : Place)
deriving DecidableEq, Repr

/-- A request at a point in time. -/
structure Call where
  now : Instant
  request : Request
deriving DecidableEq, Repr

/-- The directories that a request is about, when some are listed. -/
def Request.among (places : List Place) : Request → List Place
  | .all => places
  | .only place => [place]

theorem Request.mem_of_mem_among {places : List Place} {request : Request}
    (named : ∀ place, request = .only place → place ∈ places) :
    ∀ place ∈ request.among places, place ∈ places := by
  cases request with
  | all => exact fun place => id
  | only other => exact fun place asked => List.mem_singleton.1 asked ▸ named other rfl

/-- Answers a call with a report on each directory that it is about. -/
def answer [Numbering] (coordinator : Coordinator) (call : Call) :
    MachineM (List RecoveryReport × Coordinator) := do
  modify fun machine => { machine with now := call.now }
  match call.request with
  | .all => coordinator.recoverAll
  | .only place => do
      let (report, kept) ← coordinator.recoverRun place
      return ([report], kept)

/-- Answers calls, one after the other. -/
def serve [Numbering] (coordinator : Coordinator) :
    List Call → MachineM (List (List RecoveryReport) × Coordinator)
  | [] => return ([], coordinator)
  | call :: rest => do
      let (reports, kept) ← coordinator.answer call
      let (answers, kept) ← kept.serve rest
      return (reports :: answers, kept)

/-- A report on a directory, and what is left in it, are what a coordinator that has taken nothing
on comes to with the directory alone.  It is given the directory as it was at first, on whatever
disk, one of the times of the calls, and what is left of the refusals of the device. -/
def IsAsAlone [Numbering]
    (coordinator : Coordinator) (first : Machine) (times : List Instant) (place : Place)
    (report : RecoveryReport) (left : Disk) : Prop :=
  ∃ refusals now, refusals <:+ first.refusals ∧ now ∈ times ∧
    ∀ (judge : Coordinator) (alone : Machine), coordinator.JudgesAs judge → judge.claimed = [] →
      alone.disk.within place.path = first.disk.within place.path →
      alone.refusals = refusals → alone.now = now →
      ∃ kept after, judge.recoverRun place alone = .ok (report, kept) after ∧
        left.within place.path = after.disk.within place.path

/-- What it comes to when a coordinator is asked for directories, out of those that are listed. -/
structure Answers [Numbering] (coordinator : Coordinator) (first : Machine) (times : List Instant)
    (places asked : List Place) (disk : Disk) (reports : List RecoveryReport) (kept : Coordinator)
    (left : Disk) : Prop where
  /-- Each directory is reported on as often as it is asked for. -/
  places_eq : reports.map (·.place) = asked
  kept_eq : kept = { coordinator with claimed := kept.claimed }
  claimed : ∀ path, path ∈ kept.claimed ↔
    path ∈ coordinator.claimed ∨ path ∈ asked.map (·.path)
  /-- A directory that was not taken on before is taken on once, as if it were alone. -/
  once : ∀ place ∈ places, place ∈ asked → place.path ∉ coordinator.claimed →
    ∃ report, RecoveryReport.firstOf place reports = [report] ∧
      coordinator.IsAsAlone first times place report left
  /-- One that was taken on before is not taken on again. -/
  never : ∀ place ∈ places, place.path ∈ coordinator.claimed →
    RecoveryReport.firstOf place reports = []
  /-- What was taken on before is not opened, and the resumer is not called. -/
  again : ∀ report ∈ reports, report.outcome = .skipped .alreadyClaimed →
    report.run = none ∧ report.call = none
  /-- Nothing is changed but in the directories that are newly taken on. -/
  outside : ∀ path, (∀ place ∈ asked, place.path ∉ coordinator.claimed →
    ¬ Disk.IsInside place.path path) → left.at? path = disk.at? path
  /-- A directory that is not newly taken on is left as it was. -/
  spared : ∀ place ∈ places, (place ∈ asked → place.path ∈ coordinator.claimed) →
    left.within place.path = disk.within place.path

variable {coordinator kept : Coordinator} {first machine : Machine} {times : List Instant}
  {places asked : List Place} {disk between left : Disk} {reports : List RecoveryReport}

theorem IsAsAlone.congr [Numbering]
    {judge : Coordinator} (alike : judge.JudgesAs coordinator) {place : Place}
    {report : RecoveryReport} (same : left.within place.path = between.within place.path)
    (alone : coordinator.IsAsAlone first times place report between) :
    judge.IsAsAlone first times place report left := by
  obtain ⟨refusals, now, later, among, goes⟩ := alone
  refine ⟨refusals, now, later, among, fun fresh other judges unclaimed disk refused time => ?_⟩
  have judges' : coordinator.JudgesAs fresh :=
    ⟨judges.termination.trans alike.termination.symm, judges.resumer.trans alike.resumer.symm⟩
  obtain ⟨kept, after, recovers, left⟩ := goes fresh other judges' unclaimed disk refused time
  exact ⟨kept, after, recovers, same.trans left⟩

namespace Answers

theorem nil [Numbering] (coordinator : Coordinator) (first : Machine) (times : List Instant)
    (places : List Place) (disk : Disk) :
    Answers coordinator first times places [] disk [] coordinator disk := by
  constructor
  case places_eq => rfl
  case kept_eq => rfl
  case claimed => simp
  case once => exact fun _ _ asked => nomatch asked
  case never => exact fun _ _ _ => rfl
  case again => exact fun _ inside => nomatch inside
  case outside => exact fun _ _ => rfl
  case spared => exact fun _ _ _ => rfl

theorem firstOf_eq_nil [Numbering]
    (answers : Answers coordinator first times places asked disk reports kept left)
    {place : Place} (other : place ∉ asked) : RecoveryReport.firstOf place reports = [] := by
  refine List.filter_eq_nil_iff.2 fun report inside => ?_
  intro found
  refine other (answers.places_eq ▸ List.mem_map.2 ⟨report, inside, ?_⟩)
  exact (of_decide_eq_true found).1

/-- Answers to what is asked first and then. -/
theorem append [Numbering]
    {asked' : List Place} {reports' : List RecoveryReport} {kept' : Coordinator}
    (distinct : ∀ place ∈ places, ∀ other ∈ places, other.path = place.path → other = place)
    (among : ∀ place ∈ asked, place ∈ places)
    (early : Answers coordinator first times places asked disk reports kept between)
    (late : Answers kept first times places asked' between reports' kept' left) :
    Answers coordinator first times places (asked ++ asked') disk (reports ++ reports') kept'
      left := by
  have claims {path : Path} (inside : path ∈ coordinator.claimed) : path ∈ kept.claimed :=
    (early.claimed path).2 (.inl inside)
  have judges : coordinator.JudgesAs kept := by
    rw [early.kept_eq]
    exact ⟨rfl, rfl⟩
  constructor
  case places_eq => rw [List.map_append, early.places_eq, late.places_eq]
  case kept_eq => rw [late.kept_eq, early.kept_eq]
  case claimed =>
    intro path
    rw [late.claimed, early.claimed, List.map_append, List.mem_append, or_assoc]
  case once =>
    intro place listed inside unclaimed
    rw [RecoveryReport.firstOf, List.filter_append]
    by_cases before : place ∈ asked
    · have taken : place.path ∈ kept.claimed :=
        (early.claimed _).2 (.inr (List.mem_map_of_mem before))
      obtain ⟨report, found, alone⟩ := early.once place listed before unclaimed
      refine ⟨report, ?_, alone.congr ⟨rfl, rfl⟩ (late.spared place listed fun _ => taken)⟩
      have none := late.never place listed taken
      rw [RecoveryReport.firstOf] at found none
      rw [found, none, List.append_nil]
    · have later : place ∈ asked' := (List.mem_append.1 inside).resolve_left before
      have still : place.path ∉ kept.claimed := by
        rw [early.claimed]
        rintro (claimed | path)
        · exact unclaimed claimed
        · obtain ⟨other, within, same⟩ := List.mem_map.1 path
          exact before (distinct place listed other (among other within) same ▸ within)
      obtain ⟨report, found, alone⟩ := late.once place listed later still
      refine ⟨report, ?_, alone.congr judges rfl⟩
      have none := early.firstOf_eq_nil before
      rw [RecoveryReport.firstOf] at found none
      rw [found, none, List.nil_append]
  case never =>
    intro place listed claimed
    have none := early.never place listed claimed
    have none' := late.never place listed (claims claimed)
    rw [RecoveryReport.firstOf] at none none' ⊢
    rw [List.filter_append, none, none', List.append_nil]
  case again =>
    intro report inside
    exact (List.mem_append.1 inside).elim (early.again report) (late.again report)
  case outside =>
    intro path outside
    rw [late.outside path, early.outside path]
    · exact fun place inside => outside place (List.mem_append_left _ inside)
    · exact fun place inside unclaimed => outside place (List.mem_append_right _ inside)
        fun claimed => unclaimed (claims claimed)
  case spared =>
    intro place listed spared
    rw [late.spared place listed, early.spared place listed]
    · exact fun inside => spared (List.mem_append_left _ inside)
    · exact fun inside => claims (spared (List.mem_append_right _ inside))

end Answers

/-! ## The directories under a root -/

/-- The directories of runs are listed under a root, on a disk that is a tree. -/
structure Lists (root : Place) (first : Machine) (places : List Place) : Prop where
  tree : first.disk.IsTree
  listed : listRuns first.disk root = .ok places

namespace Lists

variable {root : Place}

theorem child (lists : Lists root first places) {place : Place} (inside : place ∈ places) :
    ∃ name, Place.IsStep name ∧ place = root.join name ∧ place.path = root.path ++ [name] := by
  obtain ⟨⟨name, plain, rfl⟩, -⟩ := (mem_listRuns lists.tree lists.listed place).1 inside
  exact ⟨name, plain, rfl, root.path_join plain⟩

theorem distinct (lists : Lists root first places) :
    ∀ place ∈ places, ∀ other ∈ places, other.path = place.path → other = place := by
  intro place inside other inside' same
  obtain ⟨name, -, here, path⟩ := lists.child inside
  obtain ⟨name', -, here', path'⟩ := lists.child inside'
  rw [path, path'] at same
  rw [here, here', List.singleton_inj.1 (List.append_cancel_left same)]

theorem apart (lists : Lists root first places) {place other : Place} (inside : place ∈ places)
    (inside' : other ∈ places) (different : other.path ≠ place.path) :
    Disk.AreApart place.path other.path := by
  obtain ⟨name, -, -, path⟩ := lists.child inside
  obtain ⟨name', -, -, path'⟩ := lists.child inside'
  rw [path, path'] at different ⊢
  exact .of_names fun same => different (same ▸ rfl)

end Lists

/-- How far a coordinator has come: the same directories are listed as at first and stand, and
those that were not taken on are as they were. -/
structure Underway (coordinator : Coordinator) (first : Machine) (places : List Place)
    (machine : Machine) : Prop where
  listed : listRuns machine.disk coordinator.root = .ok places
  names : machine.disk.names coordinator.root.path = first.disk.names coordinator.root.path
  reached : ∀ place ∈ places, machine.disk.IsReached place.path
  fresh : ∀ place ∈ places, place.path ∉ coordinator.claimed →
    machine.disk.within place.path = first.disk.within place.path
  refusals : machine.refusals <:+ first.refusals

namespace Underway

/-- At first all is as it is. -/
theorem begins (lists : Lists coordinator.root first places) :
    Underway coordinator first places first := by
  have found := mem_listRuns lists.tree lists.listed
  constructor
  case listed => exact lists.listed
  case names => rfl
  case reached =>
    intro place inside
    exact lists.tree.isReached (of_decide_eq_true ((found place).1 inside).2.1)
  case fresh => exact fun _ _ _ => rfl
  case refusals => exact List.suffix_refl _

/-- The time does not matter. -/
theorem atTime (underway : Underway coordinator first places machine) (now : Instant) :
    Underway coordinator first places { machine with now } :=
  { underway with }

theorem plain (underway : Underway coordinator first places machine)
    (lists : Lists coordinator.root first places) {place : Place} (inside : place ∈ places)
    (unclaimed : place.path ∉ coordinator.claimed) : place.HasPlainNames machine.disk := by
  intro name stands
  have near : place.path <+: place.path ++ [NodeStore.directoryName] ++ [name] := by simp
  rw [Disk.at?_of_within (underway.fresh place inside unclaimed) (.inl near)] at stands
  exact lists.tree.plain _ stands name (by simp)

/-- When a directory was taken on, the others are as they were. -/
theorem goesOn (underway : Underway coordinator first places machine)
    (lists : Lists coordinator.root first places) {place : Place} {after : Machine}
    (inside : place ∈ places) (changes : machine.ChangesOnly place after) :
    Underway { coordinator with claimed := place.path :: coordinator.claimed } first places
      after := by
  obtain ⟨name, -, -, path⟩ := lists.child inside
  have beside := changes.beside
  have names := beside
  rw [path] at names
  have plain : ∀ names, machine.disk.names coordinator.root.path = .ok names →
      ∀ other ∈ names, Place.IsStep other := by
    intro names found other within
    exact lists.tree.isStep_of_mem_names (underway.names.symm.trans found) within
  constructor
  case listed =>
    have holds := isRun_of_listed underway.listed inside
    exact (listRuns_of_changesOnly plain path holds changes).trans underway.listed
  case names => exact (Disk.names_of_beside names).trans underway.names
  case reached =>
    intro other inside' above up
    obtain ⟨name', -, -, path'⟩ := lists.child inside'
    have short : above.length ≤ place.path.length := by
      have length := up.length_le
      rw [path', List.length_append] at length
      rw [path, List.length_append]
      exact length
    rw [Disk.at?_of_beside beside (Disk.not_isInside_of_length_le short)]
    exact underway.reached other inside' above up
  case fresh =>
    intro other inside' unclaimed
    simp only [List.mem_cons, not_or] at unclaimed
    rw [Disk.within_of_beside (lists.apart inside inside' unclaimed.1) beside]
    exact underway.fresh other inside' unclaimed.2
  case refusals => exact changes.refusals.trans underway.refusals

end Underway

/-! ## Taking on -/

/-- The report on a directory that was taken on before. -/
def claimedReport (place : Place) : RecoveryReport :=
  { place, runId := directoryNameOf place, outcome := .skipped .alreadyClaimed, run := none
    call := none }

/-- A directory that was taken on before is not opened, its resumer is not called, and nothing is
changed. -/
theorem recoverRun_eq_of_claimed [Numbering]
    {place : Place} (claimed : place.path ∈ coordinator.claimed)
    (machine : Machine) :
    coordinator.recoverRun place machine = .ok (claimedReport place, coordinator) machine := by
  rw [recoverRun, if_pos claimed]
  rfl

theorem recoverEach_eq_of_claimed [Numbering]
    (claimed : ∀ place ∈ asked, place.path ∈ coordinator.claimed)
    (machine : Machine) :
    coordinator.recoverEach asked machine = .ok (asked.map claimedReport, coordinator) machine := by
  induction asked with
  | nil => rfl
  | cons place rest ih =>
      have here := recoverRun_eq_of_claimed (claimed place List.mem_cons_self) machine
      have later := ih fun other inside => claimed other (List.mem_cons_of_mem _ inside)
      exact bind_eq_ok.2 ⟨_, _, here, bind_eq_ok.2 ⟨_, _, later, rfl⟩⟩

/-- A directory that was taken on before is answered for, and nothing else. -/
theorem Answers.of_claimed [Numbering]
    {place : Place} (claimed : place.path ∈ coordinator.claimed) :
    Answers coordinator first times places [place] disk [claimedReport place] coordinator disk := by
  constructor
  case places_eq => rfl
  case kept_eq => rfl
  case claimed =>
    intro path
    simp only [List.map_cons, List.map_nil, List.mem_singleton]
    exact ⟨.inl, fun either => either.elim id fun same => same ▸ claimed⟩
  case once =>
    intro other _ inside unclaimed
    exact absurd (List.mem_singleton.1 inside ▸ claimed) unclaimed
  case never => exact fun _ _ _ => by simp [RecoveryReport.firstOf, claimedReport]
  case again =>
    intro report inside _
    rw [List.mem_singleton.1 inside]
    exact ⟨rfl, rfl⟩
  case outside => exact fun _ _ => rfl
  case spared => exact fun _ _ _ => rfl

/-- A directory that is newly taken on is answered for as if it were alone. -/
theorem Answers.of_unclaimed [Numbering] (lists : Lists coordinator.root first places)
    (underway : Underway coordinator first places machine) (timely : machine.now ∈ times)
    {place : Place} (inside : place ∈ places) (unclaimed : place.path ∉ coordinator.claimed)
    {report : RecoveryReport} {after after' : Machine}
    (alike : TakeOnAlike coordinator coordinator place machine machine report after after') :
    Answers coordinator first times places [place] machine.disk [report]
      { coordinator with claimed := place.path :: coordinator.claimed } after.disk := by
  have reached := underway.reached place inside
  have plain := underway.plain lists inside unclaimed
  constructor
  case places_eq => rw [List.map_singleton, alike.place_eq]
  case kept_eq => rfl
  case claimed => simp [or_comm]
  case once =>
    intro other _ asked _
    obtain rfl := List.mem_singleton.1 asked
    refine ⟨report, by simp [RecoveryReport.firstOf, alike.place_eq, alike.unclaimed],
      machine.refusals, machine.now, underway.refusals, timely, ?_⟩
    intro judge alone judges fresh same refusals now
    have seen : machine.SameAt other.path alone :=
      ⟨same.trans (underway.fresh other inside unclaimed).symm, refusals, now⟩
    obtain ⟨report', _, left, alike'⟩ := takeOn_alone judges seen reached plain
    cases alike.here.symm.trans alike'.here
    have free : other.path ∉ judge.claimed := by
      rw [fresh]
      exact List.not_mem_nil
    exact ⟨_, left, recoverRun_eq_takeOn free alike'.there, alike'.same.disk.symm⟩
  case never =>
    intro other _ claimed
    have different : report.place ≠ other := by
      rw [alike.place_eq]
      rintro rfl
      exact unclaimed claimed
    simp [RecoveryReport.firstOf, different]
  case again =>
    intro other inside' skipped
    rw [List.mem_singleton.1 inside'] at skipped
    exact absurd skipped alike.unclaimed
  case outside =>
    intro path outside
    exact Disk.at?_of_beside alike.changes.beside (outside place List.mem_cons_self unclaimed)
  case spared =>
    intro other inside' spared
    refine Disk.within_of_beside (lists.apart inside inside' fun same => ?_) alike.changes.beside
    have here := lists.distinct place inside other inside' same
    exact unclaimed (here ▸ spared (List.mem_singleton.2 here))

/-- One directory is taken on, or was before. -/
theorem recoverRun_answers [Numbering] (lists : Lists coordinator.root first places)
    (underway : Underway coordinator first places machine) (timely : machine.now ∈ times)
    {place : Place} (inside : place ∈ places) :
    ∃ report kept after, coordinator.recoverRun place machine = .ok (report, kept) after ∧
      Answers coordinator first times places [place] machine.disk [report] kept after.disk ∧
      Underway kept first places after ∧ after.now = machine.now := by
  by_cases claimed : place.path ∈ coordinator.claimed
  · exact ⟨_, _, _, recoverRun_eq_of_claimed claimed machine, .of_claimed claimed, underway, rfl⟩
  · obtain ⟨report, after, _, alike⟩ := takeOn_alone ⟨rfl, rfl⟩ (.refl place.path machine)
      (underway.reached place inside) (underway.plain lists inside claimed)
    exact ⟨report, _, after, recoverRun_eq_takeOn claimed alike.here,
      .of_unclaimed lists underway timely inside claimed alike,
      underway.goesOn lists inside alike.changes, alike.changes.now⟩

/-- Directories are taken on one after the other. -/
theorem recoverEach_answers [Numbering] (lists : Lists coordinator.root first places)
    (underway : Underway coordinator first places machine) (timely : machine.now ∈ times)
    (among : ∀ place ∈ asked, place ∈ places) :
    ∃ reports kept after, coordinator.recoverEach asked machine = .ok (reports, kept) after ∧
      Answers coordinator first times places asked machine.disk reports kept after.disk ∧
      Underway kept first places after ∧ after.now = machine.now := by
  induction asked generalizing coordinator machine with
  | nil => exact ⟨_, _, _, rfl, .nil coordinator first times places machine.disk, underway, rfl⟩
  | cons place rest ih =>
      obtain ⟨report, kept, between, recovers, answers, underway', now⟩ :=
        recoverRun_answers lists underway timely (among place List.mem_cons_self)
      have root : kept.root = coordinator.root := by rw [answers.kept_eq]
      obtain ⟨reports, kept', after, recovers', answers', underway'', now'⟩ :=
        ih (root ▸ lists) underway' (now ▸ timely) fun other inside =>
          among other (List.mem_cons_of_mem _ inside)
      refine ⟨report :: reports, kept', after, ?_, ?_, underway'', now'.trans now⟩
      · exact bind_eq_ok.2 ⟨_, _, recovers, bind_eq_ok.2 ⟨_, _, recovers', rfl⟩⟩
      · exact answers.append lists.distinct (fun other one => List.mem_singleton.1 one ▸
          among place List.mem_cons_self) answers'

theorem recoverAll_eq [Numbering] (listed : listRuns machine.disk coordinator.root = .ok places) :
    coordinator.recoverAll machine = coordinator.recoverEach places machine := by
  rw [recoverAll, Machine.get_bind, listed]

/-- A call is answered. -/
theorem answer_answers [Numbering] (lists : Lists coordinator.root first places)
    (underway : Underway coordinator first places machine) {call : Call} (timely : call.now ∈ times)
    (among : ∀ place ∈ call.request.among places, place ∈ places) :
    ∃ reports kept after, coordinator.answer call machine = .ok (reports, kept) after ∧
      Answers coordinator first times places (call.request.among places) machine.disk reports kept
        after.disk ∧
      Underway kept first places after := by
  obtain ⟨now, request⟩ := call
  have begins := underway.atTime now
  cases request with
  | all =>
      obtain ⟨reports, kept, after, recovers, answers, underway', -⟩ :=
        recoverEach_answers lists begins timely among
      refine ⟨reports, kept, after, bind_eq_ok.2 ⟨(), _, rfl, ?_⟩, answers, underway'⟩
      exact (recoverAll_eq begins.listed).trans recovers
  | only place =>
      obtain ⟨report, kept, after, recovers, answers, underway', -⟩ :=
        recoverRun_answers lists begins timely (among place List.mem_cons_self)
      exact ⟨[report], kept, after, bind_eq_ok.2 ⟨(), _, rfl, bind_eq_ok.2 ⟨_, _, recovers, rfl⟩⟩,
        answers, underway'⟩

/-- A program that comes as far as the report on each directory alone comes as far as the reports on
all of them. -/
theorem Answers.isCounted [Numbering]
    (answers : Answers coordinator first times places asked disk reports kept left)
    (fresh : coordinator.claimed = []) (among : ∀ place ∈ asked, place ∈ places)
    (counted : ∀ place ∈ places, ∀ refusals, refusals <:+ first.refusals → ∀ now ∈ times,
      ∀ report kept after, coordinator.recoverRun place { first with refusals, now } =
        .ok (report, kept) after → report.IsCounted) : ∀ report ∈ reports, report.IsCounted := by
  intro report inside
  by_cases again : report.outcome = .skipped .alreadyClaimed
  · intro run acted
    rw [(answers.again report inside again).1] at acted
    cases acted
  · have asked : report.place ∈ asked := answers.places_eq ▸ List.mem_map_of_mem inside
    have unclaimed : report.place.path ∉ coordinator.claimed := by
      rw [fresh]
      exact List.not_mem_nil
    obtain ⟨only, found, refusals, now, later, timely, goes⟩ :=
      answers.once report.place (among _ asked) asked unclaimed
    have chosen : report ∈ RecoveryReport.firstOf report.place reports :=
      List.mem_filter.2 ⟨inside, decide_eq_true ⟨rfl, again⟩⟩
    rw [found, List.mem_singleton] at chosen
    subst chosen
    obtain ⟨kept, after, recovers, -⟩ :=
      goes coordinator { first with refusals, now } ⟨rfl, rfl⟩ fresh rfl rfl rfl
    exact counted _ (among _ asked) refusals later now timely _ _ _ recovers

/-- A call about directories that were all taken on before changes nothing but the time. -/
theorem answer_eq_of_claimed [Numbering]
    (listed : listRuns machine.disk coordinator.root = .ok places)
    {call : Call}
    (claimed : ∀ place ∈ call.request.among places, place.path ∈ coordinator.claimed) :
    coordinator.answer call machine =
      .ok ((call.request.among places).map claimedReport, coordinator)
        { machine with now := call.now } := by
  obtain ⟨now, request⟩ := call
  refine bind_eq_ok.2 ⟨(), { machine with now }, rfl, ?_⟩
  cases request with
  | all =>
      have listed' : listRuns { machine with now }.disk coordinator.root = .ok places := listed
      exact (recoverAll_eq listed').trans (recoverEach_eq_of_claimed claimed _)
  | only place =>
      have here := recoverRun_eq_of_claimed (claimed place List.mem_cons_self) { machine with now }
      exact bind_eq_ok.2 ⟨_, _, here, rfl⟩

/-- Calls are answered one after the other. -/
theorem serve_answers [Numbering] (lists : Lists coordinator.root first places)
    (underway : Underway coordinator first places machine) {calls : List Call}
    (timely : ∀ call ∈ calls, call.now ∈ times)
    (among : ∀ call ∈ calls, ∀ place ∈ call.request.among places, place ∈ places) :
    ∃ answers kept after, coordinator.serve calls machine = .ok (answers, kept) after ∧
      List.Forall₂ (fun call reports => reports.map (·.place) = call.request.among places)
        calls answers ∧
      Answers coordinator first times places (calls.flatMap (·.request.among places)) machine.disk
        answers.flatten kept after.disk ∧
      Underway kept first places after := by
  induction calls generalizing coordinator machine with
  | nil =>
      exact ⟨_, _, _, rfl, .nil, .nil coordinator first times places machine.disk, underway⟩
  | cons call rest ih =>
      have whole := among call List.mem_cons_self
      obtain ⟨reports, kept, between, gives, answers, underway'⟩ :=
        answer_answers lists underway (timely call List.mem_cons_self) whole
      have root : kept.root = coordinator.root := by rw [answers.kept_eq]
      obtain ⟨later, kept', after, serves, each, answers', underway''⟩ :=
        ih (root ▸ lists) underway'
          (fun other inside => timely other (List.mem_cons_of_mem _ inside))
          fun other inside => among other (List.mem_cons_of_mem _ inside)
      refine ⟨reports :: later, kept', after, ?_, .cons answers.places_eq each, ?_, underway''⟩
      · exact bind_eq_ok.2 ⟨_, _, gives, bind_eq_ok.2 ⟨_, _, serves, rfl⟩⟩
      · exact answers.append lists.distinct whole answers'

/-- **Runs are recovered apart from one another, and once.**  The directories that are listed are
those that hold a record as a file, in ascending order.  Whatever calls a coordinator answers, each
is answered with one report for each directory that it is about; each directory that is asked for
is taken on once, and the report of this, and what it leaves there, are what comes of the directory
alone; nothing is changed but in these directories.  So it is with every single call, which changes
nothing but in the directories that no call before it was about.

A program that checks its arithmetic stops where a number has none after it, so each directory must
be one that alone brings it to a report. -/
theorem runs_recovered_apart_and_once [Numbering] {calls : List Call} (tree : machine.disk.IsTree)
    (listed : listRuns machine.disk coordinator.root = .ok places)
    (fresh : coordinator.claimed = [])
    (named : ∀ call ∈ calls, ∀ place, call.request = .only place → place ∈ places)
    (counted : ∀ place ∈ places, ∀ refusals, refusals <:+ machine.refusals →
      ∀ call ∈ calls, ∀ report kept after,
        coordinator.recoverRun place { machine with refusals, now := call.now } =
          .ok (report, kept) after → report.IsCounted) :
    (places.Pairwise fun a b => a.path < b.path) ∧
    (∀ place, place ∈ places ↔
      (∃ name, Place.IsStep name ∧ place = coordinator.root.join name) ∧
        machine.disk.isDirectory place.path = true ∧ RunFiles.isRun machine.disk place = true) ∧
    (∃ answers kept after, coordinator.serve calls machine = .ok (answers, kept) after ∧
      List.Forall₂ (fun call reports => reports.map (·.place) = call.request.among places)
        calls answers ∧
      (∀ place ∈ places, (∃ call ∈ calls, place ∈ call.request.among places) →
        ∃ report, RecoveryReport.firstOf place answers.flatten = [report] ∧
          coordinator.IsAsAlone machine (calls.map (·.now)) place report after.disk) ∧
      (∀ report ∈ answers.flatten, report.IsCounted) ∧
      (∀ report ∈ answers.flatten, report.outcome = .skipped .alreadyClaimed →
        report.run = none ∧ report.call = none) ∧
      ∀ path, (∀ call ∈ calls, ∀ place ∈ call.request.among places,
          ¬ Disk.IsInside place.path path) →
        after.disk.at? path = machine.disk.at? path) ∧
    ∀ earlier call later, calls = earlier ++ call :: later →
      ∃ answers kept between reports kept' after,
        coordinator.serve earlier machine = .ok (answers, kept) between ∧
        (∀ path, path ∈ kept.claimed ↔
          ∃ other ∈ earlier, ∃ place ∈ other.request.among places, place.path = path) ∧
        kept.answer call between = .ok (reports, kept') after ∧
        Answers kept machine (calls.map (·.now)) places (call.request.among places) between.disk
          reports kept' after.disk ∧
        ((∀ place ∈ call.request.among places, place.path ∈ kept.claimed) →
          reports = (call.request.among places).map claimedReport ∧
            after = { between with now := call.now }) := by
  have lists : Lists coordinator.root machine places := ⟨tree, listed⟩
  have begins : Underway coordinator machine places machine := .begins lists
  have unclaimed (path : Path) : path ∉ coordinator.claimed := by
    rw [fresh]
    exact List.not_mem_nil
  have timely : ∀ call ∈ calls, call.now ∈ calls.map (·.now) :=
    fun call inside => List.mem_map_of_mem inside
  have among : ∀ call ∈ calls, ∀ place ∈ call.request.among places, place ∈ places :=
    fun call inside => Request.mem_of_mem_among (named call inside)
  refine ⟨listRuns_ascending tree listed, mem_listRuns tree listed, ?_, ?_⟩
  · obtain ⟨answers, kept, after, serves, each, whole, -⟩ := serve_answers lists begins timely among
    refine ⟨answers, kept, after, serves, each, ?_, ?_, whole.again, ?_⟩
    · rintro place inside ⟨call, given, asked⟩
      exact whole.once place inside (List.mem_flatMap.2 ⟨call, given, asked⟩) (unclaimed _)
    · refine whole.isCounted fresh ?_ ?_
      · intro place asked
        obtain ⟨call, given, within⟩ := List.mem_flatMap.1 asked
        exact among call given place within
      · intro place inside refusals later now timely
        obtain ⟨call, given, rfl⟩ := List.mem_map.1 timely
        exact counted place inside refusals later call given
    · intro path outside
      refine whole.outside path fun place asked _ => ?_
      obtain ⟨call, given, within⟩ := List.mem_flatMap.1 asked
      exact outside call given place within
  · rintro earlier call later rfl
    have before : ∀ other ∈ earlier, other ∈ earlier ++ call :: later :=
      fun other inside => List.mem_append_left _ inside
    have here : call ∈ earlier ++ call :: later := by simp
    obtain ⟨answers, kept, between, serves, -, whole, underway⟩ := serve_answers lists begins
      (fun other inside => timely other (before other inside))
      fun other inside => among other (before other inside)
    have root : kept.root = coordinator.root := by rw [whole.kept_eq]
    obtain ⟨reports, kept', after, gives, answers', -⟩ :=
      answer_answers (root ▸ lists) underway (timely call here) (among call here)
    refine ⟨answers, kept, between, reports, kept', after, serves, fun path => ?_, gives, answers',
      fun claimed => ?_⟩
    · rw [whole.claimed, or_iff_right (unclaimed path)]
      simp only [List.mem_map, List.mem_flatMap]
      constructor
      · rintro ⟨place, ⟨other, given, within⟩, same⟩
        exact ⟨other, given, place, within, same⟩
      · rintro ⟨other, given, place, within, same⟩
        exact ⟨place, ⟨other, given, within⟩, same⟩
    · cases (answer_eq_of_claimed underway.listed claimed).symm.trans gives
      exact ⟨rfl, rfl⟩

/-- What is done to make two runs: one that was paused, and one of which the record is empty. -/
def makingTwoRuns : List Change :=
  [.makeDirectories ["paused"],
    .write ["paused", "execution.json"] pausedRecord.toJson.pretty true,
    .write ["paused", "program.json"] pausedCheckpoint.toJson.pretty true,
    .write ["paused", "nodes", "1.json"] Graph.firstNode.toJson.pretty true,
    .makeDirectories ["broken"], .write ["broken", "execution.json"] [] true]

/-- A machine with these runs. -/
def twoRuns : Machine :=
  { disk := ⟨[(["paused"], .directory),
      (["paused", "execution.json"], .file pausedRecord.toJson.pretty),
      (["paused", "program.json"], .file pausedCheckpoint.toJson.pretty),
      (["paused", "nodes"], .directory),
      (["paused", "nodes", "1.json"], .file Graph.firstNode.toJson.pretty),
      (["broken"], .directory), (["broken", "execution.json"], .file [])]⟩
    now := .sample }

theorem twoRuns_isTree : twoRuns.disk.IsTree := by
  have made : Disk.empty.replay makingTwoRuns = .ok twoRuns.disk := rfl
  exact Disk.IsTree.empty.replay (by decide) made

/-- The two runs are listed by name, and asked for three times. -/
theorem two_runs_recovered :
    listRuns twoRuns.disk accepting.root = .ok [⟨"broken", ["broken"]⟩, ⟨"paused", ["paused"]⟩] ∧
    ∃ answers kept after,
      accepting.serve [⟨.sample, .only ⟨"paused", ["paused"]⟩⟩, ⟨.evening, .all⟩, ⟨.evening, .all⟩]
        twoRuns = .ok (answers, kept) after ∧
      ∀ place ∈ [⟨"broken", ["broken"]⟩, ⟨"paused", ["paused"]⟩], ∃ report,
        RecoveryReport.firstOf place answers.flatten = [report] := by
  have names : twoRuns.disk.names accepting.root.path = .ok ["paused", "broken"] := rfl
  have sorted : (["paused", "broken"].mergeSort fun a b => decide (a ≤ b)) =
      ["broken", "paused"] := by
    simp [List.mergeSort]
  have listed : listRuns twoRuns.disk accepting.root =
      .ok [⟨"broken", ["broken"]⟩, ⟨"paused", ["paused"]⟩] := by
    simp only [listRuns, names, sorted]
    rfl
  have named : ∀ call ∈ [⟨.sample, .only ⟨"paused", ["paused"]⟩⟩, ⟨.evening, .all⟩,
      (⟨.evening, .all⟩ : Call)], ∀ place, call.request = .only place →
      place ∈ [⟨"broken", ["broken"]⟩, (⟨"paused", ["paused"]⟩ : Place)] := by
    simp
  have counted : ∀ place ∈ [⟨"broken", ["broken"]⟩, (⟨"paused", ["paused"]⟩ : Place)],
      ∀ refusals, refusals <:+ twoRuns.refusals →
        ∀ call ∈ [⟨.sample, .only ⟨"paused", ["paused"]⟩⟩, ⟨.evening, .all⟩,
          (⟨.evening, .all⟩ : Call)], ∀ report kept after,
          accepting.recoverRun place { twoRuns with refusals, now := call.now } =
            .ok (report, kept) after → report.IsCounted := by
    have passed : ∀ call ∈ [⟨.sample, .only ⟨"paused", ["paused"]⟩⟩, ⟨.evening, .all⟩,
        (⟨.evening, .all⟩ : Call)],
        ∀ place ∈ [⟨"broken", ["broken"]⟩, (⟨"paused", ["paused"]⟩ : Place)],
          Run.passes (fun found _ => decide found.1.IsCounted)
            (accepting.recoverRun place { twoRuns with now := call.now }) = true := by
      decide +kernel
    intro place inside refusals none call given report kept after recovers
    obtain rfl := List.suffix_nil.1 none
    exact Run.holds_of_passes (passed call given place inside) recovers
  obtain ⟨-, -, ⟨answers, kept, after, serves, -, once, -⟩, -⟩ :=
    runs_recovered_apart_and_once twoRuns_isTree listed rfl named counted
  refine ⟨listed, answers, kept, after, serves, fun place inside => ?_⟩
  obtain ⟨report, found, -⟩ := once place inside ⟨⟨.evening, .all⟩, by simp, inside⟩
  exact ⟨report, found⟩

end Coordinator
end DurableRuns
