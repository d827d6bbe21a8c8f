/-
# DurableRuns.Proofs.Recovery.Again -- a second recovery changes nothing

A recovery may rewrite much of a damaged directory.  But where every change that it asks for is
made, it leaves nothing to do: a second one, by a coordinator that knows nothing of the first,
writes nothing, finds every run complete that the first has closed, and comes to the same with every
other (`Coordinator.second_recovery_changes_nothing`).  This is so for resumers that give no command
(`Resumer.IsSilent`); what a command does may well bear on what is found later.

There are four ways to take on a run then (`Coordinator.TakesOn`), and only one of them changes the
directory: to close the run.
-/
import Mathlib.Data.List.Nodup
import DurableRuns.Proofs.Recovery.Apart
import DurableRuns.Proofs.Run.Archived

namespace DurableRuns

set_option autoImplicit false

open NodeStore (directoryName)
open Run RunM

/-- A resumer that gives no command to a run: it accepts it or does not. -/
def Resumer.IsSilent (resumer : Resumer) : Prop :=
  ∀ run blob, ∃ verdict, resumer run blob = .result verdict

section Again

variable {place : Place} {machine later after : Machine}

/-! ## What was opened -/

/-- A directory in a directory that is reached can be listed, or is not there. -/
theorem Disk.names_cases_of_isReached {disk : Disk} {directory : Path} {name : String}
    (reached : disk.IsReached directory) (free : disk.isFile (directory ++ [name]) = false) :
    (∃ names, disk.names (directory ++ [name]) = .ok names) ∨
      disk.names (directory ++ [name]) = .error .notFound := by
  have absent : disk.missing (directory ++ [name]) = .notFound := by
    refine missing_eq_notFound ?_
    rw [List.dropLast_concat]
    exact reached.isFree
  unfold names
  unfold isFile at free
  cases stands : disk.at? (directory ++ [name]) with
  | none => exact .inr (congrArg Except.error absent)
  | some entry =>
      cases entry with
      | directory => exact .inl ⟨_, rfl⟩
      | file content =>
          rw [stands] at free
          cases free

/-- Where no file is in the way, the nodes of a run can be listed. -/
theorem NodeStore.readAll_of_isReached (reached : machine.disk.IsReached place.path) {hint : Hint}
    (free : hint.storageKind = .immediate →
      machine.disk.isFile (place.join directoryName).path = false) :
    ∃ loaded, (ofRun machine.disk place hint).readAll machine = .ok loaded machine := by
  cases kind : hint.storageKind with
  | immediate =>
      have clear := free kind
      rw [path_nodeDirectory] at clear
      rw [ofRun, kind, openImmediate, readAll, Machine.get_bind, path_nodeDirectory]
      rcases Disk.names_cases_of_isReached reached clear with ⟨names, listed⟩ | missing
      · rw [listed]
        exact ⟨_, rfl⟩
      · rw [missing]
        exact ⟨_, rfl⟩
  | batched =>
      simp only [ofRun, kind, openBatched]
      split
      · split
        · exact ⟨_, rfl⟩
        · exact ⟨_, rfl⟩
      · exact ⟨_, rfl⟩

/-- Where the nodes of a run were listed, no file is in the way. -/
theorem NodeStore.isFile_eq_false_of_readAll {hint : Hint} {loaded : StoredNodes}
    (listed : (ofRun machine.disk place hint).readAll machine = .ok loaded machine)
    (immediate : hint.storageKind = .immediate) :
    machine.disk.isFile (place.join directoryName).path = false := by
  rw [ofRun, immediate, openImmediate, readAll, Machine.get_bind] at listed
  rw [← Bool.not_eq_true, Disk.isFile_iff]
  rintro ⟨content, stands⟩
  rw [Disk.names, stands] at listed
  cases listed

/-- What is known of a run that was opened, whatever its directory holds. -/
structure Run.IsOpened (place : Place) (disk : Disk) (run : Run) : Prop where
  place_eq : run.place = place
  unfailed : run.storageFault = none
  rooted : run.graph.IsRooted
  version_lt : run.record.version < UInt32.size
  free : run.record.hint.storageKind = .immediate →
    disk.isFile (place.join directoryName).path = false

theorem Run.isOpened {run : Run} {report : OpeningReport}
    (opens : openReporting place machine = .ok (run, report) machine) :
    run.IsOpened place machine.disk := by
  cases found : machine.disk.readJson (RunFiles.recordFile place).path Record.ofJson? with
  | error fault =>
      have unread : RunFiles.readRecord place machine = .error fault.toError machine := by
        rw [RunFiles.readRecord, Machine.readJson_eq, found]
      simp only [openReporting, bind, EStateM.bind, unread] at opens
      cases opens
  | ok record =>
      have read := RunFiles.readRecord_eq_ok_of_found found
      rcases readAll_cases (NodeStore.ofRun machine.disk place record.hint) machine with
        ⟨loaded, listed⟩ | ⟨error, unlisted⟩
      · cases (openReporting_of_reads read listed).symm.trans opens
        constructor
        case place_eq => rfl
        case unfailed => rfl
        case rooted =>
          have regained : (restored place record (NodeStore.ofRun machine.disk place record.hint)
              loaded.nodes (continuation? (RunFiles.checkpointOn machine.disk place))).graph =
              Graph.regain (.ofList loaded.nodes) record.heads := by
            simp only [restored, Graph.regain, Graph.ofParts, NodeTable.ofList_nodes]
          rw [regained]
          exact Graph.isRooted_regain _ _
        case version_lt =>
          obtain ⟨content, -, told⟩ := Disk.content_of_readJson found
          obtain ⟨value, -, read⟩ := Option.bind_eq_some_iff.1 told
          exact Record.version_lt_of_ofJson? read
        case free => exact NodeStore.isFile_eq_false_of_readAll listed
      · rw [openReporting, Machine.bind_of_ok read, Machine.get_bind] at opens
        simp only [bind, EStateM.bind, unlisted] at opens
        cases opens

/-- **A run that was archived is opened as complete**, in a directory that is reached. -/
theorem Run.IsArchivedOn.opens {run : Run} (archived : run.IsArchivedOn later.disk)
    (rooted : run.graph.IsRooted) (fits : run.graph.Fits)
    (small : run.record.version < UInt32.size) (reached : later.disk.IsReached run.place.path)
    (free : run.record.hint.storageKind = .immediate →
      later.disk.isFile (run.place.join directoryName).path = false) :
    ∃ closed found, openReporting run.place later = .ok (closed, found) later ∧
      closed.phase.isComplete = true := by
  obtain ⟨record, stands, complete, heads, hint, version⟩ := archived
  have storable : record.Storable := by
    constructor
    case version_lt => exact version ▸ small
    case heads =>
      intro head inside
      exact Nat.lt_of_lt_of_le (rooted.heads_lt (heads ▸ inside)) fits
  have found := Disk.readJson_eq_ok stands (Record.isOrdinary_toJson storable)
    (Record.ofJson?_toJson storable)
  obtain ⟨loaded, listed⟩ := NodeStore.readAll_of_isReached reached (hint ▸ free)
  have opens := openReporting_of_reads (RunFiles.readRecord_eq_ok_of_found found) listed
  exact ⟨_, _, opens, (Phase.isComplete_ofRecord record).trans complete⟩

/-- What a run is archived on can be told from within its directory. -/
theorem Run.IsArchivedOn.of_within {run : Run} {disk disk' : Disk}
    (archived : run.IsArchivedOn disk)
    (same : disk'.within run.place.path = disk.within run.place.path) : run.IsArchivedOn disk' := by
  obtain ⟨record, stands, told⟩ := archived
  refine ⟨record, ?_, told⟩
  rw [Disk.at?_of_within same (.inl (RunFiles.recordFile_isInside run.place).1)]
  exact stands

/-! ## Taking on -/

/-- How a second report on a directory goes with the first: a run that was closed is skipped as
complete, and of any other the same is reported.  If it was resumed then the resumer was called, and
is called with the same. -/
structure RecoveryReport.IsRepeatedBy (report again : RecoveryReport) : Prop where
  place_eq : again.place = report.place
  failed : ∀ reason, report.outcome = .failed reason →
    again.outcome = .skipped .alreadyComplete ∧ again.call = none
  other : (∀ reason, report.outcome ≠ .failed reason) → again = report
  handed : report.outcome = .resumed → ∃ call, report.call = some call ∧ again.call = some call

/-- The run that is reported on remembers no write that failed. -/
def RecoveryReport.IsUnfailed (report : RecoveryReport) : Prop :=
  ∀ run, report.run = some run → run.storageFault = none

theorem RecoveryReport.IsUnfailed.of_none {report : RecoveryReport} (none : report.run = none) :
    report.IsUnfailed := by
  intro run same
  cases none.symm.trans same

theorem RecoveryReport.IsUnfailed.of_some {report : RecoveryReport} {run : Run}
    (stands : report.run = some run) (unfailed : run.storageFault = none) : report.IsUnfailed := by
  intro other same
  cases stands.symm.trans same
  exact unfailed

/-- If a run was closed then its nodes can be numbered in 64 bits. -/
def RecoveryReport.Fits (report : RecoveryReport) : Prop :=
  ∀ reason run, report.outcome = .failed reason → report.run = some run → run.graph.Fits

namespace Coordinator

variable {coordinator judge : Coordinator}

/-- A run that is handed to a silent resumer changes in its phase at most. -/
theorem handOver_silent {resumer : Resumer} (silent : resumer.IsSilent) (run : Run) (blob : Bytes) :
    ∃ call obstacle phase, phase.isComplete = run.phase.isComplete ∧ ∀ machine,
      handOver resumer blob { run, machine } =
        .ok (call, obstacle) { run := { run with phase }, machine } := by
  obtain ⟨verdict, gives⟩ := silent run.resuming blob
  obtain ⟨phase, same, complete⟩ := run.resuming_eq
  have runs (machine : Machine) : (resumer run.resuming blob).run { run := run.resuming, machine } =
      .ok (verdict, []) { run := run.resuming, machine } := by
    rw [gives]
    rfl
  let call : ResumeCall :=
    { runId := run.resuming.runId, phase := run.resuming.phase, blob, replies := [] }
  cases verdict with
  | ok =>
      obtain ⟨phase', same', complete'⟩ := run.resuming.resumed_eq
      have left : run.resuming.resumed = { run with phase := phase' } := by
        rw [same', same]
      refine ⟨call, none, phase', ?_, fun machine => ?_⟩
      · rw [complete', same, complete]
      · rw [← left]
        refine bind_eq_ok.2 ⟨(), _, rfl, bind_eq_ok.2 ⟨_, _, rfl, ?_⟩⟩
        exact bind_eq_ok.2 ⟨_, _, runs machine, rfl⟩
  | error reason =>
      refine ⟨call, some (.continuation (.rejected reason)), phase, complete, fun machine => ?_⟩
      rw [← same]
      refine bind_eq_ok.2 ⟨(), _, rfl, bind_eq_ok.2 ⟨_, _, rfl, ?_⟩⟩
      exact bind_eq_ok.2 ⟨_, _, runs machine, rfl⟩

/-- A run whose record allows for it does not go on if its directory does not. -/
theorem resume_of_obstacle {report : OpeningReport} {run : Run} {obstacle : Obstacle}
    (fit : run.record.obstacle? coordinator.termination = none)
    (found : report.obstacle? run.record run.checkpoint = some obstacle) (machine : Machine) :
    coordinator.resume report { run, machine } = .ok (none, some obstacle) { run, machine } := by
  refine bind_eq_ok.2 ⟨run, _, rfl, ?_⟩
  simp only [fit, found]
  rfl

/-- What a silent resumer makes of a run is the same on every machine, and no machine is changed. -/
theorem resume_silent (silent : coordinator.resumer.IsSilent) (report : OpeningReport) (run : Run) :
    ∃ call obstacle phase, (obstacle = none → call ≠ none) ∧
      phase.isComplete = run.phase.isComplete ∧ ∀ machine,
        coordinator.resume report { run, machine } =
          .ok (call, obstacle) { run := { run with phase }, machine } := by
  cases first : run.record.obstacle? coordinator.termination with
  | some obstacle =>
      refine ⟨none, some obstacle, run.phase, nofun, rfl, fun machine => ?_⟩
      refine bind_eq_ok.2 ⟨run, _, rfl, ?_⟩
      rw [first]
      rfl
  | none =>
      cases second : report.obstacle? run.record run.checkpoint with
      | some obstacle =>
          exact ⟨none, some obstacle, run.phase, nofun, rfl, resume_of_obstacle first second⟩
      | none =>
          rcases Option.eq_none_or_eq_some run.checkpoint with continued | ⟨checkpoint, continued⟩
          · refine ⟨none, some .noCheckpoint, run.phase, nofun, rfl, fun machine => ?_⟩
            refine bind_eq_ok.2 ⟨run, _, rfl, ?_⟩
            simp only [first, second]
            conv_lhs => simp only [continued]
            rfl
          · obtain ⟨call, obstacle, phase, complete, hands⟩ :=
              handOver_silent silent run checkpoint.blob
            refine ⟨some call, obstacle, phase, nofun, complete, fun machine => ?_⟩
            refine bind_eq_ok.2 ⟨run, _, rfl, ?_⟩
            simp only [first, second]
            conv_lhs => simp only [continued]
            exact bind_eq_ok.2 ⟨_, _, hands machine, rfl⟩

/-- How a run is taken on if the resumer is silent. -/
inductive TakesOn (coordinator : Coordinator) (place : Place) (machine : Machine) :
    RecoveryReport → Machine → Prop
  | unopened {error : Error} (fails : openReporting place machine = .error error machine) :
      TakesOn coordinator place machine
        { place, runId := directoryNameOf place, outcome := .skipped (.unopenable error)
          run := none, call := none }
        { machine with released := machine.released ++ [directoryNameOf place] }
  | complete {run : Run} {found : OpeningReport}
      (opens : openReporting place machine = .ok (run, found) machine)
      (ended : run.phase.isComplete = true) :
      TakesOn coordinator place machine
        { place, runId := run.runId, outcome := .skipped .alreadyComplete, run := some run
          call := none } machine
  | resumed {run left : Run} {found : OpeningReport} {call : ResumeCall}
      (opens : openReporting place machine = .ok (run, found) machine)
      (running : run.phase.isComplete = false) (unfailed : left.storageFault = none)
      (resumes : ∀ machine, coordinator.resume found { run, machine } =
        .ok (some call, none) { run := left, machine }) :
      TakesOn coordinator place machine
        { place, runId := run.runId, outcome := .resumed, run := some left, call := some call }
        machine
  | failed {run closed : Run} {phase : Phase} {found : OpeningReport} {call : Option ResumeCall}
      {obstacle : Obstacle} {after : Machine}
      (opens : openReporting place machine = .ok (run, found) machine)
      (running : phase.isComplete = false)
      (closes : fail (closing run obstacle).message { run := { run with phase }, machine } =
        .ok () { run := closed, machine := after }) :
      TakesOn coordinator place machine
        { place, runId := run.runId, outcome := .failed (closing run obstacle), run := some closed
          call } after

/-- Every directory is taken on in one of these ways. -/
theorem takeOn_takesOn (silent : coordinator.resumer.IsSilent) (place : Place) (machine : Machine) :
    ∃ report after, coordinator.takeOn place (directoryNameOf place) machine = .ok report after ∧
      coordinator.TakesOn place machine report after := by
  rcases openReporting_cases place machine with ⟨run, loaded, opens, -⟩ | ⟨error, unopened⟩
  · have taken := takeOn_eq coordinator opens (directoryNameOf place)
    have opened := Run.isOpened opens
    cases complete : run.phase.isComplete with
    | true =>
        rw [complete, if_pos rfl] at taken
        exact ⟨_, _, taken, .complete opens complete⟩
    | false =>
        rw [complete] at taken
        obtain ⟨call, obstacle, phase, called, running, resumes⟩ := resume_silent silent
          (.ofParts run.record loaded (RunFiles.checkpointOn machine.disk place)) run
        cases obstacle with
        | none =>
            obtain ⟨call, rfl⟩ := Option.ne_none_iff_exists'.1 (called rfl)
            rw [settle_eq_of_none (resumes machine)] at taken
            exact ⟨_, _, taken, .resumed opens complete opened.unfailed resumes⟩
        | some obstacle =>
            obtain ⟨closed, after, closes, settles⟩ := settle_eq_of_obstacle (resumes machine)
            rw [settles] at taken
            exact ⟨_, _, taken, .failed opens (running.trans complete) closes⟩
  · exact ⟨_, _, takeOn_eq_of_error coordinator unopened _, .unopened unopened⟩

/-- A run that was closed is found complete. -/
theorem opens_of_closed {run closed : Run} {phase : Phase} {found : OpeningReport} {reason : String}
    (opens : openReporting place machine = .ok (run, found) machine)
    (reached : machine.disk.IsReached place.path) (plain : place.HasPlainNames machine.disk)
    (running : phase.isComplete = false)
    (closes : fail reason { run := { run with phase }, machine } =
      .ok () { run := closed, machine := after })
    (unfailed : closed.storageFault = none) (fits : closed.graph.Fits)
    (same : later.disk.within place.path = after.disk.within place.path) :
    ∃ again found, openReporting place later = .ok (again, found) later ∧
      again.phase.isComplete = true := by
  have opened := Run.isOpened opens
  have isAt : run.IsAt place := (opens_alone opens rfl plain).1
  -- The run is closed in its directory, which therefore still stands.
  let live : LiveRun := { run := { run with phase }, machine }
  obtain ⟨outcome, left, _, done, -, leaves⟩ := fail_local reason live live
    ⟨⟨isAt.place_eq, isAt.store⟩, reached⟩ ⟨rfl, .refl place.path machine⟩
  obtain rfl : { run := closed, machine := after } = left := by
    cases (Yields.attempt_eq_ok.2 closes).symm.trans done
    rfl
  have archives : EndsIn (fail reason) live fun after =>
      ∃ graph, graph.IsRooted ∧ Closes graph live after :=
    fail_archives opened.rooted running opened.unfailed reason
  rw [EndsIn, Ends, closes] at archives
  obtain ⟨graph, rooted, closed'⟩ := archives
  obtain ⟨stays, archived⟩ := closed'.archived unfailed
  obtain rfl : closed.graph = graph := stays.graph_eq
  obtain rfl : closed.place = place := stays.place_eq.trans opened.place_eq
  refine (archived.of_within same).opens rooted fits ?_ ?_ ?_
  · rw [stays.version_eq]
    exact opened.version_lt
  · exact leaves.isAt.reached.of_within same
  · intro immediate
    have near : closed.place.path <+: (closed.place.join directoryName).path := by
      rw [NodeStore.path_nodeDirectory]
      exact List.prefix_append ..
    rw [Disk.isFile, Disk.at?_of_within same (.inl near)]
    exact leaves.changes.nodes (opened.free (stays.hint_eq ▸ immediate))

/-- **A directory that was taken on is taken on again** without a change, and comes to the same, but
for a run that was closed, which is complete now. -/
theorem TakesOn.again {report : RecoveryReport}
    (takes : coordinator.TakesOn place machine report after) (alike : coordinator.JudgesAs judge)
    (reached : machine.disk.IsReached place.path) (plain : place.HasPlainNames machine.disk)
    (unfailed : report.IsUnfailed) (fits : report.Fits)
    (same : later.disk.within place.path = after.disk.within place.path) :
    ∃ again released, judge.takeOn place (directoryNameOf place) later =
        .ok again { later with released } ∧ report.IsRepeatedBy again := by
  cases takes with
  | unopened fails =>
      have failsAgain := fails_alone fails same plain
      exact ⟨_, _, takeOn_eq_of_error judge failsAgain _, rfl, nofun, fun _ => rfl, nofun⟩
  | complete opens ended =>
      obtain ⟨-, opensAgain⟩ := opens_alone opens same plain
      have taken := takeOn_eq judge opensAgain (directoryNameOf place)
      rw [ended, if_pos rfl] at taken
      exact ⟨_, _, taken, rfl, nofun, fun _ => rfl, nofun⟩
  | resumed opens running _ resumes =>
      obtain ⟨-, opensAgain⟩ := opens_alone opens same plain
      have taken := takeOn_eq judge opensAgain (directoryNameOf place)
      rw [running, alike.settle_eq, settle_eq_of_none (resumes later)] at taken
      exact ⟨_, _, taken, rfl, nofun, fun _ => rfl, fun _ => ⟨_, rfl, rfl⟩⟩
  | failed opens running closes =>
      obtain ⟨again, found, opens', complete⟩ := opens_of_closed opens reached plain running closes
        (unfailed _ rfl) (fits _ _ rfl rfl) same
      have taken := takeOn_eq judge opens' (directoryNameOf place)
      rw [complete, if_pos rfl] at taken
      exact ⟨_, _, taken, rfl, fun _ _ => ⟨rfl, rfl⟩, fun other => absurd rfl (other _), nofun⟩

/-! ## What was not made -/

/-- What reports on what was done from one machine to another tell: where no run remembers a write
that failed, none did. -/
structure Tells (reports : List RecoveryReport) (before after : Machine) : Prop where
  machine : before.FallsShort 0 after
  told : (∀ report ∈ reports, report.IsUnfailed) ∨ before.FallsShort 1 after

namespace Tells

variable {first second : List RecoveryReport} {before between : Machine} {report : RecoveryReport}

theorem nil (machine : Machine) : Tells [] machine machine :=
  ⟨.refl machine, .inl fun _ inside => nomatch inside⟩

theorem one (machine : before.FallsShort 0 after) (unfailed : report.IsUnfailed) :
    Tells [report] before after :=
  ⟨machine, .inl fun _ inside => List.mem_singleton.1 inside ▸ unfailed⟩

theorem append (early : Tells first before between) (late : Tells second between after) :
    Tells (first ++ second) before after := by
  refine ⟨early.machine.zero_trans late.machine, ?_⟩
  rcases early.told with unfailed | short
  · rcases late.told with unfailed' | short'
    · left
      intro report inside
      exact (List.mem_append.1 inside).elim (unfailed report) (unfailed' report)
    · exact .inr (early.machine.zero_trans short')
  · exact .inr (short.trans late.machine)

theorem unfailed (tells : Tells first before after) (made : before.MadeAll after) :
    ∀ report ∈ first, report.IsUnfailed :=
  tells.told.resolve_right made.not_fallsShort

end Tells

theorem TakesOn.tells {report : RecoveryReport}
    (takes : coordinator.TakesOn place machine report after) : Tells [report] machine after := by
  cases takes with
  | unopened fails => exact .one ((Machine.FallsShort.refl machine).release _) (.of_none rfl)
  | complete opens ended =>
      exact .one (.refl machine) (.of_some rfl (Run.isOpened opens).unfailed)
  | resumed opens running unfailed resumes =>
      exact .one (.refl machine) (.of_some rfl unfailed)
  | @failed run closed phase _ _ obstacle _ opens running closes =>
      have opened := Run.isOpened opens
      let live : LiveRun := { run := { run with phase }, machine }
      have archives : EndsIn (fail (closing run obstacle).message) live fun after =>
          ∃ graph, graph.IsRooted ∧ Closes graph live after :=
        fail_archives opened.rooted running opened.unfailed _
      rw [EndsIn, Ends, closes] at archives
      obtain ⟨graph, -, closed'⟩ := archives
      rcases closed'.told with unfailed | short
      · exact .one closed'.machine (.of_some rfl unfailed)
      · exact ⟨closed'.machine, .inr short⟩

/-- What is reported on one directory tells what was not made. -/
theorem recoverRun_tells {kept : Coordinator} {report : RecoveryReport}
    (silent : coordinator.resumer.IsSilent)
    (recovers : coordinator.recoverRun place machine = .ok (report, kept) after) :
    Tells [report] machine after ∧ kept.resumer = coordinator.resumer := by
  by_cases claimed : place.path ∈ coordinator.claimed
  · cases (recoverRun_eq_of_claimed claimed machine).symm.trans recovers
    exact ⟨.one (.refl machine) (.of_none rfl), rfl⟩
  · obtain ⟨report', after', takes, how⟩ := takeOn_takesOn silent place machine
    cases (recoverRun_eq_takeOn claimed takes).symm.trans recovers
    exact ⟨how.tells, rfl⟩

/-- What is reported on directories tells what was not made. -/
theorem recoverEach_tells {asked : List Place} {kept : Coordinator} {reports : List RecoveryReport}
    (silent : coordinator.resumer.IsSilent)
    (recovers : coordinator.recoverEach asked machine = .ok (reports, kept) after) :
    Tells reports machine after := by
  induction asked generalizing coordinator machine reports with
  | nil =>
      cases recovers
      exact .nil _
  | cons place rest ih =>
      obtain ⟨⟨report, next⟩, between, first, rest'⟩ := bind_eq_ok.1 recovers
      obtain ⟨⟨others, last⟩, left, later, done⟩ := bind_eq_ok.1 rest'
      cases done
      obtain ⟨early, same⟩ := recoverRun_tells silent first
      exact early.append (ih (same ▸ silent) later)

/-! ## The second recovery -/

/-- A directory that was reported on comes to the same on a disk, which is not changed. -/
def IsRepeated (coordinator : Coordinator) (disk : Disk) (report : RecoveryReport) : Prop :=
  ∀ (judge : Coordinator) (later : Machine), coordinator.JudgesAs judge → later.disk = disk →
    ∃ again released, judge.takeOn report.place (directoryNameOf report.place) later =
      .ok again { later with released } ∧ report.IsRepeatedBy again

/-- A directory that was taken on as if it were alone is taken on again without a change. -/
theorem IsAsAlone.isRepeated {times : List Instant} {report : RecoveryReport} {left : Disk}
    (alone : coordinator.IsAsAlone machine times report.place report left)
    (fresh : coordinator.claimed = []) (silent : coordinator.resumer.IsSilent)
    (reached : machine.disk.IsReached report.place.path)
    (plain : report.place.HasPlainNames machine.disk) (unfailed : report.IsUnfailed)
    (fits : report.Fits) : coordinator.IsRepeated left report := by
  obtain ⟨refusals, now, -, -, recovers⟩ := alone
  obtain ⟨kept, after, recovers, same⟩ :=
    recovers coordinator { machine with refusals, now } ⟨rfl, rfl⟩ fresh rfl rfl rfl
  obtain ⟨report', after', takes, how⟩ :=
    takeOn_takesOn silent report.place { machine with refusals, now }
  have unclaimed : report.place.path ∉ coordinator.claimed := by
    rw [fresh]
    exact List.not_mem_nil
  cases (recoverRun_eq_takeOn unclaimed takes).symm.trans recovers
  intro judge later alike stands
  exact how.again alike reached plain unfailed fits (stands ▸ same)

/-- Directories that were reported on are taken on again without a change. -/
theorem recoverEach_again {reports : List RecoveryReport}
    (repeated : ∀ report ∈ reports, coordinator.IsRepeated later.disk report)
    (alike : coordinator.JudgesAs judge)
    (apart : reports.Pairwise fun a b => a.place.path ≠ b.place.path)
    (unclaimed : ∀ report ∈ reports, report.place.path ∉ judge.claimed) :
    ∃ again kept released, judge.recoverEach (reports.map (·.place)) later =
        .ok (again, kept) { later with released } ∧
      List.Forall₂ RecoveryReport.IsRepeatedBy reports again := by
  induction reports generalizing judge later with
  | nil => exact ⟨[], judge, later.released, rfl, .nil⟩
  | cons report rest ih =>
      obtain ⟨others, apart⟩ := List.pairwise_cons.1 apart
      obtain ⟨first, released, takes, same⟩ :=
        repeated report List.mem_cons_self judge later alike rfl
      have recovers := recoverRun_eq_takeOn (unclaimed report List.mem_cons_self) takes
      let next : Coordinator := { judge with claimed := report.place.path :: judge.claimed }
      have alike' : coordinator.JudgesAs next := ⟨alike.termination, alike.resumer⟩
      have repeated' : ∀ other ∈ rest,
          coordinator.IsRepeated { later with released }.disk other :=
        fun other inside => repeated other (List.mem_cons_of_mem _ inside)
      have unclaimed' : ∀ other ∈ rest, other.place.path ∉ next.claimed := by
        intro other inside
        simp only [next, List.mem_cons, not_or]
        exact ⟨(others other inside).symm, unclaimed other (List.mem_cons_of_mem _ inside)⟩
      obtain ⟨again, kept, released, each, repeats⟩ := ih repeated' alike' apart unclaimed'
      refine ⟨first :: again, kept, released, ?_, .cons same repeats⟩
      exact bind_eq_ok.2 ⟨_, _, recovers, bind_eq_ok.2 ⟨_, _, each, rfl⟩⟩

theorem recoverAll_eq_error {fault : DiskFault}
    (unlisted : listRuns machine.disk coordinator.root = .error fault) :
    coordinator.recoverAll machine = .error (.disk fault) machine := by
  rw [recoverAll, Machine.get_bind, unlisted]
  rfl

/-- Of the reports on all runs, each is on a directory of its own, and as if it were alone. -/
theorem Answers.each {places : List Place} {times : List Instant} {kept : Coordinator}
    {reports : List RecoveryReport} (lists : Lists coordinator.root machine places)
    (fresh : coordinator.claimed = [])
    (answers : Answers coordinator machine times places places machine.disk reports kept
      after.disk) :
    (reports.Pairwise fun a b => a.place.path ≠ b.place.path) ∧
    ∀ report ∈ reports, report.place ∈ places ∧
      coordinator.IsAsAlone machine times report.place report after.disk := by
  have apart : reports.Pairwise fun a b => a.place.path ≠ b.place.path := by
    have ascending := listRuns_ascending lists.tree lists.listed
    rw [← answers.places_eq, List.pairwise_map] at ascending
    refine ascending.imp fun less same => ?_
    rw [same] at less
    exact List.lt_irrefl _ less
  refine ⟨apart, fun report inside => ?_⟩
  have listed : report.place ∈ places := answers.places_eq ▸ List.mem_map_of_mem inside
  have unclaimed : report.place.path ∉ coordinator.claimed := by
    rw [fresh]
    exact List.not_mem_nil
  obtain ⟨first, found, alone⟩ := answers.once report.place listed listed unclaimed
  have among : first ∈ RecoveryReport.firstOf report.place reports := by
    rw [found]
    exact List.mem_singleton_self first
  obtain ⟨inside', there⟩ := List.mem_filter.1 among
  have nodup : (reports.map (·.place.path)).Nodup := List.pairwise_map.2 apart
  have same : first = report := List.inj_on_of_nodup_map nodup inside' inside
    (congrArg Place.path (of_decide_eq_true there).1)
  exact ⟨listed, same ▸ alone⟩

/-- **A second recovery changes nothing**, if every change was made that the first asked for: so the
machine tells, or no run remembers a failure.  Every run that was closed is skipped as complete; on
every other the same is reported, and a resumer that is called for it is called with the same.
Where the first could not list the directories, the second cannot. -/
theorem second_recovery_changes_nothing (tree : machine.disk.IsTree)
    (fresh : coordinator.claimed = []) (silent : coordinator.resumer.IsSilent)
    (alike : coordinator.JudgesAs judge) (root : judge.root = coordinator.root)
    (fresh' : judge.claimed = []) (disk : later.disk = after.disk) :
    (∀ error, coordinator.recoverAll machine = .error error after →
      after = machine ∧ judge.recoverAll later = .error error later) ∧
    ∀ reports kept, coordinator.recoverAll machine = .ok (reports, kept) after →
      (machine.MadeAll after ∨ ∀ report ∈ reports, report.IsUnfailed) →
      (∀ report ∈ reports, report.Fits) →
      ∃ again kept released, judge.recoverAll later = .ok (again, kept) { later with released } ∧
        List.Forall₂ RecoveryReport.IsRepeatedBy reports again := by
  cases listed : listRuns machine.disk coordinator.root with
  | error fault =>
      have fails := recoverAll_eq_error listed
      refine ⟨fun error first => ?_, fun reports kept first => ?_⟩
      · cases fails.symm.trans first
        refine ⟨rfl, recoverAll_eq_error ?_⟩
        rw [disk, root, listed]
      · cases fails.symm.trans first
  | ok places =>
      have lists : Lists coordinator.root machine places := ⟨tree, listed⟩
      have begins : Underway coordinator machine places machine := .begins lists
      obtain ⟨reports, kept, after', recovers, answers, underway, -⟩ :=
        recoverEach_answers lists begins (List.mem_singleton_self machine.now) fun _ => id
      have all := (recoverAll_eq listed).trans recovers
      refine ⟨fun error first => ?_, fun reports' kept' first made fits => ?_⟩
      · cases all.symm.trans first
      · cases all.symm.trans first
        have unfailed : ∀ report ∈ reports, report.IsUnfailed :=
          made.elim (recoverEach_tells silent recovers).unfailed id
        obtain ⟨apart, alone⟩ := answers.each lists fresh
        have listed' : listRuns later.disk judge.root = .ok places := by
          have same : kept.root = coordinator.root := by rw [answers.kept_eq]
          rw [disk, root, ← same]
          exact underway.listed
        rw [recoverAll_eq listed', ← answers.places_eq]
        refine recoverEach_again (fun report inside => ?_) alike apart fun report _ => ?_
        · obtain ⟨here, as⟩ := alone report inside
          rw [disk]
          refine as.isRepeated fresh silent (begins.reached _ here) ?_ (unfailed report inside)
            (fits report inside)
          exact begins.plain lists here (fresh ▸ List.not_mem_nil)
        · rw [fresh']
          exact List.not_mem_nil

/-- A coordinator that accepts every run gives no command. -/
theorem accepting_isSilent : accepting.resumer.IsSilent := fun _ _ => ⟨_, rfl⟩

/-- The end of a flow, of which the start is lost. -/
def severedEnd : Node := { id := 2, kind := .flowEnd, name := flowEndName, parents := [1] }

/-- What is done to make two runs that were paused, of which one lacks its head. -/
def makingPausedRuns : List Change :=
  [.makeDirectories ["paused"],
    .write ["paused", "execution.json"] pausedRecord.toJson.pretty true,
    .write ["paused", "program.json"] pausedCheckpoint.toJson.pretty true,
    .write ["paused", "nodes", "1.json"] Graph.firstNode.toJson.pretty true,
    .makeDirectories ["severed"],
    .write ["severed", "execution.json"] pausedRecord.toJson.pretty true,
    .write ["severed", "nodes", "2.json"] severedEnd.toJson.pretty true]

/-- A machine with these runs, which is told that it makes the next eight changes. -/
def pausedRuns : Machine :=
  { disk := ⟨[(["paused"], .directory),
      (["paused", "execution.json"], .file pausedRecord.toJson.pretty),
      (["paused", "program.json"], .file pausedCheckpoint.toJson.pretty),
      (["paused", "nodes"], .directory),
      (["paused", "nodes", "1.json"], .file Graph.firstNode.toJson.pretty),
      (["severed"], .directory),
      (["severed", "execution.json"], .file pausedRecord.toJson.pretty),
      (["severed", "nodes"], .directory),
      (["severed", "nodes", "2.json"], .file severedEnd.toJson.pretty)]⟩
    refusals := List.replicate 8 false
    now := .sample }

theorem pausedRuns_isTree : pausedRuns.disk.IsTree := by
  have made : Disk.empty.replay makingPausedRuns = .ok pausedRuns.disk := rfl
  exact Disk.IsTree.empty.replay (by decide) made

/-- The records of both runs are read. -/
theorem pausedRuns_read (place : Place)
    (stands : pausedRuns.disk.at? (RunFiles.recordFile place).path =
      some (.file pausedRecord.toJson.pretty)) :
    RunFiles.readRecord place pausedRuns = .ok pausedRecord pausedRuns := by
  have storable : pausedRecord.Storable := ⟨by decide, by decide⟩
  exact RunFiles.readRecord_eq_ok_of_found (Disk.readJson_eq_ok stands
    (Record.isOrdinary_toJson storable) (Record.ofJson?_toJson storable))

/-- The run that has its head is resumed, which changes nothing. -/
theorem paused_resumed : ∃ report,
    accepting.recoverRun ⟨"paused", ["paused"]⟩ pausedRuns =
        .ok (report, { accepting with claimed := [["paused"]] }) pausedRuns ∧
      report.outcome = .resumed := by
  have read := pausedRuns_read ⟨"paused", ["paused"]⟩ (by decide +kernel)
  have listed : ∃ loaded, (NodeStore.ofRun pausedRuns.disk ⟨"paused", ["paused"]⟩
      pausedRecord.hint).readAll pausedRuns = .ok loaded pausedRuns ∧
      loaded.nodes = [Graph.firstNode] :=
    ⟨_, rfl, by decide +kernel⟩
  obtain ⟨loaded, listed, nodes⟩ := listed
  have resumable : Resumable pausedRecord .dirty loaded.nodes pausedRuns.disk
      ⟨"paused", ["paused"]⟩ pausedCheckpoint :=
    pausedRecord_resumable (by simp [nodes]) (by decide +kernel)
  obtain ⟨opened, report, after, -, recovers, decided⟩ :=
    accepting.recoverRun_of_reads read rfl listed List.not_mem_nil
  have accepted : report.outcome = .resumed := decided.resumed_iff.2 ⟨_, resumable, [], _, rfl⟩
  obtain ⟨report', after', takes, how⟩ :=
    takeOn_takesOn accepting_isSilent ⟨"paused", ["paused"]⟩ pausedRuns
  cases (recoverRun_eq_takeOn List.not_mem_nil takes).symm.trans recovers
  cases how with
  | resumed => exact ⟨_, recovers, rfl⟩
  | _ => cases accepted

/-- The run that lacks its head is closed. -/
theorem severed_closed (claimed : List Path) (unclaimed : ["severed"] ∉ claimed) :
    ∃ report kept after,
      { accepting with claimed }.recoverRun ⟨"severed", ["severed"]⟩ pausedRuns =
        .ok (report, kept) after ∧
      report.outcome = .failed (.unresumable "sample" (.headsMissing [1])) ∧
      pausedRuns.MadeAll after ∧ report.Fits := by
  have read := pausedRuns_read ⟨"severed", ["severed"]⟩ (by decide +kernel)
  have listed : ∃ loaded, (NodeStore.ofRun pausedRuns.disk ⟨"severed", ["severed"]⟩
      pausedRecord.hint).readAll pausedRuns = .ok loaded pausedRuns ∧
      loaded.nodes = [severedEnd] :=
    ⟨_, rfl, by decide +kernel⟩
  obtain ⟨loaded, listed, nodes⟩ := listed
  have opens := openReporting_of_reads read listed
  rw [nodes] at opens
  let opened := restored ⟨"severed", ["severed"]⟩ pausedRecord
    (.ofRun pausedRuns.disk ⟨"severed", ["severed"]⟩ pausedRecord.hint) [severedEnd]
    (continuation? (RunFiles.checkpointOn pausedRuns.disk ⟨"severed", ["severed"]⟩))
  have missing : (OpeningReport.ofParts pausedRecord loaded
      (RunFiles.checkpointOn pausedRuns.disk ⟨"severed", ["severed"]⟩)).obstacle? opened.record
        opened.checkpoint = some (.headsMissing [1]) := by
    simp only [OpeningReport.ofParts, nodes]
    rfl
  have fit : opened.record.obstacle? { accepting with claimed }.termination = none := rfl
  obtain ⟨run, after, closes, settles⟩ :=
    settle_eq_of_obstacle (resume_of_obstacle fit missing pausedRuns)
  have passed : Run.passes (fun _ left => decide (left.machine.refusals ≠ []) &&
        decide (left.machine.tally = pausedRuns.tally) && decide left.run.graph.Fits)
      (fail (closing opened (.headsMissing [1])).message
        { run := opened, machine := pausedRuns }) = true := by
    decide +kernel
  rw [closes] at passed
  simp only [passes, Bool.and_eq_true, decide_eq_true_eq] at passed
  obtain ⟨⟨told, made⟩, fits⟩ := passed
  refine ⟨_, _, after, recoverRun_eq_settle opens rfl unclaimed settles, rfl, ⟨told, made⟩, ?_⟩
  intro reason other _ same
  cases same
  exact fits

/-- Of two runs one is resumed and one is closed.  In the evening the first is resumed again, and
the second is complete. -/
theorem two_runs_recovered_again : ∃ reports kept after again kept' released,
    accepting.recoverAll pausedRuns = .ok (reports, kept) after ∧ pausedRuns.MadeAll after ∧
      reports.map (·.outcome) =
        [.resumed, .failed (.unresumable "sample" (.headsMissing [1]))] ∧
      accepting.recoverAll { after with now := .evening } =
        .ok (again, kept') { after with now := .evening, released } ∧
      List.Forall₂ RecoveryReport.IsRepeatedBy reports again := by
  have names : pausedRuns.disk.names accepting.root.path = .ok ["paused", "severed"] := rfl
  have sorted : (["paused", "severed"].mergeSort fun a b => decide (a ≤ b)) =
      ["paused", "severed"] := by
    simp [List.mergeSort]
  have listed : listRuns pausedRuns.disk accepting.root =
      .ok [⟨"paused", ["paused"]⟩, ⟨"severed", ["severed"]⟩] := by
    simp only [listRuns, names, sorted]
    rfl
  obtain ⟨first, recovers, resumed⟩ := paused_resumed
  obtain ⟨second, kept, after, recovers', failed, made, fits⟩ :=
    severed_closed [["paused"]] (by decide)
  have both : accepting.recoverAll pausedRuns = .ok ([first, second], kept) after :=
    (recoverAll_eq listed).trans (bind_eq_ok.2 ⟨_, _, recovers, bind_eq_ok.2 ⟨_, _,
      bind_eq_ok.2 ⟨_, _, recovers', rfl⟩, rfl⟩⟩)
  have fit : ∀ report ∈ [first, second], report.Fits := by
    intro report inside
    simp only [List.mem_cons, List.not_mem_nil, or_false] at inside
    rcases inside with rfl | rfl
    · intro reason run failed' _
      cases resumed.symm.trans failed'
    · exact fits
  let evening : Machine := { after with now := .evening }
  have disk : evening.disk = after.disk := rfl
  have changesNothing := second_recovery_changes_nothing pausedRuns_isTree rfl
    accepting_isSilent ⟨rfl, rfl⟩ rfl rfl disk
  obtain ⟨again, kept', released, recovers'', repeats⟩ :=
    changesNothing.2 [first, second] kept both (.inl made) fit
  refine ⟨_, kept, after, again, kept', released, both, made, ?_, recovers'', repeats⟩
  simp only [List.map_cons, List.map_nil, resumed, failed]

end Coordinator

end Again
end DurableRuns
