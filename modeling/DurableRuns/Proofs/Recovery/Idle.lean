/-
# DurableRuns.Proofs.Recovery.Idle -- a run that is opened and only kept, before it is recovered

A kill may leave a run whose record is not clean: something it did was lost.  A recovery closes
such a run.  But other processes may open the run first, and only keep it: flush it, pause it, shut
it down (`Idled`).  They change nothing of it but the record.

The recovery goes by the record that it finds.  So the run is closed as long as no command of
these processes had the record written at a safe point; and once one had, the run is taken up as
if nothing had been lost, from a continuation that was taken at the heads it was found with
(`Coordinator.resumed_after_idling_iff`).
-/
import DurableRuns.Proofs.Recovery.Deeds
import DurableRuns.Proofs.Run.Idling
import DurableRuns.Proofs.Run.LastSafePoint

namespace DurableRuns

set_option autoImplicit false

open Run RunM

/-- A process has opened a run on a disk and given it idle commands since.  The flag tells whether
the run was saved, by one of them or before. -/
inductive Idling (place : Place) (disk : Disk) (before : Bool) : LiveRun → Bool → Prop
  | opened {machine : Machine} {run : Run} (same : machine.disk = disk)
      (willing : ∀ refusal ∈ machine.refusals, refusal = false)
      (opens : openAt place machine = .ok run machine) :
      Idling place disk before { run, machine } before
  | command {live after : LiveRun} {saved : Bool} {command : Command} {now : Instant}
      {outcome : Except Error Reply} (idling : Idling place disk before live saved)
      (keeps : command.isIdle = true)
      (done : attempt command.perform (live.atTime now) = .ok outcome after) :
      Idling place disk before after (saved || command.saves live.run.phase)

/-- The disks that idle processes leave, one after the other, of what was found on a first one.
Each process is killed in the midst of a last command, after any of its changes; a command that
only looks makes none. -/
inductive Idled (place : Place) (first : Disk) : Disk → Bool → Prop
  | untouched : Idled place first first false
  | killed {earlier disk : Disk} {before saved : Bool} {live after : LiveRun} {command : Command}
      {now : Instant} {outcome : Except Error Reply} {changes : List Change} {k : Nat}
      (idled : Idled place first earlier before) (idling : Idling place earlier before live saved)
      (keeps : command.isIdle = true)
      (done : attempt command.perform (live.atTime now) = .ok outcome after)
      (log : after.machine.log = live.machine.log ++ changes)
      (cut : live.machine.disk.replay (changes.take k) = .ok disk) :
      Idled place first disk
        (saved || (decide (changes.length ≤ k) && command.saves live.run.phase))

/-- A run was found with a record in an orderly image. -/
structure Image.IsFound (found : Image) (first : Record) (bound : Nat) : Prop where
  recorded : found.record = some first
  orderly : found.IsOrderly first.hint bound
  small : bound ≤ UInt64.size

/-- A disk shows what was found, but for the record, of which idle commands have made another. -/
def Disk.IsIdle (place : Place) (found : Image) (first : Record) (saved : Bool) (disk : Disk) :
    Prop :=
  ∃ record : Record,
    Shows disk place first.hint.storageKind { found with record := some record } ∧
      record.IsIdle first found.nodes saved

section Idle

variable {place : Place} {found : Image} {first record : Record} {bound : Nat}
  {before saved : Bool} {live : LiveRun} {disk : Disk} {machine : Machine}

/-! ## What idle processes preserve -/

namespace Image.IsFound

/-- A run that is not clean and has not ended is found as it is. -/
theorem isIdle (isFound : found.IsFound first bound) (unclean : first.clean ≠ .clean)
    (unfinished : first.isComplete = false)
    (shows : Shows disk place first.hint.storageKind found) :
    disk.IsIdle place found first false := by
  refine ⟨first, ?_, ⟨rfl, rfl, rfl, by simpa using unclean, unfinished⟩⟩
  rw [← isFound.recorded]
  exact shows

/-- What idle commands have made of an image can be read back. -/
theorem storable (isFound : found.IsFound first bound) (idle : record.IsIdle first found.nodes saved) :
    Image.Storable { found with record := some record } := by
  have below := isFound.orderly.record first isFound.recorded
  have readable := isFound.orderly.storable isFound.small
  constructor
  case record =>
    intro other same
    obtain rfl := Option.some.inj same
    refine ⟨idle.version_eq ▸ below.version_lt, fun head inside => ?_⟩
    refine Nat.lt_of_lt_of_le ?_ isFound.small
    rw [idle.heads_eq] at inside
    cases saved with
    | false => exact below.heads_lt head inside
    | true =>
        have stored := (Graph.heads_regain_spec found.nodes below.heads_nodup).2 head inside
        obtain ⟨node, there⟩ := (found.nodes.contains_iff head).1 stored
        exact NodeTable.get?_id there ▸ (isFound.orderly.nodes head node there).id_lt
  case nodes => exact readable.nodes
  case checkpoint => exact readable.checkpoint

/-- The heads that a run goes on from are the same before and after it was saved. -/
theorem heads_eq (isFound : found.IsFound first bound)
    (idle : record.IsIdle first found.nodes saved) :
    (Graph.regain found.nodes record.heads).heads = (Graph.regain found.nodes first.heads).heads := by
  rw [idle.heads_eq]
  cases saved with
  | false => rfl
  | true =>
      exact Graph.heads_regain_again isFound.orderly.nodes
        (isFound.orderly.record first isFound.recorded).heads_nodup

/-- An idle disk is opened with what was found, but for the record. -/
theorem opens (isFound : found.IsFound first bound) (idle : record.IsIdle first found.nodes saved)
    (shows : Shows machine.disk place first.hint.storageKind { found with record := some record }) :
    openAt place machine = .ok (ofImage place record found.nodes found.checkpoint) machine := by
  rw [← idle.hint_eq] at shows
  have opened := openAt_eq shows rfl (isFound.storable idle)
  exact opened

end Image.IsFound

/-- A run is found as processes left it. -/
theorem Left.isFound {left : Machine} {opened : Run} (leaves : Left place left.disk)
    (opens : openAt place left = .ok opened left) (unclean : opened.record.clean ≠ .clean)
    (running : opened.phase.isComplete = false) :
    ∃ image record bound, image.IsFound record bound ∧
      left.disk.IsIdle place image record false ∧ opened.hint = record.hint ∧
      opened.checkpoint = image.checkpoint ∧
      opened.graph.heads = (Graph.regain image.nodes record.heads).heads := by
  obtain ⟨report, reports⟩ := openAt_eq_ok_iff.1 opens
  obtain ⟨record, image, bound, small, shows, orderly, recorded, rfl, -⟩ :=
    leaves.remains.opens reports
  have isFound : image.IsFound record bound := ⟨recorded, orderly, small⟩
  have unfinished : record.isComplete = false :=
    (Phase.isComplete_ofRecord record).symm.trans running
  exact ⟨image, record, bound, isFound, isFound.isIdle unclean unfinished shows, rfl, rfl, rfl⟩

/-- A run that is opened on an idle disk is idle. -/
theorem Disk.IsIdle.opened (idle : machine.disk.IsIdle place found first saved)
    (isFound : found.IsFound first bound)
    (willing : ∀ refusal ∈ machine.refusals, refusal = false) {run : Run}
    (opens : openAt place machine = .ok run machine) :
    LiveRun.IsIdle place found first saved { run, machine } := by
  obtain ⟨record, shows, idle⟩ := idle
  cases (isFound.opens idle shows).symm.trans opens
  constructor
  case place_eq => rfl
  case hint_eq => exact idle.hint_eq
  case flushed =>
    rw [← idle.hint_eq] at shows
    exact ⟨willing, shows, rfl, rfl, rfl⟩
  case record => exact idle
  case heads_eq => exact isFound.heads_eq idle
  case flag_eq => rfl
  case phase_eq => rfl

/-- The disk of an idle run is idle. -/
theorem LiveRun.IsIdle.shown (idle : live.IsIdle place found first saved) :
    live.machine.disk.IsIdle place found first saved := by
  have shows := idle.flushed.shows
  rw [idle.place_eq, idle.hint_eq] at shows
  exact ⟨live.run.record, shows, idle.record⟩

theorem Idling.isIdle (idling : Idling place disk before live saved)
    (isFound : found.IsFound first bound) (idle : disk.IsIdle place found first before) :
    live.IsIdle place found first saved := by
  induction idling with
  | opened same willing opens =>
      subst same
      exact idle.opened isFound willing opens
  | command idling keeps done ih => exact ((ih.atTime _).performs keeps done).1

/-- **What idle processes leave is idle**, wherever they were killed. -/
theorem Idled.isIdle {last : Disk} (idled : Idled place disk last saved)
    (isFound : found.IsFound first bound) (idle : disk.IsIdle place found first false) :
    last.IsIdle place found first saved := by
  induction idled with
  | untouched => exact idle
  | @killed _ _ _ saved live after _ now _ changes k _ idling keeps done log cut ih =>
      have before := idling.isIdle isFound ih
      obtain ⟨stays, last⟩ := (before.atTime now).performs keeps done
      rcases last.cut log cut with ⟨short, shows⟩ | ⟨long, rfl⟩
      -- The record was not written yet.
      · rw [decide_eq_false (Nat.not_le.2 short), Bool.false_and, Bool.or_false]
        exact ⟨live.run.record, shows, before.record⟩
      · rw [decide_eq_true long, Bool.true_and]
        exact stays.shown

/-- A process may open what was left, give an idle command and be killed after it. -/
theorem Idled.next {run : Run} {command : Command} (idled : Idled place disk machine.disk saved)
    (isFound : found.IsFound first bound) (idle : machine.disk.IsIdle place found first saved)
    (willing : ∀ refusal ∈ machine.refusals, refusal = false)
    (opens : openAt place machine = .ok run machine) (keeps : command.isIdle = true) :
    ∃ last, Idled place disk last (saved || command.saves run.phase) := by
  have opened := idle.opened isFound willing opens
  obtain ⟨reply, after, done⟩ := (opened.atTime machine.now).goes keeps
  obtain ⟨-, changes, log, replayed, -⟩ := (opened.atTime machine.now).performs keeps done
  rw [← changes.take_length] at replayed
  have killed := idled.killed (.opened rfl willing opens) keeps done log replayed
  rw [decide_eq_true (Nat.le_refl _), Bool.true_and] at killed
  exact ⟨_, killed⟩

/-! ## What a recovery makes of it -/

/-- A record is fit for a resume if it is clean, and tells of a pause or the process ended in a way
that the run survives. -/
theorem Record.isFit_iff (record : Record) (termination : Termination) :
    record.IsFit termination ↔ record.clean = .clean ∧ (Phase.ofRecord record = .paused ∨
      termination = .clean ∨ record.hint ≠ .performanceOptimized) := by
  rw [IsFit, isPaused, Phase.ofRecord]
  cases record.status <;> simp

/-- An idle disk is resumable with the continuation that was found, if that was taken at the heads
that the run goes on from, as soon as the run was saved. -/
theorem Image.IsFound.resumable_iff {loaded : List Node} (isFound : found.IsFound first bound)
    (idle : record.IsIdle first found.nodes saved)
    (continued : RunFiles.checkpointOn disk place = .ok found.checkpoint)
    (stored : ∀ head, (∃ node ∈ loaded, node.id = head) ↔ found.nodes.contains head = true)
    (termination : Termination) (checkpoint : Checkpoint) :
    Resumable record termination loaded disk place checkpoint ↔
      saved = true ∧ (Phase.ofRecord record = .paused ∨ termination = .clean ∨
        first.hint ≠ .performanceOptimized) ∧ found.checkpoint = some checkpoint ∧
        checkpoint.heads = (Graph.regain found.nodes first.heads).heads := by
  have fit := record.isFit_iff termination
  rw [idle.clean_iff, idle.hint_eq] at fit
  constructor
  · intro resumable
    obtain ⟨rfl, survives⟩ := fit.1 resumable.fit
    have there := RunFiles.checkpointOn_eq_some_iff.2 resumable.continuation
    exact ⟨rfl, survives, Except.ok.inj (continued.symm.trans there),
      resumable.heads_eq.trans idle.heads_eq⟩
  · rintro ⟨rfl, survives, there, heads⟩
    constructor
    case fit => exact fit.2 ⟨rfl, survives⟩
    case heads_loaded =>
      intro head inside
      rw [idle.heads_eq, if_pos rfl] at inside
      have nodup := (isFound.orderly.record first isFound.recorded).heads_nodup
      exact (stored head).2 ((Graph.heads_regain_spec found.nodes nodup).2 head inside)
    case continuation =>
      rw [← RunFiles.checkpointOn_eq_some_iff, continued]
      exact congrArg _ there
    case heads_eq => exact heads.trans idle.heads_eq.symm

/-- After a command that was no safe point, a run that had been saved is opened as it was then. -/
theorem Reached.reopens_saved {after : LiveRun} {command : Command} {outcome : Except Error Reply}
    (reached : Reached place live) (saved : live.run.IsSaved) (awake : live.run.phase ≠ .resuming)
    (storable : command.Storable) (done : attempt command.perform live = .ok outcome after)
    (fits : after.run.graph.Fits)
    (waits : (live.run.hint.writesEveryStep || command.isSafePoint live.run outcome) = false) :
    ∃ opened, openAt place after.machine = .ok opened after.machine ∧
      opened.snapshot = live.run.snapshot ∧ opened.record = after.run.record := by
  obtain ⟨image, settled, rfl, -⟩ := reached.settled
  obtain ⟨reply, between, image', yields, performs⟩ := command.perform_keeps settled storable
  obtain ⟨rfl, rfl⟩ : reply = outcome ∧ between = after := by
    simpa using yields.result.symm.trans done
  obtain ⟨same, -⟩ := performs.unsaved waits
  obtain ⟨record, saves⟩ := same.saves (settled.saves saved awake)
  have shows := performs.settled.tracks.shows
  rw [performs.place_eq, performs.hint_eq] at shows
  obtain ⟨opened, opens, snapshot, rfl⟩ :=
    saves.opens (performs.settled.storable_image fits) shows
  exact ⟨opened, opens, snapshot,
    Option.some.inj (saves.recorded.symm.trans performs.settled.record)⟩

namespace Coordinator

/-- A recovery of what idle processes left. -/
theorem recoverRun_idle (coordinator : Coordinator) (isFound : found.IsFound first bound)
    (idle : machine.disk.IsIdle place found first saved)
    (unclaimed : place.path ∉ coordinator.claimed) :
    ∃ opened report after, openAt place machine = .ok opened machine ∧
      coordinator.recoverRun place machine =
        .ok (report, { coordinator with claimed := place.path :: coordinator.claimed }) after ∧
      (opened.record.clean = .clean ↔ saved = true) ∧
      (report.outcome = .resumed ↔ saved = true ∧
        (opened.phase = .paused ∨ coordinator.termination = .clean ∨
          first.hint ≠ .performanceOptimized) ∧
        ∃ checkpoint, found.checkpoint = some checkpoint ∧
          checkpoint.heads = (Graph.regain found.nodes first.heads).heads ∧
          coordinator.resumer.Accepts opened.resuming machine checkpoint.blob) ∧
      (report.outcome ≠ .resumed → ∃ reason, report.outcome = .failed reason) ∧
      (saved = false → Refused opened machine report after) := by
  obtain ⟨record, shows, idle⟩ := idle
  have opened := isFound.opens idle shows
  have storable := isFound.storable idle
  rw [← idle.hint_eq] at shows
  obtain ⟨loaded, -, opens, continued, stored⟩ := finds_ofImage shows rfl storable
  have taken : found.checkpoint = continuation? _ := eq_continuation? continued
  have running : (Phase.ofRecord record).isComplete = false :=
    (Phase.isComplete_ofRecord record).trans idle.unfinished
  have resumable := isFound.resumable_iff idle continued stored coordinator.termination
  obtain ⟨report, after, recovers, decided⟩ :=
    recoverRun_decided opens rfl taken running unclaimed
  refine ⟨_, report, after, opened, recovers, idle.clean_iff, decided.resumed_iff.trans ?_,
    decided.failed, fun unsaved => ?_⟩
  · simp only [resumable]
    constructor
    · rintro ⟨checkpoint, ⟨isSaved, survives, there, heads⟩, accepts⟩
      exact ⟨isSaved, survives, checkpoint, there, heads, accepts⟩
    · rintro ⟨isSaved, survives, checkpoint, there, heads, accepts⟩
      exact ⟨checkpoint, ⟨isSaved, survives, there, heads⟩, accepts⟩
  · cases decided with
    | @handed checkpoint _ fit =>
        obtain ⟨isSaved, -⟩ := (resumable checkpoint).1 fit
        cases unsaved.symm.trans isSaved
    | refused _ refused => exact refused

/-- **What a recovery still knows of a loss**: processes left a run whose record is not clean, and
others have only kept it since.  A recovery then reports it as resumed exactly if one of these
others saved it, the end of the last process is one that the run survives, and there is a
continuation that was taken at the heads with which the run was found and that the resumer accepts.
Otherwise it is closed as failed; so it is whenever it was not saved, and the resumer is not called
then. -/
theorem resumed_after_idling_iff (coordinator : Coordinator) (machine : Machine) {left : Machine}
    {opened : Run} (leaves : Left place left.disk)
    (opens : openAt place left = .ok opened left) (unclean : opened.record.clean ≠ .clean)
    (running : opened.phase.isComplete = false)
    (idled : Idled place left.disk machine.disk saved)
    (unclaimed : place.path ∉ coordinator.claimed) :
    ∃ again report after, openAt place machine = .ok again machine ∧
      coordinator.recoverRun place machine =
        .ok (report, { coordinator with claimed := place.path :: coordinator.claimed }) after ∧
      (again.record.clean = .clean ↔ saved = true) ∧
      (report.outcome = .resumed ↔ saved = true ∧
        (again.phase = .paused ∨ coordinator.termination = .clean ∨
          opened.hint ≠ .performanceOptimized) ∧
        ∃ checkpoint, opened.checkpoint = some checkpoint ∧
          checkpoint.heads = opened.graph.heads ∧
          coordinator.resumer.Accepts again.resuming machine checkpoint.blob) ∧
      (report.outcome ≠ .resumed → ∃ reason, report.outcome = .failed reason) ∧
      (saved = false → Refused again machine report after) := by
  obtain ⟨image, record, bound, isFound, idle, hint, checkpoint, heads⟩ :=
    leaves.isFound opens unclean running
  rw [hint, checkpoint, heads]
  exact recoverRun_idle coordinator isFound (idled.isIdle isFound idle) unclaimed

/-- The outcome names a node that closes no block. -/
def namesPlainNode : Except Error Reply → Bool
  | .ok (.node node) => decide (node.kind.closes = none)
  | _ => false

theorem of_namesPlainNode {outcome : Except Error Reply} (named : namesPlainNode outcome = true) :
    ∃ node, outcome = .ok (.node node) ∧ node.kind.closes = none := by
  unfold namesPlainNode at named
  split at named
  next node => exact ⟨node, rfl, of_decide_eq_true named⟩
  next => cases named

/-- A batched run takes a continuation and is flushed, and then loses a node to a kill.  Another
process opens it, and flushes it. -/
theorem flushed_after_loss : ∃ run started held flushed node live opened last,
    Run.start .sample "sample" (some .performanceOptimized) .default .blank = .ok run started ∧
      attempt (Command.checkpoint [7]).perform { run, machine := started } =
        .ok (.ok .done) held ∧
      attempt Command.flush.perform held = .ok (.ok .done) flushed ∧
      attempt (Command.append { kind := .atom, name := "lost" }).perform flushed =
        .ok (.ok (.node node)) live ∧
      Left .sample live.machine.disk ∧ openAt .sample live.machine = .ok opened live.machine ∧
      opened.record.clean = .dirty ∧ opened.phase.isComplete = false ∧
      Idled .sample live.machine.disk last true ∧
      ∃ checkpoint, opened.checkpoint = some checkpoint ∧ checkpoint.heads = opened.graph.heads := by
  let draft : NodeDraft := { kind := .atom, name := "lost" }
  have passed : Run.passes (fun run started =>
      Run.passes (fun first held =>
          Run.passes (fun second flushed =>
              Run.passes (fun third live =>
                  namesPlainNode third &&
                  decide (first = .ok .done) && decide (second = .ok .done) &&
                  decide held.run.graph.Fits && decide flushed.run.graph.Fits &&
                  decide live.run.graph.Fits && decide (flushed.run.diskFlag = .clean) &&
                  flushed.run.checkpointPersisted && decide (flushed.run.phase = .running) &&
                  !flushed.run.hint.writesEveryStep && decide (live.run.record.clean = .dirty) &&
                  flushed.run.checkpoint.any fun taken =>
                    decide (taken.heads = flushed.run.graph.heads))
                (attempt (Command.append draft).perform flushed))
            (attempt Command.flush.perform held))
        (attempt (Command.checkpoint [7]).perform { run, machine := started }))
      (Run.start .sample "sample" (some .performanceOptimized) .default .blank) = true := by
    decide +kernel
  obtain ⟨run, started, begins, holds⟩ := Run.of_passes passed
  obtain ⟨first, held, takes, holds⟩ := Run.of_passes holds
  obtain ⟨second, flushed, flushes, holds⟩ := Run.of_passes holds
  obtain ⟨third, live, appends, holds⟩ := Run.of_passes holds
  simp only [Bool.and_eq_true, decide_eq_true_eq, Bool.not_eq_true', Option.any_eq_true] at holds
  obtain ⟨⟨⟨⟨⟨⟨⟨⟨⟨⟨⟨named, rfl⟩, rfl⟩, fitsHeld⟩, fitsFlushed⟩, fits⟩, flag⟩, persisted⟩, running⟩,
    batched⟩, dirty⟩, checkpoint, taken, heads⟩ := holds
  obtain ⟨node, rfl, plain⟩ := of_namesPlainNode named
  have storable : (Command.append draft).Storable := by
    simp [Command.Storable, NodeDraft.Storable, draft]
  have taking : (Command.checkpoint [7]).Storable := trivial
  have flushing : Command.flush.Storable := trivial
  have begun : Reached .sample { run, machine := started } :=
    .start Place.sample_isVacant (fun _ none => by cases none) begins
  have reached : Reached .sample flushed :=
    (begun.operate (.at_once taking takes) fitsHeld).operate (.at_once flushing flushes)
      fitsFlushed
  have reachedLive : Reached .sample live := reached.operate (.at_once storable appends) fits
  obtain ⟨image, settled, -⟩ := reachedLive.settled
  obtain ⟨opened, opens, same, recorded⟩ := reached.reopens_saved ⟨flag, persisted⟩
    (by simp [running]) storable appends fits
    (by simp [batched, Command.isSafePoint, plain])
  have phase : opened.phase = .running := (congrArg Snapshot.phase same).trans running
  have unclean : opened.record.clean = .dirty := recorded ▸ dirty
  have goesOn : opened.phase.isComplete = false := by
    rw [phase]
    rfl
  obtain ⟨found, record, bound, isFound, idle, -⟩ :=
    reachedLive.dropped.isFound opens (by simp [unclean]) goesOn
  obtain ⟨last, idled⟩ := Idled.untouched.next isFound idle settled.tracks.willing opens
    (show Command.flush.isIdle = true from rfl)
  refine ⟨run, started, held, flushed, node, live, opened, last, begins, takes, flushes, appends,
    reachedLive.dropped, opens, unclean, goesOn, idled, checkpoint, ?_, ?_⟩
  · exact (congrArg Snapshot.checkpoint same).trans taken
  · exact heads.trans (congrArg (fun snapshot : Snapshot => snapshot.graph.heads) same).symm

/-- A run that lost a node is resumed once it was flushed. -/
theorem resumed_after_idle_flush : ∃ left opened last again report after,
    Left .sample left.disk ∧ openAt .sample left = .ok opened left ∧
      opened.record.clean ≠ .clean ∧ opened.phase.isComplete = false ∧
      Idled .sample left.disk last true ∧
      openAt .sample { left with disk := last } = .ok again { left with disk := last } ∧
      { accepting with termination := .clean }.recoverRun .sample { left with disk := last } =
        .ok (report, { accepting with termination := .clean, claimed := [["run"]] }) after ∧
      report.outcome = .resumed := by
  obtain ⟨-, -, -, -, -, live, opened, last, -, -, -, -, leaves, opens, dirty, running, idled,
    checkpoint, taken, heads⟩ := flushed_after_loss
  have unclean : opened.record.clean ≠ .clean := by simp [dirty]
  obtain ⟨again, report, after, reopens, recovers, -, resumed, -⟩ :=
    resumed_after_idling_iff { accepting with termination := .clean }
      { live.machine with disk := last } leaves opens unclean running idled List.not_mem_nil
  exact ⟨live.machine, opened, last, again, report, after, leaves, opens, unclean, running, idled,
    reopens, recovers, resumed.2 ⟨rfl, .inr (.inl rfl), checkpoint, taken, heads, [], _, rfl⟩⟩

/-- **A loss is forgotten**: a batched run takes a continuation and is flushed, and appends a node,
which a kill takes with it.  The record is dirty then.  The next process opens the run and flushes
it, and is killed; and the recovery that follows reports the run as resumed. -/
theorem resumed_despite_loss : ∃ run started held flushed node live opened last report kept after,
    Run.start .sample "sample" (some .performanceOptimized) .default .blank = .ok run started ∧
      attempt (Command.checkpoint [7]).perform { run, machine := started } =
        .ok (.ok .done) held ∧
      attempt Command.flush.perform held = .ok (.ok .done) flushed ∧
      attempt (Command.append { kind := .atom, name := "lost" }).perform flushed =
        .ok (.ok (.node node)) live ∧
      openAt .sample live.machine = .ok opened live.machine ∧ opened.record.clean = .dirty ∧
      Idled .sample live.machine.disk last true ∧
      { accepting with termination := .clean }.recoverRun .sample
        { live.machine with disk := last } = .ok (report, kept) after ∧
      report.outcome = .resumed := by
  obtain ⟨run, started, held, flushed, node, live, opened, last, begins, takes, flushes, appends,
    leaves, opens, dirty, running, idled, checkpoint, taken, heads⟩ := flushed_after_loss
  obtain ⟨found, record, bound, isFound, idle, hint, checkpointIs, headsAre⟩ :=
    leaves.isFound opens (by simp [dirty]) running
  have kept : { live.machine with disk := last }.disk.IsIdle .sample found record true :=
    idled.isIdle isFound idle
  obtain ⟨again, report, after, -, recovers, -, resumed, -⟩ :=
    recoverRun_idle { accepting with termination := .clean } isFound kept List.not_mem_nil
  rw [← checkpointIs, ← headsAre] at resumed
  exact ⟨run, started, held, flushed, node, live, opened, last, report, _, after, begins, takes,
    flushes, appends, opens, dirty, idled, recovers,
    resumed.2 ⟨rfl, .inr (.inl rfl), checkpoint, taken, heads, [], _, rfl⟩⟩

end Coordinator
end Idle
end DurableRuns
