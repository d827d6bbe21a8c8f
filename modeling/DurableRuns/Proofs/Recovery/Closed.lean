/-
# DurableRuns.Proofs.Recovery.Closed -- what a recovery leaves of a run that it closes

A recovery that reports a run as failed has closed it.  If no write is refused meanwhile, the
directory then shows the run as it was closed: its record is complete and clean, and its nodes
are those of the repaired graph (`Coordinator.recoverRun_closes`).  This is so however damaged
the run was that it found.

What the repaired graph is like does depend on the damage.  A kill may have let through nodes
that the record does not know of, the flow end or the end of a block among them, and a repair
goes by the recorded heads.  Two statements say when the flow of a closed run ends in its flow
end (`Coordinator.closed_endsFlow_iff`), and which of its blocks are closed exactly once
(`Coordinator.closed_isPaired_iff`); each is followed by a run for which it fails.
-/
import DurableRuns.Proofs.Recovery.Deeds
import DurableRuns.Proofs.Run.Development
import DurableRuns.Proofs.Run.Unhindered

namespace DurableRuns

set_option autoImplicit false

open NodeStore (directoryName nodeFile)
open Run RunM

section Closed

variable {place : Place} {inOrder : Prop} {live after : LiveRun} {machine later : Machine}
  {coordinator kept : Coordinator} {report : RecoveryReport}

/-! ## Runs that a recovery holds -/

namespace LiveRun

/-- A run at a place that is orderly and unhindered, and whose flow ends in order exactly if it is
to. -/
structure IsHeld (place : Place) (inOrder : Prop) (live : LiveRun) : Prop where
  place_eq : live.run.place = place
  orderly : live.run.holdings.IsOrderly
  unhindered : live.IsUnhindered
  keeps : live.run.KeepsOrder inOrder

namespace IsHeld

/-- A run that is opened on what others left, and has not ended, is held. -/
theorem opened {run : Run} (remains : machine.disk.Remains place)
    (willing : ∀ refusal ∈ machine.refusals, refusal = false)
    (opens : openAt place machine = .ok run machine) (running : run.phase.isComplete = false) :
    IsHeld place run.graph.EndsInOrder { run, machine } := by
  obtain ⟨report, reports⟩ := openAt_eq_ok_iff.1 opens
  obtain ⟨record, image, bound, small, shows, orderly, recorded, rfl, -⟩ := remains.opens reports
  have heads := (orderly.record record recorded).heads_nodup
  have usable : (Graph.regain image.nodes record.heads).IsUsable :=
    Graph.isUsable_regain orderly.nodes heads
  have unfinished (ended : (ofImage place record image.nodes image.checkpoint).phase.isComplete =
      true) : False := by
    cases ended.symm.trans running
  constructor
  case place_eq => rfl
  case orderly => exact ofImage_isOrderly orderly small recorded
  case keeps => exact ⟨usable, Iff.rfl, fun ended => (unfinished ended).elim⟩
  case unhindered =>
    refine ⟨usable, image, ?_, fun ended => (unfinished ended).elim⟩
    constructor
    case snapshot_eq => rfl
    case willing => exact willing
    case shows => exact shows
    case store => exact storeKnows_ofImage rfl
    case unfailed => rfl
    case kept =>
      intro id _
      have kept : (ofImage place record image.nodes image.checkpoint).kept image = image.nodes :=
        kept_ofImage rfl
      have table := Graph.table_regain image.nodes record.heads
      rw [kept]
      exact congrArg (fun nodes : NodeTable => nodes.get? id) table.symm

/-- Whatever is done to a run that is held, it is held as before. -/
theorem carryOut {deed : Deed} (held : live.IsHeld place inOrder) (storable : deed.Storable) :
    EndsIn deed.carryOut live (IsHeld place inOrder) := by
  have conducting : Conducting 0 deed.carryOut := Deed.carryOut_conducts storable
  have ends := ((conducting live held.orderly (Nat.zero_le _)).and
    (deed.carryOut_unhindered held.unhindered)).and (deed.carryOut_develops live)
  refine ends.mono ?_ ?_
  all_goals
    rintro _ after ⟨⟨conducts, unhindered⟩, develops⟩
    exact ⟨conducts.place_eq.trans held.place_eq, conducts.orderly, unhindered,
      develops.keepsOrder held.keeps⟩

theorem atTime (held : live.IsHeld place inOrder) (now : Instant) :
    (live.atTime now).IsHeld place inOrder := by
  obtain ⟨usable, image, unhindered, ended⟩ := held.unhindered
  exact { held with unhindered := ⟨usable, image, { unhindered with }, ended⟩ }

theorem does (held : live.IsHeld place inOrder) (does : live.Does after) :
    after.IsHeld place inOrder := by
  obtain ⟨deeds, storable, rfl⟩ := does
  exact afterDeeds_of_kept held fun given inside _ held =>
    (held.atTime given.1).carryOut (storable given inside)

/-- A run that has ended is opened as it was. -/
theorem reopens (held : live.IsHeld place inOrder) (ended : live.run.phase.isComplete = true)
    (fits : live.run.graph.Fits) (same : later.disk = live.machine.disk) :
    ∃ closed image nextId, openAt place later = .ok closed later ∧ live.run.EndedOn image ∧
      closed.record = live.run.record ∧ closed.graph = { live.run.graph with nextId } := by
  obtain ⟨usable, image, unhindered, onDisk⟩ := held.unhindered
  have ends := onDisk ended
  have hint : live.run.record.hint = live.run.hint := held.orderly.recordHint
  have shows := unhindered.shows
  rw [← same, held.place_eq, ← hint] at shows
  have storable : image.Storable := by
    constructor
    case record =>
      intro record shown
      obtain rfl := Option.some.inj (ends.record.symm.trans shown)
      exact ⟨held.orderly.version_lt, fun head inside =>
        Nat.lt_of_lt_of_le (held.orderly.heads_lt head inside) fits⟩
    case nodes =>
      intro id node stored
      rw [ends.nodes] at stored
      exact (held.orderly.graph.nodes id node stored).storable fits
    case checkpoint =>
      intro checkpoint shown
      cases ends.checkpoint.symm.trans shown
  obtain ⟨nextId, regained⟩ := usable.regain_eq
  refine ⟨_, image, nextId, openAt_eq shows ends.record storable, ends, rfl, ?_⟩
  rw [← regained, ← ends.nodes, ← ends.heads]
  rfl

end IsHeld
end LiveRun

/-! ## Closed runs -/

namespace Run

/-- The result with which a run ends that cannot go on: its own, if it has ended already. -/
def closingResult (run : Run) : RunResult :=
  match run.phase with
  | .complete result => result
  | _ => .failure

theorem phase_eq_of_complete (run : Run) (complete : run.phase.isComplete = true) :
    run.phase = .complete run.closingResult := by
  unfold closingResult
  cases phase : run.phase with
  | complete result => rfl
  | _ => simp [phase, Phase.isComplete] at complete

theorem closingResult_of_running (run : Run) (running : run.phase.isComplete = false) :
    run.closingResult = .failure := by
  unfold closingResult
  cases phase : run.phase with
  | complete result => simp [phase, Phase.isComplete] at running
  | _ => rfl

/-- A run has ended with a result, and its record says that the disk has all of it. -/
structure IsClosed (run : Run) (result : RunResult) : Prop where
  status : run.record.status = .complete
  result : run.record.result = result
  clean : run.record.clean = .clean
  heads : run.record.heads = run.graph.heads

end Run

/-! ## Kills in the midst of an operation -/

/-- An operation begins with two changes: it writes the record as dirty, and a node. -/
def LiveRun.WritesNodeSecond (live ended : LiveRun) (node : Node) : Prop :=
  ended.machine.log.take (live.machine.log.length + 2) = live.machine.log ++
    [.write (RunFiles.recordFile live.run.place).path
        (stamped live.run.record .dirty live.machine.now).toJson.pretty true,
      .write (nodeFile (live.run.place.join directoryName) node.id).path node.toJson.pretty true]

instance (live ended : LiveRun) (node : Node) : Decidable (live.WritesNodeSecond ended node) :=
  inferInstanceAs (Decidable (_ = _))

/-- Processes left a run that has not ended, with a record that is not clean.  The graph that it is
opened with leaves numbers for the nodes of a repair. -/
structure LeftUnclean (place : Place) (disk : Disk) (found : Graph) : Prop where
  left : Left place disk
  opens : ∃ (record : Record) (image : Image), Shows disk place record.hint.storageKind image ∧
    image.record = some record ∧ image.Storable ∧ record.isComplete = false ∧
    record.clean ≠ .clean ∧ Graph.regain image.nodes record.heads = found
  room : found.nextId + found.table.nodes.length + 2 ≤ UInt64.size

/-- A run that writes every step is given a command, and its process is killed when it has written
the record and a node. -/
theorem Reached.cut_at_node {live ended : LiveRun} {command : Command}
    {outcome : Except Error Reply} {node : Node} {found : Graph} (reached : Reached place live)
    (prompt : live.run.hint.writesEveryStep = true) (storable : command.Storable)
    (done : attempt command.perform live = .ok outcome ended) (fits : ended.run.graph.Fits)
    (begins : live.WritesNodeSecond ended node) (stored : ended.run.graph.get? node.id = some node)
    (unfinished : live.run.record.isComplete = false)
    (regained : Graph.regain (live.run.graph.table.insert node) live.run.record.heads = found)
    (room : found.nextId + found.table.nodes.length + 2 ≤ UInt64.size) :
    ∃ changes disk, ended.machine.log = live.machine.log ++ changes ∧
      live.machine.disk.replay (changes.take 2) = .ok disk ∧ LeftUnclean place disk found := by
  have operates : Operates place live [live.run.graph, ended.run.graph] ended :=
    .at_once storable done
  obtain ⟨image, settled, rfl, fitsBefore⟩ := reached.settled
  obtain ⟨_, settledAfter, -, -⟩ := (reached.operate operates fits).settled
  have saved : live.run.IsSaved := settled.atRest (by simp [mustBeSaved, prompt])
  have hint : live.run.record.hint = live.run.hint := settled.sound.recordHint
  have kind : live.run.hint.storageKind = .immediate := by rw [Hint.storageKind, if_pos prompt]
  have nodes := (settled.has_of_clean saved.flag).nodes
  have shows := settled.tracks.shows
  rw [kind] at shows
  obtain ⟨written, wrote, shows⟩ :=
    shows.writeRecord (stamped live.run.record .dirty live.machine.now)
  obtain ⟨disk, wroteNode, shows⟩ := shows.writeNode node
  rw [← kind, ← hint] at shows
  have log := (List.take_append_drop (live.machine.log.length + 2) ended.machine.log).symm
  rw [begins, List.append_assoc] at log
  have killed : live.machine.disk.replay
      [.write (RunFiles.recordFile live.run.place).path
          (stamped live.run.record .dirty live.machine.now).toJson.pretty true,
        .write (nodeFile (live.run.place.join directoryName) node.id).path
          node.toJson.pretty true] = .ok disk := by
    simp only [Disk.replay, Change.apply, wrote, wroteNode, bind, Except.bind]
  refine ⟨_, disk, log, killed, reached.left (k := 2) operates fits log killed, ?_, room⟩
  refine ⟨stamped live.run.record .dirty live.machine.now, _, shows, rfl, ?_, unfinished,
    by simp [stamped], ?_⟩
  · have readable := settled.storable_image fitsBefore
    have recorded := readable.record _ settled.record
    constructor
    case record => exact fun _ same => Option.some.inj same ▸ ⟨recorded.1, recorded.2⟩
    case checkpoint => exact readable.checkpoint
    case nodes =>
      intro id other there
      rw [NodeTable.get?_insert] at there
      split at there
      next =>
        cases there
        exact settledAfter.storable fits _ node stored
      next => exact readable.nodes id other there
  · rw [nodes]
    exact regained

namespace Coordinator

/-- **A run that a recovery reports as failed is closed on its disk.**  Its processes left its
directory, whichever of their writes were refused and wherever they were killed; the recovery has
none of its writes refused.  Then the run is opened as closed, with the repaired graph of the run
that was held. -/
theorem recoverRun_closes {reason : Error} {run : Run} {after : Machine}
    (left : Left place machine.disk)
    (willing : ∀ refusal ∈ machine.refusals, refusal = false)
    (storable : coordinator.resumer.Storable)
    (recovers : coordinator.recoverRun place machine = .ok (report, kept) after)
    (failed : report.outcome = .failed reason) (taken : report.run = some run)
    (fits : run.graph.Fits) (same : later.disk = after.disk) :
    ∃ before held closed nextId, openAt place machine = .ok before machine ∧
      coordinator.Holds place machine report.call held ∧
      held.run.KeepsOrder before.graph.EndsInOrder ∧
      openAt place later = .ok closed later ∧ closed.IsClosed held.run.closingResult ∧
      closed.graph = { held.run.graph.repaired reason.message with nextId } := by
  obtain ⟨held, _, holds, taken', closes⟩ := recoverRun_failed recovers failed
  obtain rfl := Option.some.inj (taken.symm.trans taken')
  obtain ⟨before, opens, running, does⟩ := holds.does storable
  have isHeld := (LiveRun.IsHeld.opened left.remains willing opens running).does does
  have ends := fail_unhindered isHeld.unhindered reason.message
  rw [Ends, closes] at ends
  obtain ⟨-, ended, result⟩ := ends
  obtain ⟨closed, image, nextId, reopens, onDisk, record, graph⟩ :=
    (isHeld.does (.of_fail closes)).reopens ended fits same
  refine ⟨before, held, closed, nextId, opens, holds, isHeld.keeps, reopens, ?_⟩
  -- A run that the resumer has ended itself is left as it is, and so the repair leaves its graph.
  obtain ⟨phase, repaired⟩ : run.phase = .complete held.run.closingResult ∧
      run.graph = held.run.graph.repaired reason.message := by
    cases complete : held.run.phase.isComplete with
    | true =>
        rw [if_pos complete] at result
        obtain ⟨id, flowEnd⟩ := isHeld.keeps.ended complete
        have stays := Graph.repaired_eq_of_ended flowEnd reason.message
        have phase : run.phase = held.run.phase :=
          congrArg (fun live : LiveRun => live.run.phase) result
        have graph : run.graph = held.run.graph :=
          congrArg (fun live : LiveRun => live.run.graph) result
        exact ⟨phase.trans (held.run.phase_eq_of_complete complete), graph.trans stays.symm⟩
    | false =>
        rw [if_neg (by simp [complete])] at result
        rw [held.run.closingResult_of_running complete]
        exact result
  have told : run.record.result = held.run.closingResult :=
    Phase.complete.inj (onDisk.phase.symm.trans phase)
  constructor
  · constructor
    case status => exact (congrArg Record.status record).trans onDisk.status
    case result => exact (congrArg Record.result record).trans told
    case clean => exact (congrArg Record.clean record).trans onDisk.clean
    case heads => exact (congrArg Record.heads record).trans (onDisk.heads.trans (graph ▸ rfl))
  · rw [graph, ← repaired]

/-- A run that is found with a record that is not clean is closed without the resumer, with the
repaired graph of what was found. -/
theorem recoverRun_unclean (coordinator : Coordinator) {machine : Machine} {found : Graph}
    (unclean : LeftUnclean place machine.disk found)
    (willing : ∀ refusal ∈ machine.refusals, refusal = false)
    (storable : coordinator.resumer.Storable) (unclaimed : place.path ∉ coordinator.claimed) :
    ∃ report kept reason run after closed nextId,
      coordinator.recoverRun place machine = .ok (report, kept) after ∧
      report.outcome = .failed reason ∧ report.run = some run ∧ run.graph.Fits ∧
      openAt place after = .ok closed after ∧ found.IsUsable ∧
      closed.graph = { found.repaired reason.message with nextId } := by
  obtain ⟨left, ⟨record, image, shows, recorded, readable, unfinished, unclean, rfl⟩, fits⟩ := unclean
  obtain ⟨loaded, -, opens, found, -⟩ := finds_ofImage shows recorded readable
  have running : (ofImage place record image.nodes image.checkpoint).phase.isComplete = false :=
    (Phase.isComplete_ofRecord record).trans unfinished
  have continued : image.checkpoint = continuation? _ := eq_continuation? found
  have unfit : ¬ ∃ checkpoint, Resumable record coordinator.termination loaded.nodes machine.disk
      place checkpoint := by
    rintro ⟨checkpoint, resumable⟩
    rcases resumable.fit with ⟨-, clean⟩ | ⟨-, clean, -⟩
    · exact unclean clean
    · exact unclean clean
  obtain ⟨report, after, recovers, refused⟩ :=
    recoverRun_refuses opens rfl continued running unclaimed unfit
  obtain ⟨obstacle, run, failed, taken, closes⟩ := refused.closed
  have opened := openAt_eq shows recorded readable
  have held := LiveRun.IsHeld.opened left.remains willing opened running
  have ends := fail_unhindered held.unhindered
    (closing (ofImage place record image.nodes image.checkpoint) obstacle).message
  rw [Ends, closes] at ends
  obtain ⟨-, -, result⟩ := ends
  rw [if_neg (by simp [running])] at result
  have runFits : run.graph.Fits := by
    rw [Graph.Fits, show run.graph = _ from result.2]
    exact Nat.le_trans (Graph.nextId_repaired_le held.keeps.usable _) fits
  obtain ⟨_, live, closed, nextId, -, holds, -, reopens, -, graph⟩ :=
    recoverRun_closes left willing storable recovers failed taken runFits rfl
  rw [refused.call] at holds
  cases holds with
  | opened opensToo =>
      cases opened.symm.trans opensToo
      exact ⟨report, _, _, run, after, closed, nextId, recovers, failed, taken, runFits, reopens,
        held.keeps.usable, graph⟩

/-- **When a closed run ends in its flow end**: there is exactly one flow end then and it is the
only recorded head, if the run that was found had none, or ended in it; and only then. -/
theorem closed_endsFlow_iff {reason : Error} {run : Run} {after : Machine}
    (left : Left place machine.disk)
    (willing : ∀ refusal ∈ machine.refusals, refusal = false)
    (storable : coordinator.resumer.Storable)
    (recovers : coordinator.recoverRun place machine = .ok (report, kept) after)
    (failed : report.outcome = .failed reason) (taken : report.run = some run)
    (fits : run.graph.Fits) (same : later.disk = after.disk) :
    ∃ before held closed, openAt place machine = .ok before machine ∧
      coordinator.Holds place machine report.call held ∧
      openAt place later = .ok closed later ∧ closed.IsClosed held.run.closingResult ∧
      (closed.graph.EndsFlow ↔ before.graph.EndsInOrder) := by
  obtain ⟨before, held, closed, nextId, opens, holds, keeps, reopens, isClosed, graph⟩ :=
    recoverRun_closes left willing storable recovers failed taken fits same
  refine ⟨before, held, closed, opens, holds, reopens, isClosed, ?_⟩
  rw [graph]
  exact (Graph.endsFlow_repaired_iff keeps.usable _).trans keeps.inOrder_iff

/-- A coordinator that accepts every run gives no commands. -/
theorem accepting_storable : accepting.resumer.Storable := fun _ _ => trivial

/-- A run is finished, and its process killed when it has written the record and the flow end. -/
theorem finish_cut : ∃ run started node ended changes disk found,
    Run.start .sample "sample" none .default .blank = .ok run started ∧
      attempt (Command.finish .ok).perform { run, machine := started } =
        .ok (.ok (.node node)) ended ∧
      ended.machine.log = started.log ++ changes ∧
      started.disk.replay (changes.take 2) = .ok disk ∧ LeftUnclean .sample disk found ∧
      found.heads = [1] ∧ found.HasKind 2 .flowEnd := by
  have passed : Run.passes (fun run started =>
      let live : LiveRun := { run, machine := started }
      Run.passes (fun reply ended => (ended.run.graph.get? 2).any fun node =>
          let found := Graph.regain (run.graph.table.insert node) run.record.heads
          decide (reply = .ok (.node node)) && decide (live.WritesNodeSecond ended node) &&
            decide (ended.run.graph.Fits) && run.hint.writesEveryStep && decide (node.id = 2) &&
            decide (run.record.isComplete = false) &&
            decide (found.nextId + found.table.nodes.length + 2 ≤ UInt64.size) &&
            decide (found.heads = [1]) &&
            (found.get? 2).any fun last => decide (last.kind = .flowEnd))
        (attempt (Command.finish .ok).perform live))
      (Run.start .sample "sample" none .default .blank) = true := by
    decide +kernel
  obtain ⟨run, started, begins, holds⟩ := Run.of_passes passed
  obtain ⟨reply, ended, done, holds⟩ := Run.of_passes holds
  simp only [Option.any_eq_true, Bool.and_eq_true, decide_eq_true_eq] at holds
  obtain ⟨node, stored, ⟨⟨⟨⟨⟨⟨⟨rfl, second⟩, fits⟩, prompt⟩, number⟩, unfinished⟩, room⟩, heads⟩,
    last, there, flowEnd⟩ := holds
  have reached : Reached .sample { run, machine := started } :=
    .start Place.sample_isVacant (fun _ none => by cases none) begins
  obtain ⟨changes, disk, log, killed, unclean⟩ :=
    reached.cut_at_node prompt (show Command.Storable (.finish .ok) from trivial) done fits second
      (number.symm ▸ stored) unfinished rfl room
  exact ⟨run, started, node, ended, changes, disk, _, begins, done, log, killed, unclean, heads,
    last, there, flowEnd⟩

/-- The run that was cut off in its finish is closed by the next recovery. -/
theorem closed_after_finish_cut : ∃ machine report kept reason run after,
    Left .sample machine.disk ∧ (∀ refusal ∈ machine.refusals, refusal = false) ∧
      accepting.resumer.Storable ∧
      accepting.recoverRun .sample machine = .ok (report, kept) after ∧
      report.outcome = .failed reason ∧ report.run = some run ∧ run.graph.Fits ∧
      ∃ before held closed, openAt .sample machine = .ok before machine ∧
        accepting.Holds .sample machine report.call held ∧
        openAt .sample after = .ok closed after ∧ closed.IsClosed held.run.closingResult ∧
        (closed.graph.EndsFlow ↔ before.graph.EndsInOrder) := by
  obtain ⟨_, _, _, _, _, disk, found, -, -, -, -, unclean, -⟩ := finish_cut
  have willing := Machine.willing_blank disk
  obtain ⟨report, kept, reason, run, after, _, _, recovers, failed, taken, fits, -⟩ :=
    recoverRun_unclean accepting unclean willing accepting_storable List.not_mem_nil
  exact ⟨_, report, kept, reason, run, after, unclean.left, willing, accepting_storable, recovers,
    failed, taken, fits, closed_endsFlow_iff unclean.left willing accepting_storable recovers failed
      taken fits rfl⟩

/-- **A flow end is left behind**: a run is finished, and its process killed when the flow end is
written and the record does not know of it.  The recovery finds a graph that has ended, and leaves
it as it is: the run is complete, and its head is the node before the flow end. -/
theorem flowEnd_left_behind : ∃ run started node ended changes disk report kept reason after closed,
    Run.start .sample "sample" none .default .blank = .ok run started ∧
      attempt (Command.finish .ok).perform { run, machine := started } =
        .ok (.ok (.node node)) ended ∧
      ended.machine.log = started.log ++ changes ∧
      started.disk.replay (changes.take 2) = .ok disk ∧
      accepting.recoverRun .sample { Machine.blank with disk } = .ok (report, kept) after ∧
      report.outcome = .failed reason ∧ openAt .sample after = .ok closed after ∧
      ¬ closed.graph.EndsFlow := by
  obtain ⟨run, started, node, ended, changes, disk, found, begins, done, log, killed, unclean, heads,
    last⟩ := finish_cut
  obtain ⟨report, kept, reason, _, after, closed, nextId, recovers, failed, -, -, reopens, -, graph⟩ :=
    recoverRun_unclean accepting unclean (Machine.willing_blank disk) accepting_storable
      List.not_mem_nil
  refine ⟨run, started, node, ended, changes, disk, report, kept, reason, after, closed, begins,
    done, log, killed, recovers, failed, reopens, ?_⟩
  rw [graph, Graph.repaired_eq_of_ended last]
  rintro ⟨id, only, isLast⟩
  obtain rfl : 1 = id := by simpa [heads] using only
  exact absurd ((isLast 2).1 last) (by decide)

/-- **Which blocks of a closed run are closed exactly once**: those that were before the run was
closed, and those that were left open then; and no others. -/
theorem closed_isPaired_iff {reason : Error} {run : Run} {after : Machine}
    (left : Left place machine.disk)
    (willing : ∀ refusal ∈ machine.refusals, refusal = false)
    (storable : coordinator.resumer.Storable)
    (recovers : coordinator.recoverRun place machine = .ok (report, kept) after)
    (failed : report.outcome = .failed reason) (taken : report.run = some run)
    (fits : run.graph.Fits) (same : later.disk = after.disk) :
    ∃ held closed, coordinator.Holds place machine report.call held ∧
      openAt place later = .ok closed later ∧ closed.IsClosed held.run.closingResult ∧
      ∀ start, closed.graph.IsPaired start ↔
        held.run.graph.IsPaired start ∨ held.run.graph.IsLeftOpen start := by
  obtain ⟨_, held, closed, nextId, -, holds, keeps, reopens, isClosed, graph⟩ :=
    recoverRun_closes left willing storable recovers failed taken fits same
  refine ⟨held, closed, holds, reopens, isClosed, fun start => ?_⟩
  rw [graph]
  exact Graph.isPaired_repaired_iff keeps.usable _ start

/-- Begins a block. -/
def blockStart : Command := .append { kind := .stepStart true, name := "block" }

/-- Ends the block that the second node of a run began. -/
def blockEnd : Command := .append { kind := .stepEnd 2, name := "block" }

/-- A block is begun and ended, and the process is killed when it has written the record and the
end, and not yet that the block has ended. -/
theorem blockEnd_cut : ∃ run started begun live node ended changes disk found,
    Run.start .sample "sample" none .default .blank = .ok run started ∧
      attempt blockStart.perform { run, machine := started } = .ok begun live ∧
      attempt blockEnd.perform live = .ok (.ok (.node node)) ended ∧
      ended.machine.log = live.machine.log ++ changes ∧
      live.machine.disk.replay (changes.take 2) = .ok disk ∧ LeftUnclean .sample disk found ∧
      found.HasKind 2 (.stepStart true) ∧ found.IsOpen 2 ∧ found.Closes 3 2 := by
  have passed : Run.passes (fun run started =>
      Run.passes (fun _ live =>
          Run.passes (fun reply ended => (ended.run.graph.get? 3).any fun node =>
              let found := Graph.regain (live.run.graph.table.insert node) live.run.record.heads
              decide (reply = .ok (.node node)) && decide (live.WritesNodeSecond ended node) &&
                decide live.run.graph.Fits && decide ended.run.graph.Fits &&
                live.run.hint.writesEveryStep && decide (node.id = 3) &&
                decide (live.run.record.isComplete = false) &&
                decide (found.nextId + found.table.nodes.length + 2 ≤ UInt64.size) &&
                ((found.get? 2).any fun start =>
                  decide (start.kind = .stepStart true) && decide (start.blockEnd? = none)) &&
                (found.get? 3).any fun closing => decide (closing.kind = .stepEnd 2))
            (attempt blockEnd.perform live))
        (attempt blockStart.perform { run, machine := started }))
      (Run.start .sample "sample" none .default .blank) = true := by
    decide +kernel
  obtain ⟨run, started, begins, holds⟩ := Run.of_passes passed
  obtain ⟨begun, live, opens, holds⟩ := Run.of_passes holds
  obtain ⟨reply, ended, done, holds⟩ := Run.of_passes holds
  simp only [Option.any_eq_true, Bool.and_eq_true, decide_eq_true_eq] at holds
  obtain ⟨node, stored, ⟨⟨⟨⟨⟨⟨⟨⟨rfl, second⟩, fitsLive⟩, fits⟩, prompt⟩, number⟩, unfinished⟩, room⟩,
    start, there, kind, isOpen⟩, closing, closed, closes⟩ := holds
  have storable : blockStart.Storable := by simp [blockStart, Command.Storable, NodeDraft.Storable]
  have storableEnd : blockEnd.Storable := by simp [blockEnd, Command.Storable, NodeDraft.Storable]
  have reached : Reached .sample { run, machine := started } :=
    .start Place.sample_isVacant (fun _ none => by cases none) begins
  have reachedLive : Reached .sample live :=
    reached.operate (.at_once storable opens) fitsLive
  obtain ⟨changes, disk, log, killed, unclean⟩ :=
    reachedLive.cut_at_node prompt storableEnd done fits second (number.symm ▸ stored) unfinished
      rfl room
  exact ⟨run, started, begun, live, node, ended, changes, disk, _, begins, opens, done, log, killed,
    unclean, ⟨start, there, kind⟩, ⟨start, there, by rw [kind]; rfl, isOpen⟩, closing, closed,
    closes⟩

/-- The run that was cut off in the end of a block is closed by the next recovery. -/
theorem closed_after_blockEnd_cut : ∃ machine report kept reason run after,
    Left .sample machine.disk ∧ (∀ refusal ∈ machine.refusals, refusal = false) ∧
      accepting.resumer.Storable ∧
      accepting.recoverRun .sample machine = .ok (report, kept) after ∧
      report.outcome = .failed reason ∧ report.run = some run ∧ run.graph.Fits ∧
      ∃ held closed, accepting.Holds .sample machine report.call held ∧
        openAt .sample after = .ok closed after ∧ closed.IsClosed held.run.closingResult ∧
        ∀ start, closed.graph.IsPaired start ↔
          held.run.graph.IsPaired start ∨ held.run.graph.IsLeftOpen start := by
  obtain ⟨_, _, _, _, _, _, _, disk, found, -, -, -, -, -, unclean, -⟩ := blockEnd_cut
  have willing := Machine.willing_blank disk
  obtain ⟨report, kept, reason, run, after, _, _, recovers, failed, taken, fits, -⟩ :=
    recoverRun_unclean accepting unclean willing accepting_storable List.not_mem_nil
  exact ⟨_, report, kept, reason, run, after, unclean.left, willing, accepting_storable, recovers,
    failed, taken, fits, closed_isPaired_iff unclean.left willing accepting_storable recovers failed
      taken fits rfl⟩

/-- **A block is not closed exactly once**: it is begun and ended, and the process killed when the
end is written, but neither the record nor the block know of it.  The recovery works from the
recorded head, which is the block, and does not come by the end. -/
theorem block_not_closed_once : ∃ run started begun live node ended changes disk report kept reason
    after closed,
    Run.start .sample "sample" none .default .blank = .ok run started ∧
      attempt blockStart.perform { run, machine := started } = .ok begun live ∧
      attempt blockEnd.perform live = .ok (.ok (.node node)) ended ∧
      ended.machine.log = live.machine.log ++ changes ∧
      live.machine.disk.replay (changes.take 2) = .ok disk ∧
      accepting.recoverRun .sample { Machine.blank with disk } = .ok (report, kept) after ∧
      report.outcome = .failed reason ∧ openAt .sample after = .ok closed after ∧
      closed.graph.HasKind 2 (.stepStart true) ∧ ¬ closed.graph.IsPaired 2 := by
  obtain ⟨run, started, begun, live, node, ended, changes, disk, found, begins, opens, done, log,
    killed, unclean, start, isOpen, closes⟩ := blockEnd_cut
  obtain ⟨report, kept, reason, _, after, closed, nextId, recovers, failed, -, -, reopens, usable,
    graph⟩ := recoverRun_unclean accepting unclean (Machine.willing_blank disk) accepting_storable
      List.not_mem_nil
  refine ⟨run, started, begun, live, node, ended, changes, disk, report, kept, reason, after, closed,
    begins, opens, done, log, killed, recovers, failed, reopens, ?_, ?_⟩
  · rw [graph]
    exact ((usable.extendsBy_repaired _).growsTo usable).hasKind start
  · rw [graph]
    intro closedOnce
    rcases (Graph.isPaired_repaired_iff usable _ 2).1 closedOnce with
      ⟨_, -, node, there, named⟩ | left
    · obtain ⟨other, found, -, unclosed⟩ := isOpen
      obtain rfl := Option.some.inj (there.symm.trans found)
      cases named.symm.trans unclosed
    · exact left.unnamed 3 closes

end Coordinator
end Closed
end DurableRuns
