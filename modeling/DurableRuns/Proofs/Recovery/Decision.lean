/-
# DurableRuns.Proofs.Recovery.Decision -- when a run is resumed

Whether a run is resumed is decided by what its directory holds, damaged as it may be, by how
the process ended and by the resumer (`recoverRun_decides`).  `Resumable` says what a
directory must hold; the resumer is called exactly then, once, and with the continuation that
was read.  Closing a run that cannot be resumed never fails, whatever the disk does.
-/
import DurableRuns.Proofs.Flow.Numbering
import DurableRuns.Proofs.Flow.Table
import DurableRuns.Proofs.Recovery.Recovered
import DurableRuns.Proofs.Run.Starting

namespace DurableRuns

set_option autoImplicit false

open Run RunM

/-! ## Steps that never fail -/

namespace RunM

/-- A step that never fails, whatever the disk does. -/
def Returns {α : Type} (step : RunM α) : Prop :=
  ∀ live, ∃ value after, step live = .ok value after

namespace Returns

variable {α β : Type}

theorem pure (value : α) : Returns (Pure.pure value) := fun live => ⟨value, live, rfl⟩

theorem bind {step : RunM α} {next : α → RunM β} (first : Returns step)
    (second : ∀ value, Returns (next value)) : Returns (step >>= next) := by
  intro live
  obtain ⟨value, between, done⟩ := first live
  obtain ⟨result, after, rest⟩ := second value between
  exact ⟨result, after, bind_eq_ok.2 ⟨value, between, done, rest⟩⟩

theorem current : Returns RunM.current := fun live => ⟨live.run, live, rfl⟩

theorem update (change : Run → Run) : Returns (RunM.update change) :=
  fun live => ⟨(), { live with run := change live.run }, rfl⟩

theorem attempt (step : RunM α) : Returns (RunM.attempt step) := attempt_returns step

end Returns
end RunM

namespace Run

theorem noted_returns (step : RunM Unit) : Returns (noted step) := by
  refine .bind (.attempt step) fun outcome => ?_
  cases outcome with
  | ok => exact .pure ()
  | error error => exact .update _

theorem conclude_returns (nodes : List Node) (result : RunResult) :
    Returns (conclude nodes result) :=
  .bind (noted_returns _) fun _ => .bind (.update _) fun _ => fun _ => ⟨(), _, rfl⟩

/-- Closing a run as failed never fails: what cannot be written is only missing on disk. -/
theorem fail_returns [Numbering] (reason : String) : Returns (fail reason) := by
  refine .bind .current fun run => ?_
  split
  · exact .pure ()
  · exact .bind .current fun run => .bind (.update _) fun _ => conclude_returns _ _

end Run

/-- A program comes to a result, whatever becomes of its commands. -/
theorem Program.run_returns [Numbering] {α : Type} (program : Program α) : Returns program.run := by
  induction program with
  | result value => exact .pure _
  | ask command next ih => exact .bind (.attempt _) fun reply => .bind (ih reply) fun _ => .pure _

/-! ## What a directory must hold -/

/-- A run has ended if its record tells so. -/
theorem Phase.isComplete_ofRecord (record : Record) :
    (Phase.ofRecord record).isComplete = record.isComplete := by
  rw [Phase.ofRecord, Record.isComplete]
  cases record.status <;> rfl

/-- The record says that the disk has the whole run, and the process ended in a way that the
run survives. -/
def Record.IsFit (record : Record) (termination : Termination) : Prop :=
  record.isPaused = true ∧ record.clean = .clean ∨
    record.isPaused = false ∧ record.clean = .clean ∧
      (termination = .clean ∨ record.hint ≠ .performanceOptimized)

theorem Record.obstacle?_eq_none_iff (record : Record) (termination : Termination) :
    record.obstacle? termination = none ↔ record.IsFit termination := by
  have survives : record.hint.survivesKill = true ↔ record.hint ≠ .performanceOptimized := by
    cases record.hint <;> simp [Hint.survivesKill, Hint.writesEveryStep]
  rw [obstacle?, IsFit]
  cases paused : record.isPaused with
  | true =>
      by_cases clean : record.clean = .clean
      · simp [clean]
      · simp [clean]
  | false =>
      by_cases clean : record.clean = .clean
      · cases termination with
        | clean => simp [clean]
        | dirty =>
            rw [← survives]
            cases record.hint.survivesKill with
            | true => simp [clean]
            | false => simp [clean]
      · have other : ¬ record.clean = .clean := clean
        simp only [other, if_false, false_and, and_false, or_self, iff_false]
        rw [if_neg Bool.false_ne_true]
        split <;> simp

/-- What the directory of a run must hold for the run to be resumed with a continuation. -/
structure Resumable (record : Record) (termination : Termination) (loaded : List Node)
    (disk : Disk) (place : Place) (checkpoint : Checkpoint) : Prop where
  fit : record.IsFit termination
  heads_loaded : ∀ head ∈ record.heads, ∃ node ∈ loaded, node.id = head
  continuation : disk.readJson (RunFiles.checkpointFile place).path Checkpoint.ofJson? =
    .ok checkpoint
  heads_eq : checkpoint.heads = record.heads

namespace RunFiles

variable {disk : Disk} {place : Place}

theorem checkpointOn_eq_some_iff {checkpoint : Checkpoint} :
    checkpointOn disk place = .ok (some checkpoint) ↔
      disk.readJson (checkpointFile place).path Checkpoint.ofJson? = .ok checkpoint := by
  rw [checkpointOn]
  cases there : disk.exists? (checkpointFile place).path with
  | true =>
      simp only [if_true]
      cases disk.readJson (checkpointFile place).path Checkpoint.ofJson? with
      | ok found => simp
      | error fault => simp
  | false =>
      have nothing : disk.at? (checkpointFile place).path = none := by
        simpa [Disk.exists?] using there
      simp [Disk.readJson, Disk.read, nothing]

end RunFiles

/-! ## What is found -/

/-- What is found when a directory is opened from which a record and nodes are read. -/
def OpeningReport.ofParts (record : Record) (loaded : StoredNodes)
    (found : Except ContinuationFault (Option Checkpoint)) : OpeningReport :=
  { nodeFaults := loaded.faults
    missingHeads := record.heads.filter fun head =>
      !(NodeTable.ofList loaded.nodes).contains head
    checkpointFault :=
      match found with
      | .ok _ => none
      | .error fault => some fault }

/-- The continuation that was found, if there is one that can be read. -/
def continuation? : Except ContinuationFault (Option Checkpoint) → Option Checkpoint
  | .ok checkpoint => checkpoint
  | .error _ => none

section Found

variable {place : Place} {machine : Machine} {record : Record} {loaded : StoredNodes}

/-- A continuation that can be read is found, if there is one. -/
theorem eq_continuation? {found : Option Checkpoint}
    (read : RunFiles.checkpointOn machine.disk place = .ok found) :
    found = continuation? (RunFiles.checkpointOn machine.disk place) := by
  rw [read, continuation?]

/-- A directory from which a record and nodes are read is opened, whatever else it holds. -/
theorem openReporting_of_reads [Numbering]
    (read : RunFiles.readRecord place machine = .ok record machine)
    (listed : (NodeStore.ofRun machine.disk place record.hint).readAll machine =
      .ok loaded machine) :
    openReporting place machine =
      .ok (restored place record (NodeStore.ofRun machine.disk place record.hint) loaded.nodes
          (continuation? (RunFiles.checkpointOn machine.disk place)),
        .ofParts record loaded (RunFiles.checkpointOn machine.disk place)) machine := by
  rw [openReporting, Machine.bind_of_ok read, Machine.get_bind, Machine.bind_of_ok listed]
  cases RunFiles.checkpointOn machine.disk place with
  | ok checkpoint => rfl
  | error fault => rfl

/-- To list the nodes of a run changes nothing, be it that they cannot be listed. -/
theorem readAll_cases (store : NodeStore) (machine : Machine) :
    (∃ loaded, store.readAll machine = .ok loaded machine) ∨
      ∃ error, store.readAll machine = .error error machine := by
  cases store with
  | batched file nodes unflushed fault => exact .inl ⟨_, rfl⟩
  | immediate directory atomic =>
      rw [NodeStore.readAll, Machine.get_bind]
      cases machine.disk.names directory.path with
      | ok names => exact .inl ⟨_, rfl⟩
      | error fault =>
          cases fault with
          | notFound => exact .inl ⟨_, rfl⟩
          | _ => exact .inr ⟨_, rfl⟩

/-- A directory is opened with what is read from it, or it is not opened; nothing is changed. -/
theorem openReporting_cases (place : Place) (machine : Machine) :
    (∃ opened loaded, openReporting place machine =
        .ok (opened, .ofParts opened.record loaded (RunFiles.checkpointOn machine.disk place))
          machine ∧
      machine.disk.readJson (RunFiles.recordFile place).path Record.ofJson? = .ok opened.record ∧
      opened.phase = .ofRecord opened.record ∧
      opened.checkpoint = continuation? (RunFiles.checkpointOn machine.disk place)) ∨
    ∃ error, openReporting place machine = .error error machine := by
  cases found : machine.disk.readJson (RunFiles.recordFile place).path Record.ofJson? with
  | error fault =>
      have unread : RunFiles.readRecord place machine = .error fault.toError machine := by
        rw [RunFiles.readRecord, Machine.readJson_eq, found]
      refine .inr ⟨fault.toError, ?_⟩
      simp only [openReporting, bind, EStateM.bind, unread]
  | ok record =>
      have read := RunFiles.readRecord_eq_ok_of_found found
      rcases readAll_cases (NodeStore.ofRun machine.disk place record.hint) machine with
        ⟨loaded, listed⟩ | ⟨error, unlisted⟩
      · exact .inl ⟨_, loaded, openReporting_of_reads read listed, rfl, rfl, rfl⟩
      · refine .inr ⟨error, ?_⟩
        rw [openReporting, Machine.bind_of_ok read, Machine.get_bind]
        simp only [bind, EStateM.bind, unlisted]

/-- What is found in a directory that shows an image. -/
theorem finds_ofImage {image : Image}
    (shows : Shows machine.disk place record.hint.storageKind image)
    (recorded : image.record = some record) (storable : image.Storable) :
    ∃ loaded, (NodeStore.ofRun machine.disk place record.hint).readAll machine =
        .ok loaded machine ∧
      openReporting place machine =
        .ok (ofImage place record image.nodes image.checkpoint,
          .ofParts record loaded (RunFiles.checkpointOn machine.disk place)) machine ∧
      RunFiles.checkpointOn machine.disk place = .ok image.checkpoint ∧
      ∀ head, (∃ node ∈ loaded.nodes, node.id = head) ↔ image.nodes.contains head = true := by
  have store := NodeStore.ofRun_eq shows storable
  obtain ⟨nodes, listed, table⟩ := NodeStore.readAll_ofImage shows storable
  have read := RunFiles.readRecord_eq_ok shows recorded (storable.record _ recorded)
  have found := RunFiles.checkpointOn_eq shows storable.checkpoint
  have opens := openReporting_of_reads read (store.symm ▸ listed)
  have same : NodeTable.ofList nodes = NodeTable.ofList image.nodes.nodes :=
    table.trans (NodeTable.ofList_nodes _).symm
  refine ⟨⟨nodes, []⟩, store.symm ▸ listed, ?_, found, fun head => ?_⟩
  · rw [opens, store, found, restored_congr _ _ _ _ same]
    rfl
  · rw [← NodeTable.contains_ofList, table]

theorem missingHeads_eq_nil_iff (found : Except ContinuationFault (Option Checkpoint)) :
    (OpeningReport.ofParts record loaded found).missingHeads = [] ↔
      ∀ head ∈ record.heads, ∃ node ∈ loaded.nodes, node.id = head := by
  show record.heads.filter _ = [] ↔ _
  rw [List.filter_eq_nil_iff]
  refine forall₂_congr fun head inside => ?_
  rw [← NodeTable.contains_ofList]
  simp

/-- Nothing that was found stands in the way of exactly one continuation. -/
theorem obstacle?_eq_none_iff (found : Except ContinuationFault (Option Checkpoint)) :
    (OpeningReport.ofParts record loaded found).obstacle? record (continuation? found) = none ↔
      (∀ head ∈ record.heads, ∃ node ∈ loaded.nodes, node.id = head) ∧
        ∃ checkpoint, found = .ok (some checkpoint) ∧ checkpoint.heads = record.heads := by
  rw [← missingHeads_eq_nil_iff found]
  unfold OpeningReport.obstacle?
  cases missing : (OpeningReport.ofParts record loaded found).missingHeads with
  | cons head rest => simp
  | nil =>
      rw [if_neg (by simp)]
      cases found with
      | error fault => simp [OpeningReport.ofParts]
      | ok checkpoint =>
          cases checkpoint with
          | none => simp [OpeningReport.ofParts, continuation?]
          | some checkpoint =>
              by_cases same : checkpoint.heads = record.heads
              · simp [OpeningReport.ofParts, continuation?, Checkpoint.isFor, same]
              · simp [OpeningReport.ofParts, continuation?, Checkpoint.isFor, same]

end Found

/-! ## The decision -/

/-- The program comes as far as the report: it goes on after each number below the next one of the
run, and comes to a plan for the run if the recovery ended it. -/
def RecoveryReport.IsCounted [Numbering] (report : RecoveryReport) : Prop :=
  ∀ run, report.run = some run → run.graph.IsCounted ∧
    (run.phase.isComplete = true → report.outcome ≠ .skipped .alreadyComplete →
      run.graph.IsPlannable)

instance (report : RecoveryReport) : Decidable report.IsCounted :=
  inferInstanceAs (Decidable (∀ run ∈ report.run, run.graph.IsCounted ∧
    (run.phase.isComplete = true → report.outcome ≠ .skipped .alreadyComplete →
      run.graph.IsPlannable)))

/-- A program that wraps around comes as far as every report. -/
theorem RecoveryReport.isCounted_wrapping (report : RecoveryReport) :
    @RecoveryReport.IsCounted .wrapping report :=
  fun run _ => ⟨run.graph.isCounted_wrapping, fun _ _ => run.graph.isPlannable_wrapping⟩

/-- What a run is told that closes it because of an obstacle. -/
def closing (opened : Run) (obstacle : Obstacle) : Error := .unresumable opened.runId obstacle

/-- The resumer accepts a run with a continuation. -/
def Resumer.Accepts [Numbering]
    (resumer : Resumer) (run : Run) (machine : Machine) (blob : Bytes) : Prop :=
  ∃ replies between, (resumer run blob).run { run, machine } = .ok (.ok (), replies) between

/-- A run was closed as failed without the resumer having been called. -/
structure Refused [Numbering]
    (opened : Run) (machine : Machine) (report : RecoveryReport) (after : Machine) :
    Prop where
  call : report.call = none
  closed : ∃ obstacle run, report.outcome = .failed (closing opened obstacle) ∧
    report.run = some run ∧
    fail (closing opened obstacle).message { run := opened, machine } =
      .ok () { run, machine := after }

/-- The resumer was called once, with the opened run and a continuation; its program came to
`verdict`.  A run it accepts is left as the program left it; one it does not is closed. -/
structure HandedOver [Numbering]
    (coordinator : Coordinator) (opened : Run) (machine : Machine) (blob : Bytes)
    (verdict : Except String Unit) (report : RecoveryReport) (after : Machine) : Prop where
  called : ∃ replies between,
    (coordinator.resumer opened.resuming blob).run { run := opened.resuming, machine } =
      .ok (verdict, replies) between ∧
    report.call = some
      { runId := opened.resuming.runId, phase := opened.resuming.phase, blob, replies } ∧
    match verdict with
    | .ok () => report.outcome = .resumed ∧ report.run = some between.run.resumed ∧
        after = between.machine
    | .error reason => ∃ run,
        report.outcome = .failed (closing opened (.continuation (.rejected reason))) ∧
        report.run = some run ∧
        fail (closing opened (.continuation (.rejected reason))).message between =
          .ok () { run, machine := after }

theorem HandedOver.resumed_iff [Numbering]
    {coordinator : Coordinator} {opened : Run} {machine after : Machine}
    {blob : Bytes} {verdict : Except String Unit} {report : RecoveryReport}
    (handed : HandedOver coordinator opened machine blob verdict report after) :
    report.outcome = .resumed ↔
      coordinator.resumer.Accepts opened.resuming machine blob := by
  obtain ⟨replies, between, runs, -, rest⟩ := handed.called
  cases verdict with
  | ok => exact ⟨fun _ => ⟨replies, between, runs⟩, fun _ => rest.1⟩
  | error reason =>
      obtain ⟨run, failed, -⟩ := rest
      constructor
      · intro resumed
        cases failed.symm.trans resumed
      · rintro ⟨others, other, accepts⟩
        cases runs.symm.trans accepts

theorem HandedOver.failed [Numbering]
    {coordinator : Coordinator} {opened : Run} {machine after : Machine}
    {blob : Bytes} {verdict : Except String Unit} {report : RecoveryReport}
    (handed : HandedOver coordinator opened machine blob verdict report after)
    (other : report.outcome ≠ .resumed) : ∃ reason, report.outcome = .failed reason := by
  obtain ⟨replies, between, -, -, rest⟩ := handed.called
  cases verdict with
  | ok => exact absurd rest.1 other
  | error reason =>
      obtain ⟨run, failed, -⟩ := rest
      exact ⟨_, failed⟩

theorem Resumable.unique {record : Record} {termination : Termination} {loaded : List Node}
    {disk : Disk} {place : Place} {checkpoint other : Checkpoint}
    (resumable : Resumable record termination loaded disk place checkpoint)
    (again : Resumable record termination loaded disk place other) : other = checkpoint :=
  Except.ok.inj (again.continuation.symm.trans resumable.continuation)

namespace Coordinator

variable {coordinator : Coordinator} {place : Place} {machine : Machine} {record : Record}
  {loaded : StoredNodes} {found : Except ContinuationFault (Option Checkpoint)} {opened : Run}

/-- A run whose record or directory stands in the way is not handed over. -/
theorem resume_refuses [Numbering] (machine : Machine) (recorded : opened.record = record)
    (continued : opened.checkpoint = continuation? found)
    (unfit : ¬ (record.IsFit coordinator.termination ∧
      (∀ head ∈ record.heads, ∃ node ∈ loaded.nodes, node.id = head) ∧
        ∃ checkpoint, found = .ok (some checkpoint) ∧ checkpoint.heads = record.heads)) :
    ∃ obstacle, coordinator.resume (.ofParts record loaded found) { run := opened, machine } =
      .ok (none, some obstacle) { run := opened, machine } := by
  rw [← Record.obstacle?_eq_none_iff, ← obstacle?_eq_none_iff found] at unfit
  cases first : record.obstacle? coordinator.termination with
  | some obstacle =>
      refine ⟨obstacle, bind_eq_ok.2 ⟨opened, _, rfl, ?_⟩⟩
      rw [recorded, first]
      rfl
  | none =>
      cases second : (OpeningReport.ofParts record loaded found).obstacle? record
          (continuation? found) with
      | none => exact absurd ⟨first, second⟩ unfit
      | some obstacle =>
          refine ⟨obstacle, bind_eq_ok.2 ⟨opened, _, rfl, ?_⟩⟩
          rw [recorded, first, continued]
          simp only [second]
          rfl

/-- A run that can be resumed is handed over with its continuation. -/
theorem resume_hands_over [Numbering] (recorded : opened.record = record)
    (fit : record.IsFit coordinator.termination)
    (heads : ∀ head ∈ record.heads, ∃ node ∈ loaded.nodes, node.id = head)
    {checkpoint : Checkpoint} (continued : opened.checkpoint = some checkpoint)
    (same : checkpoint.heads = record.heads) {call : ResumeCall} {obstacle : Option Obstacle}
    {after : LiveRun}
    (hands : handOver coordinator.resumer checkpoint.blob { run := opened, machine } =
      .ok (call, obstacle) after) :
    coordinator.resume (.ofParts record loaded (.ok (some checkpoint))) { run := opened, machine } =
      .ok (some call, obstacle) after := by
  have first := (record.obstacle?_eq_none_iff coordinator.termination).2 fit
  have second : (OpeningReport.ofParts record loaded (.ok (some checkpoint))).obstacle? record
      (some checkpoint) = none :=
    (obstacle?_eq_none_iff (.ok (some checkpoint))).2 ⟨heads, checkpoint, rfl, same⟩
  refine bind_eq_ok.2 ⟨opened, _, rfl, ?_⟩
  rw [recorded, first, continued]
  simp only [second]
  exact bind_eq_ok.2 ⟨_, _, hands, rfl⟩

/-- A run that is handed over has its resumer called once. -/
theorem handOver_eq [Numbering] (coordinator : Coordinator) (opened : Run) (machine : Machine)
    (blob : Bytes) :
    ∃ verdict replies between,
      (coordinator.resumer opened.resuming blob).run { run := opened.resuming, machine } =
        .ok (verdict, replies) between ∧
      handOver coordinator.resumer blob { run := opened, machine } =
        .ok ({ runId := opened.resuming.runId, phase := opened.resuming.phase, blob, replies },
          match verdict with
          | .ok () => none
          | .error reason => some (.continuation (.rejected reason)))
          (match verdict with
          | .ok () => { between with run := between.run.resumed }
          | .error _ => between) := by
  obtain ⟨⟨verdict, replies⟩, between, runs⟩ :=
    (coordinator.resumer opened.resuming blob).run_returns { run := opened.resuming, machine }
  refine ⟨verdict, replies, between, runs, bind_eq_ok.2 ⟨(), _, rfl, bind_eq_ok.2 ⟨_, _, rfl,
    bind_eq_ok.2 ⟨_, _, runs, ?_⟩⟩⟩⟩
  cases verdict with
  | ok => rfl
  | error reason => rfl

/-- A run that meets an obstacle is closed, whatever has become of it. -/
theorem settle_eq_of_obstacle [Numbering] {report : OpeningReport} {call : Option ResumeCall}
    {obstacle : Obstacle} {between : LiveRun}
    (resumes : coordinator.resume report { run := opened, machine } =
      .ok (call, some obstacle) between) :
    ∃ run after, fail (closing opened obstacle).message between = .ok () { run, machine := after } ∧
      (coordinator.settle report).runOn opened machine =
        .ok ((.failed (closing opened obstacle), call), run) after := by
  obtain ⟨⟨⟩, ⟨run, after⟩, closes⟩ := fail_returns (closing opened obstacle).message between
  refine ⟨run, after, closes, runOn_eq_ok.2 ?_⟩
  exact bind_eq_ok.2 ⟨_, _, rfl, bind_eq_ok.2 ⟨_, _, resumes, bind_eq_ok.2 ⟨_, _, closes, rfl⟩⟩⟩

theorem settle_eq_of_none [Numbering]
    {report : OpeningReport} {call : Option ResumeCall} {between : LiveRun}
    (resumes : coordinator.resume report { run := opened, machine } = .ok (call, none) between) :
    (coordinator.settle report).runOn opened machine =
      .ok ((.resumed, call), between.run) between.machine :=
  runOn_eq_ok.2 (bind_eq_ok.2 ⟨_, _, rfl, bind_eq_ok.2 ⟨_, _, resumes, rfl⟩⟩)

/-- A run that is settled is reported as it was settled. -/
theorem recoverRun_eq_settle [Numbering] {report : OpeningReport} {outcome : RecoveryOutcome}
    {call : Option ResumeCall} {run : Run} {after : Machine}
    (opens : openReporting place machine = .ok (opened, report) machine)
    (running : opened.phase.isComplete = false) (unclaimed : place.path ∉ coordinator.claimed)
    (settles : (coordinator.settle report).runOn opened machine =
      .ok ((outcome, call), run) after) :
    coordinator.recoverRun place machine =
      .ok ({ place, runId := opened.runId, outcome, run := some run, call },
        { coordinator with claimed := place.path :: coordinator.claimed }) after := by
  have taken := takeOn_eq coordinator opens (directoryNameOf place)
  rw [running, settles] at taken
  exact recoverRun_eq_takeOn unclaimed taken

theorem recoverRun_hands_over [Numbering] {checkpoint : Checkpoint}
    (opens : openReporting place machine =
      .ok (opened, .ofParts record loaded (RunFiles.checkpointOn machine.disk place)) machine)
    (recorded : opened.record = record)
    (continued : opened.checkpoint = continuation? (RunFiles.checkpointOn machine.disk place))
    (running : opened.phase.isComplete = false) (unclaimed : place.path ∉ coordinator.claimed)
    (resumable : Resumable record coordinator.termination loaded.nodes machine.disk place
      checkpoint) :
    ∃ verdict report after,
      coordinator.recoverRun place machine =
        .ok (report, { coordinator with claimed := place.path :: coordinator.claimed }) after ∧
      HandedOver coordinator opened machine checkpoint.blob verdict report after := by
  have found := RunFiles.checkpointOn_eq_some_iff.2 resumable.continuation
  rw [found] at opens continued
  obtain ⟨verdict, replies, between, runs, hands⟩ :=
    handOver_eq coordinator opened machine checkpoint.blob
  have resumes := resume_hands_over recorded resumable.fit resumable.heads_loaded continued
    resumable.heads_eq hands
  cases verdict with
  | ok =>
      exact ⟨.ok (), _, _, recoverRun_eq_settle opens running unclaimed
        (settle_eq_of_none resumes), ⟨replies, between, runs, rfl, rfl, rfl, rfl⟩⟩
  | error reason =>
      obtain ⟨run, after, closes, settles⟩ := settle_eq_of_obstacle resumes
      exact ⟨.error reason, _, after, recoverRun_eq_settle opens running unclaimed settles,
        ⟨replies, between, runs, rfl, run, rfl, rfl, closes⟩⟩

theorem recoverRun_refuses [Numbering]
    (opens : openReporting place machine =
      .ok (opened, .ofParts record loaded (RunFiles.checkpointOn machine.disk place)) machine)
    (recorded : opened.record = record)
    (continued : opened.checkpoint = continuation? (RunFiles.checkpointOn machine.disk place))
    (running : opened.phase.isComplete = false) (unclaimed : place.path ∉ coordinator.claimed)
    (unfit : ¬ ∃ checkpoint,
      Resumable record coordinator.termination loaded.nodes machine.disk place checkpoint) :
    ∃ report after,
      coordinator.recoverRun place machine =
        .ok (report, { coordinator with claimed := place.path :: coordinator.claimed }) after ∧
      Refused opened machine report after := by
  have obstructed : ¬ (record.IsFit coordinator.termination ∧
      (∀ head ∈ record.heads, ∃ node ∈ loaded.nodes, node.id = head) ∧
        ∃ checkpoint, RunFiles.checkpointOn machine.disk place = .ok (some checkpoint) ∧
          checkpoint.heads = record.heads) := by
    rintro ⟨fit, heads, checkpoint, found, same⟩
    exact unfit ⟨checkpoint, fit, heads, RunFiles.checkpointOn_eq_some_iff.1 found, same⟩
  obtain ⟨obstacle, resumes⟩ := resume_refuses machine recorded continued obstructed
  obtain ⟨run, after, closes, settles⟩ := settle_eq_of_obstacle resumes
  exact ⟨_, after, recoverRun_eq_settle opens running unclaimed settles,
    ⟨rfl, obstacle, run, rfl, rfl, closes⟩⟩

/-- What a recovery does with a run that it opened and takes on: it hands the run over if its
directory is resumable, and refuses it if not. -/
inductive Decided [Numbering]
    (coordinator : Coordinator) (opened : Run) (record : Record) (loaded : List Node)
    (place : Place) (machine : Machine) (report : RecoveryReport) (after : Machine) : Prop
  | handed {checkpoint : Checkpoint} {verdict : Except String Unit}
      (resumable : Resumable record coordinator.termination loaded machine.disk place checkpoint)
      (handed : HandedOver coordinator opened machine checkpoint.blob verdict report after)
  | refused
      (unfit : ¬ ∃ checkpoint,
        Resumable record coordinator.termination loaded machine.disk place checkpoint)
      (refused : Refused opened machine report after)

namespace Decided

variable [Numbering] {nodes : List Node} {report : RecoveryReport} {after : Machine}
  (decided : Decided coordinator opened record nodes place machine report after)

include decided

/-- A run is resumed with the continuation of a resumable directory that the resumer accepts. -/
theorem resumed_iff : report.outcome = .resumed ↔ ∃ checkpoint,
    Resumable record coordinator.termination nodes machine.disk place checkpoint ∧
      coordinator.resumer.Accepts opened.resuming machine checkpoint.blob := by
  cases decided with
  | @handed checkpoint verdict resumable handed =>
      rw [handed.resumed_iff]
      constructor
      · exact fun accepts => ⟨checkpoint, resumable, accepts⟩
      · rintro ⟨other, again, accepts⟩
        exact resumable.unique again ▸ accepts
  | refused unfit refused =>
      obtain ⟨obstacle, run, failed, -⟩ := refused.closed
      constructor
      · intro resumed
        cases failed.symm.trans resumed
      · rintro ⟨checkpoint, resumable, -⟩
        exact absurd ⟨checkpoint, resumable⟩ unfit

theorem failed (other : report.outcome ≠ .resumed) : ∃ reason, report.outcome = .failed reason := by
  cases decided with
  | handed resumable handed => exact handed.failed other
  | refused unfit refused =>
      obtain ⟨obstacle, run, failed, -⟩ := refused.closed
      exact ⟨_, failed⟩

end Decided

/-- A run that was opened, has not ended and was not taken on before is handed over, or refused. -/
theorem recoverRun_decided [Numbering]
    (opens : openReporting place machine =
      .ok (opened, .ofParts record loaded (RunFiles.checkpointOn machine.disk place)) machine)
    (recorded : opened.record = record)
    (continued : opened.checkpoint = continuation? (RunFiles.checkpointOn machine.disk place))
    (running : opened.phase.isComplete = false) (unclaimed : place.path ∉ coordinator.claimed) :
    ∃ report after,
      coordinator.recoverRun place machine =
        .ok (report, { coordinator with claimed := place.path :: coordinator.claimed }) after ∧
      Decided coordinator opened record loaded.nodes place machine report after := by
  by_cases resumable : ∃ checkpoint,
      Resumable record coordinator.termination loaded.nodes machine.disk place checkpoint
  · obtain ⟨checkpoint, fit⟩ := resumable
    obtain ⟨verdict, report, after, recovers, handed⟩ :=
      recoverRun_hands_over opens recorded continued running unclaimed fit
    exact ⟨report, after, recovers, .handed fit handed⟩
  · obtain ⟨report, after, recovers, refused⟩ :=
      recoverRun_refuses opens recorded continued running unclaimed resumable
    exact ⟨report, after, recovers, .refused resumable refused⟩

/-- So is a run of which the record and the nodes are read. -/
theorem recoverRun_of_reads [Numbering]
    (read : RunFiles.readRecord place machine = .ok record machine)
    (unfinished : record.isComplete = false)
    (listed : (NodeStore.ofRun machine.disk place record.hint).readAll machine =
      .ok loaded machine)
    (unclaimed : place.path ∉ coordinator.claimed) :
    ∃ opened report after, openAt place machine = .ok opened machine ∧
      coordinator.recoverRun place machine =
        .ok (report, { coordinator with claimed := place.path :: coordinator.claimed }) after ∧
      Decided coordinator opened record loaded.nodes place machine report after := by
  have opens := openReporting_of_reads read listed
  have running : (restored place record (NodeStore.ofRun machine.disk place record.hint)
      loaded.nodes (continuation? (RunFiles.checkpointOn machine.disk place))).phase.isComplete =
        false := (Phase.isComplete_ofRecord record).trans unfinished
  obtain ⟨report, after, recovers, decided⟩ :=
    recoverRun_decided opens rfl rfl running unclaimed
  exact ⟨_, report, after, bind_eq_ok.2 ⟨_, _, opens, rfl⟩, recovers, decided⟩

/-- A run that is handed over is so with the continuation that was read. -/
theorem recoverRun_handed_or_refused {kept : Coordinator} {report : RecoveryReport}
    {after : Machine}
    (opens : openReporting place machine =
      .ok (opened, .ofParts record loaded (RunFiles.checkpointOn machine.disk place)) machine)
    (recorded : opened.record = record)
    (continued : opened.checkpoint = continuation? (RunFiles.checkpointOn machine.disk place))
    (running : opened.phase.isComplete = false) (unclaimed : place.path ∉ coordinator.claimed)
    (recovers : coordinator.recoverRun place machine = .ok (report, kept) after) :
    (∃ checkpoint verdict, opened.checkpoint = some checkpoint ∧
      HandedOver coordinator opened machine checkpoint.blob verdict report after) ∨
      Refused opened machine report after := by
  obtain ⟨other, between, recovers', decided⟩ :=
    recoverRun_decided opens recorded continued running unclaimed
  cases recovers'.symm.trans recovers
  cases decided with
  | @handed checkpoint verdict resumable handed =>
      refine .inl ⟨checkpoint, verdict, ?_, handed⟩
      rw [continued, RunFiles.checkpointOn_eq_some_iff.2 resumable.continuation]
      rfl
  | refused unfit refused => exact .inr refused

/-- A run that has ended is left alone. -/
theorem recoverRun_complete {kept : Coordinator} {report : RecoveryReport} {after : Machine}
    {found : OpeningReport} (opens : openReporting place machine = .ok (opened, found) machine)
    (complete : opened.phase.isComplete = true) (unclaimed : place.path ∉ coordinator.claimed)
    (recovers : coordinator.recoverRun place machine = .ok (report, kept) after) :
    report.outcome = .skipped .alreadyComplete ∧ report.run = some opened ∧ after = machine := by
  have skipped := takeOn_eq coordinator opens (directoryNameOf place)
  rw [complete, if_pos rfl] at skipped
  cases (recoverRun_eq_takeOn unclaimed skipped).symm.trans recovers
  exact ⟨rfl, rfl, rfl⟩

/-- A recovery that does not skip a run that was opened has it handed over, or refuses it. -/
theorem recoverRun_cases {kept : Coordinator} {report : RecoveryReport} {after : Machine}
    (opens : openReporting place machine =
      .ok (opened, .ofParts record loaded (RunFiles.checkpointOn machine.disk place)) machine)
    (recorded : opened.record = record)
    (continued : opened.checkpoint = continuation? (RunFiles.checkpointOn machine.disk place))
    (recovers : coordinator.recoverRun place machine = .ok (report, kept) after)
    (unskipped : ∀ reason, report.outcome ≠ .skipped reason) :
    opened.phase.isComplete = false ∧
      ((∃ checkpoint verdict, opened.checkpoint = some checkpoint ∧
        HandedOver coordinator opened machine checkpoint.blob verdict report after) ∨
        Refused opened machine report after) := by
  have unclaimed : place.path ∉ coordinator.claimed :=
    fun claimed => unskipped _ (recoverRun_claimed claimed recovers).1
  have running : opened.phase.isComplete = false :=
    Bool.eq_false_iff.2 fun complete =>
      unskipped _ (recoverRun_complete opens complete unclaimed recovers).1
  exact ⟨running,
    recoverRun_handed_or_refused opens recorded continued running unclaimed recovers⟩

/-- **The decision whether to resume**: let a record of a run that has not ended and a list of
nodes be read from a directory that was not taken on before.  Then the run is opened and is
reported either as resumed or as failed; as resumed exactly if its directory is resumable with
a continuation that the resumer accepts.  If it is resumable, the resumer is called once, with
the opened run and that continuation; if not, it is not called.

A program that checks its arithmetic stops where a number has none after it, so the report must be
one to which it comes. -/
theorem recoverRun_decides [Numbering]
    (read : RunFiles.readRecord place machine = .ok record machine)
    (unfinished : record.isComplete = false)
    (listed : (NodeStore.ofRun machine.disk place record.hint).readAll machine =
      .ok loaded machine)
    (unclaimed : place.path ∉ coordinator.claimed)
    (counted : ∀ report kept after,
      coordinator.recoverRun place machine = .ok (report, kept) after → report.IsCounted) :
    ∃ opened report after, openAt place machine = .ok opened machine ∧
      coordinator.recoverRun place machine =
        .ok (report, { coordinator with claimed := place.path :: coordinator.claimed }) after ∧
      report.IsCounted ∧
      (report.outcome = .resumed ↔ ∃ checkpoint,
        Resumable record coordinator.termination loaded.nodes machine.disk place checkpoint ∧
          coordinator.resumer.Accepts opened.resuming machine checkpoint.blob) ∧
      (report.outcome ≠ .resumed → ∃ reason, report.outcome = .failed reason) ∧
      (∀ checkpoint,
        Resumable record coordinator.termination loaded.nodes machine.disk place checkpoint →
          ∃ verdict, HandedOver coordinator opened machine checkpoint.blob verdict report after) ∧
      ((¬ ∃ checkpoint,
        Resumable record coordinator.termination loaded.nodes machine.disk place checkpoint) →
          Refused opened machine report after) := by
  obtain ⟨opened, report, after, opens, recovers, decided⟩ :=
    recoverRun_of_reads read unfinished listed unclaimed
  refine ⟨opened, report, after, opens, recovers, counted _ _ _ recovers, decided.resumed_iff,
    decided.failed, ?_, ?_⟩
  · intro checkpoint fit
    cases decided with
    | handed resumable handed => exact resumable.unique fit ▸ ⟨_, handed⟩
    | refused unfit => exact absurd ⟨checkpoint, fit⟩ unfit
  · intro unfit
    cases decided with
    | handed resumable => exact absurd ⟨_, resumable⟩ unfit
    | refused _ refused => exact refused

/-- The record of a run that was paused at its first node. -/
def pausedRecord : Record :=
  { Record.fresh "sample" .maxSurvivability .sample with heads := [1], clean := .clean,
                                                         status := .paused }

/-- The continuation of a run that was paused at its first node. -/
def pausedCheckpoint : Checkpoint := { heads := [1], blob := [7], takenAt := .sample }

theorem pausedCheckpoint_storable : pausedCheckpoint.Storable := by
  simp [Checkpoint.Storable, pausedCheckpoint, UInt64.size]

/-- A directory with this record, this continuation and the first node is resumable. -/
theorem pausedRecord_resumable {loaded : List Node} {disk : Disk} {place : Place}
    (first : Graph.firstNode ∈ loaded)
    (stands : disk.at? (RunFiles.checkpointFile place).path =
      some (.file pausedCheckpoint.toJson.pretty)) :
    Resumable pausedRecord .dirty loaded disk place pausedCheckpoint := by
  constructor
  case fit => exact .inl ⟨rfl, rfl⟩
  case heads_loaded => exact fun head inside => ⟨_, first, (List.mem_singleton.1 inside).symm⟩
  case continuation =>
    exact Disk.readJson_eq_ok stands (Checkpoint.isOrdinary_toJson pausedCheckpoint_storable)
      (Checkpoint.ofJson?_toJson pausedCheckpoint_storable)
  case heads_eq => rfl

/-- A machine with the directory of this run, in which one more file was left empty. -/
def pausedMachine : Machine :=
  { disk := ⟨[(["run"], .directory),
      (["run", "execution.json"], .file pausedRecord.toJson.pretty),
      (["run", "program.json"], .file pausedCheckpoint.toJson.pretty),
      (["run", "nodes"], .directory),
      (["run", "nodes", "1.json"], .file Graph.firstNode.toJson.pretty),
      (["run", "nodes", "2.json"], .file [])]⟩
    now := .sample }

/-- A coordinator whose resumer accepts every run. -/
def accepting : Coordinator :=
  { root := ⟨"", []⟩, termination := .dirty, resumer := fun _ _ => .result (.ok ())
    config := .default }

/-- A paused run is resumed after a kill, although a file in its directory cannot be read. -/
theorem recoverRun_resumes_paused : ∃ loaded opened report after,
    RunFiles.readRecord .sample pausedMachine = .ok pausedRecord pausedMachine ∧
      (NodeStore.ofRun pausedMachine.disk .sample pausedRecord.hint).readAll pausedMachine =
        .ok loaded pausedMachine ∧
      openAt .sample pausedMachine = .ok opened pausedMachine ∧
      accepting.recoverRun .sample pausedMachine =
        .ok (report, { accepting with claimed := [["run"]] }) after ∧
      report.outcome = .resumed ∧
      ∃ verdict, HandedOver accepting opened pausedMachine [7] verdict report after := by
  have read : RunFiles.readRecord .sample pausedMachine = .ok pausedRecord pausedMachine := by
    have storable : pausedRecord.Storable := ⟨by decide, by decide⟩
    have found : pausedMachine.disk.readJson (RunFiles.recordFile .sample).path Record.ofJson? =
        .ok pausedRecord :=
      Disk.readJson_eq_ok (by decide +kernel) (Record.isOrdinary_toJson storable)
        (Record.ofJson?_toJson storable)
    exact RunFiles.readRecord_eq_ok_of_found found
  have listed : ∃ loaded, (NodeStore.ofRun pausedMachine.disk .sample pausedRecord.hint).readAll
      pausedMachine = .ok loaded pausedMachine ∧ loaded.nodes = [Graph.firstNode] :=
    ⟨_, rfl, by decide +kernel⟩
  obtain ⟨loaded, listed, nodes⟩ := listed
  have resumable : Resumable pausedRecord .dirty loaded.nodes pausedMachine.disk .sample
      pausedCheckpoint := pausedRecord_resumable (by simp [nodes]) (by decide +kernel)
  have counted : ∀ report kept after,
      accepting.recoverRun .sample pausedMachine = .ok (report, kept) after → report.IsCounted := by
    have passed : Run.passes (fun found _ => decide found.1.IsCounted)
      (accepting.recoverRun .sample pausedMachine) = true := by decide +kernel
    exact fun _ _ _ recovers => Run.holds_of_passes passed recovers
  obtain ⟨opened, report, after, opens, recovers, -, resumed, -, handed, -⟩ :=
    accepting.recoverRun_decides read rfl listed (List.not_mem_nil) counted
  exact ⟨loaded, opened, report, after, read, listed, opens, recovers,
    resumed.2 ⟨_, resumable, [], _, rfl⟩, handed _ resumable⟩

end Coordinator
end DurableRuns
