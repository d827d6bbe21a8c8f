/-
# DurableRuns.Proofs.Run.LastSafePoint -- a kill costs what was done since the last safe point

A `Watched` run is a run beside what it was at its last safe point.  However it is used, and
whenever the process is killed between two commands, what its directory is opened with is the
run as of this safe point, and the record there is clean as long as nothing has grown since
(`reopened_at_last_safe_point`).

The invariant is that the image in the directory saves the snapshot of the last safe point
(`Image.Saves`), whose graph may by then be older than the one in memory.
-/
import DurableRuns.Proofs.Run.Commands
import DurableRuns.Proofs.Run.Reopened
import DurableRuns.Proofs.Run.Starting

namespace DurableRuns

set_option autoImplicit false

open Run RunM

/-- What a run is, apart from what it knows of the disk. -/
structure Snapshot where
  runId : String
  hint : Hint
  phase : Phase
  status : RecordStatus
  result : RunResult
  graph : Graph
  checkpoint : Option Checkpoint
deriving DecidableEq, Repr

/-- What a run in memory is. -/
def Run.snapshot (run : Run) : Snapshot :=
  { runId := run.runId, hint := run.hint, phase := run.phase, status := run.record.status
    result := run.record.result, graph := run.graph, checkpoint := run.checkpoint }

/-! ## What a directory saves -/

/-- An image saves a snapshot in a record. -/
structure Image.Saves (image : Image) (snapshot : Snapshot) (record : Record) : Prop where
  recorded : image.record = some record
  runId : record.runId = snapshot.runId
  hint : record.hint = snapshot.hint
  phase : Phase.ofRecord record = snapshot.phase
  status : record.status = snapshot.status
  result : record.result = snapshot.result
  has : image.Has record snapshot.graph
  well : snapshot.graph.WellFormed
  checkpoint : image.checkpoint = snapshot.checkpoint

section Saving

variable {live : LiveRun} {image image' : Image} {snapshot : Snapshot} {record : Record}

/-- What is saved is still saved where only the flag of the record has changed. -/
theorem Image.SavesSame.saves (same : image.SavesSame image')
    (saves : image.Saves snapshot record) : ∃ record', image'.Saves snapshot record' := by
  obtain ⟨record', recorded, kept⟩ := same.record record saves.recorded
  have field {α : Type} (read : Record → α) (ignores : ∀ record flag now,
      read { record with clean := flag, updatedAt := now } = read record) :
      read record' = read record :=
    (ignores record' record.clean record.updatedAt).symm.trans (congrArg read kept)
  refine ⟨record', ?_⟩
  constructor
  case recorded => exact recorded
  case runId => exact (field Record.runId fun _ _ _ => rfl).trans saves.runId
  case hint => exact (field Record.hint fun _ _ _ => rfl).trans saves.hint
  case phase => exact (field Phase.ofRecord fun _ _ _ => rfl).trans saves.phase
  case status => exact (field Record.status fun _ _ _ => rfl).trans saves.status
  case result => exact (field Record.result fun _ _ _ => rfl).trans saves.result
  case has =>
    exact ⟨same.nodes.trans saves.has.nodes,
      (field Record.heads fun _ _ _ => rfl).trans saves.has.heads⟩
  case well => exact saves.well
  case checkpoint => exact same.checkpoint.trans saves.checkpoint

/-- A settled run that is on disk is saved as what it is. -/
theorem Settled.saves (settled : Settled live image) (saved : live.run.IsSaved)
    (awake : live.run.phase ≠ .resuming) :
    image.Saves live.run.snapshot live.run.record := by
  constructor
  case recorded => exact settled.record
  case runId => exact settled.sound.recordId
  case hint => exact settled.sound.recordHint
  case phase => exact settled.sound.phase_ofRecord awake
  case status => rfl
  case result => rfl
  case has => exact settled.has_of_clean saved.flag
  case well => exact settled.well
  case checkpoint => exact settled.tracks.persisted saved.persisted

/-- A directory that saves a snapshot is opened with it. -/
theorem Image.Saves.opens {place : Place} {machine : Machine} (saves : image.Saves snapshot record)
    (storable : image.Storable)
    (shows : Shows machine.disk place snapshot.hint.storageKind image) :
    ∃ run, openAt place machine = .ok run machine ∧ run.snapshot = snapshot ∧
      run.record = record := by
  rw [← saves.hint] at shows
  have graph := graph_ofImage place saves.well saves.has.heads image.checkpoint
  rw [← saves.has.nodes] at graph
  refine ⟨ofImage place record image.nodes image.checkpoint,
    openAt_eq shows saves.recorded storable, ?_, rfl⟩
  obtain ⟨runId, hint, phase, status, result, graph', checkpoint⟩ := snapshot
  simp only [snapshot, graph, Snapshot.mk.injEq]
  exact ⟨saves.runId, saves.hint, saves.phase, saves.status, saves.result, trivial,
    saves.checkpoint⟩

end Saving

/-! ## Histories -/

/-- A run beside what it was at its last safe point. -/
structure Watched where
  live : LiveRun
  safe : Snapshot
  /-- Since then a node was appended or an action attached. -/
  grown : Bool

namespace Watched

/-- A start is a safe point. -/
def begun (run : Run) (machine : Machine) : Watched :=
  { live := { run, machine }, safe := run.snapshot, grown := false }

/-- The run after a command that was given at a point in time.  For a run that writes every
step, each command is a safe point. -/
def after (watched : Watched) (now : Instant) (command : Command) : Watched :=
  match attempt command.perform (watched.live.atTime now) with
  | .error _ live => { watched with live }
  | .ok outcome live =>
      if watched.live.run.hint.writesEveryStep || command.isSafePoint watched.live.run outcome then
        { live, safe := live.run.snapshot, grown := false }
      else { live, safe := watched.safe, grown := watched.grown || command.hasGrown outcome }

/-- The run after a history of commands, each given at a point in time. -/
def afterAll (watched : Watched) (history : List (Instant × Command)) : Watched :=
  history.foldl (fun watched given => watched.after given.1 given.2) watched

end Watched

/-- The directory of a run has what the run was at its last safe point. -/
structure Watched.Recoverable (watched : Watched) (place : Place) (image : Image) : Prop where
  settled : Settled watched.live image
  place_eq : watched.live.run.place = place
  awake : watched.live.run.phase ≠ .resuming
  hint_eq : watched.safe.hint = watched.live.run.hint
  saves : ∃ record, image.Saves watched.safe record
  flag : watched.live.run.diskFlag = if watched.grown then .dirty else .clean

namespace Watched

variable {watched : Watched} {place : Place} {image : Image}

theorem recoverable_of_saved {live : LiveRun} (settled : Settled live image)
    (saved : live.run.IsSaved) (here : live.run.place = place)
    (awake : live.run.phase ≠ .resuming) :
    Recoverable { live, safe := live.run.snapshot, grown := false } place image :=
  ⟨settled, here, awake, rfl, ⟨_, settled.saves saved awake⟩, saved.flag⟩

/-- After a command the directory has what the run was at its last safe point. -/
theorem after_recoverable (recoverable : watched.Recoverable place image) (now : Instant)
    {command : Command} (fits : command.Storable) :
    ∃ image', (watched.after now command).Recoverable place image' := by
  obtain ⟨outcome, live, image', done, performs⟩ :=
    command.perform_keeps (recoverable.settled.atTime now) fits
  have here := performs.place_eq.trans recoverable.place_eq
  have awake : live.run.phase ≠ .resuming := fun resuming =>
    recoverable.awake (performs.awake resuming)
  refine ⟨image', ?_⟩
  rw [Watched.after]
  simp only [done.result]
  split
  next point =>
    exact recoverable_of_saved performs.settled (performs.saved point) here awake
  next later =>
    -- What is not a safe point leaves on disk all that counts, but it may turn the flag.
    obtain ⟨same, flag⟩ := performs.unsaved (by simpa using later)
    obtain ⟨record, saves⟩ := recoverable.saves
    have hint := recoverable.hint_eq.trans performs.hint_eq.symm
    refine ⟨performs.settled, here, awake, hint, same.saves saves, ?_⟩
    have before := recoverable.flag
    cases grown : command.hasGrown outcome with
    | true => simpa [grown] using flag
    | false => simpa [grown, before] using flag

/-- So it has after every history. -/
theorem afterAll_recoverable (recoverable : watched.Recoverable place image)
    {history : List (Instant × Command)} (fits : ∀ given ∈ history, given.2.Storable) :
    ∃ image', (watched.afterAll history).Recoverable place image' := by
  induction history generalizing watched image with
  | nil => exact ⟨image, recoverable⟩
  | cons given rest ih =>
      obtain ⟨first, later⟩ := List.forall_mem_cons.1 fits
      obtain ⟨image', next⟩ := after_recoverable recoverable given.1 first
      exact ih next later

end Watched

/-- **What a kill costs**: a run was started in an empty directory and was given commands, and
no write failed.  Whenever it is dropped, its directory is opened with the run as it was at
its last safe point.  The record there is clean exactly if nothing has grown since. -/
theorem reopened_at_last_safe_point {place : Place} {runId : String} {asked : Option Hint}
    {config : Config} {machine started : Machine} {run : Run} (vacant : place.IsVacant machine.disk)
    (willing : ∀ refusal ∈ machine.refusals, refusal = false)
    (begins : Run.start place runId asked config machine = .ok run started)
    (history : List (Instant × Command)) (storable : ∀ given ∈ history, given.2.Storable)
    (fits : ((Watched.begun run started).afterAll history).live.run.graph.Fits)
    (later : Machine)
    (dropped : later.disk = ((Watched.begun run started).afterAll history).live.machine.disk) :
    ∃ reopened, Run.openAt place later = .ok reopened later ∧
      reopened.snapshot = ((Watched.begun run started).afterAll history).safe ∧
      RunFiles.readRecord place later = .ok reopened.record later ∧
      (reopened.record.clean = .clean ↔
        ((Watched.begun run started).afterAll history).grown = false) := by
  obtain ⟨first, settled, saved, here, running, -⟩ := start_settled vacant willing begins
  obtain ⟨image, recoverable⟩ :=
    Watched.afterAll_recoverable
      (Watched.recoverable_of_saved settled saved here (by simp [running])) storable
  change ((Watched.begun run started).afterAll history).Recoverable place image at recoverable
  generalize (Watched.begun run started).afterAll history = watched at *
  obtain ⟨record, saves⟩ := recoverable.saves
  have shows := recoverable.settled.tracks.shows
  rw [recoverable.place_eq, ← recoverable.hint_eq, ← dropped] at shows
  have readable := recoverable.settled.storable_image fits
  obtain ⟨reopened, opened, same, rfl⟩ := saves.opens readable shows
  refine ⟨reopened, opened, same, ?_, ?_⟩
  · exact RunFiles.readRecord_eq_ok shows saves.recorded (readable.record _ saves.recorded)
  · rw [recoverable.settled.tracks.flag _ saves.recorded, recoverable.flag]
    cases watched.grown with
    | true => simp
    | false => simp

/-- Two nodes, of which the second was not flushed. -/
def unflushed : List (Instant × Command) :=
  [(.sample, .append { kind := .atom, name := "first" }), (.sample, .flush),
    (.sample, .append { kind := .atom, name := "second" })]

theorem reopened_without_unflushed : ∃ run started,
    Run.start .sample "sample" (some .performanceOptimized) .default .blank = .ok run started ∧
      let watched := (Watched.begun run started).afterAll unflushed
      watched.safe.graph ≠ watched.live.run.graph ∧
      ∃ reopened, Run.openAt .sample watched.live.machine = .ok reopened watched.live.machine ∧
        reopened.snapshot = watched.safe ∧
        RunFiles.readRecord .sample watched.live.machine =
          .ok reopened.record watched.live.machine ∧
        (reopened.record.clean = .clean ↔ watched.grown = false) := by
  have passed : Run.passes (fun run started =>
      let watched := (Watched.begun run started).afterAll unflushed
      decide (watched.safe.graph ≠ watched.live.run.graph) &&
        decide watched.live.run.graph.Fits)
      (Run.start .sample "sample" (some .performanceOptimized) .default .blank) = true := by
    decide +kernel
  obtain ⟨run, started, begins, holds⟩ := Run.of_passes passed
  obtain ⟨lost, fits⟩ := Bool.and_eq_true_iff.1 holds
  have storable : ∀ given ∈ unflushed, given.2.Storable := by
    simp [unflushed, Command.Storable, NodeDraft.Storable]
  exact ⟨run, started, begins, of_decide_eq_true lost,
    reopened_at_last_safe_point Place.sample_isVacant (fun _ none => by cases none) begins unflushed
      storable (of_decide_eq_true fits) _ rfl⟩

end DurableRuns
