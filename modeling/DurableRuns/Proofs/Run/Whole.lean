/-
# DurableRuns.Proofs.Run.Whole -- a clean record stands beside a whole graph

If its record is clean, a directory is opened with exactly one of the graphs that the run
held (`OpensWhole`).  Every disk that a kill can leave in the midst of an operation is like
this, the graphs being the ones from before and from after the operation
(`Run.Guarded.opensWhole`).  For a program these are the graphs between its commands.
-/
import DurableRuns.Proofs.Run.Commands
import DurableRuns.Proofs.Run.Reopened

namespace DurableRuns

set_option autoImplicit false

open Run RunM

/-- If the record on a disk is clean, its run is opened with one of the given graphs. -/
def OpensWhole (place : Place) (held : List Graph) (disk : Disk) : Prop :=
  ∀ machine : Machine, machine.disk = disk → ∀ record,
    RunFiles.readRecord place machine = .ok record machine → record.clean = .clean →
      ∃ run, openAt place machine = .ok run machine ∧ run.graph ∈ held

/-- The record that a directory shows is the one that is read. -/
theorem RunFiles.eq_of_readRecord {machine : Machine} {place : Place} {kind : StorageKind}
    {image : Image} {record : Record} (shows : Shows machine.disk place kind image)
    (storable : ∀ shown, image.record = some shown → shown.Storable)
    (read : readRecord place machine = .ok record machine) : image.record = some record := by
  cases recorded : image.record with
  | some shown =>
      have same := readRecord_eq_ok shows recorded (storable shown recorded)
      cases same.symm.trans read
      rfl
  | none =>
      have nothing := shows.record
      rw [recorded, ← path_recordFile] at nothing
      have missing : machine.disk.readJson (recordFile place).path Record.ofJson? =
          .error (.disk (machine.disk.missing (recordFile place).path)) := by
        simp [Disk.readJson, Disk.read, nothing]
      rw [readRecord, Machine.readJson_eq, missing] at read
      cases read

/-- An image whose record stands beside a graph is opened with this graph. -/
theorem openAt_of_has {place : Place} {machine : Machine} {image : Image} {record : Record}
    {graph : Graph} (shows : Shows machine.disk place record.hint.storageKind image)
    (recorded : image.record = some record) (storable : image.Storable)
    (has : image.Has record graph) (well : graph.WellFormed) :
    ∃ run, openAt place machine = .ok run machine ∧ run.graph = graph := by
  refine ⟨ofImage place record image.nodes image.checkpoint, openAt_eq shows recorded storable, ?_⟩
  rw [has.nodes]
  exact graph_ofImage place well has.heads _

/-- What a kill leaves in the midst of an operation is whole if the record says so. -/
theorem Run.Guarded.opensWhole {run : Run} {before : Graph} {disk : Disk}
    (guarded : run.Guarded before disk) (fits : run.graph.Fits)
    (le : before.nextId ≤ run.graph.nextId) (wellBefore : before.WellFormed)
    (storableBefore : before.Storable) (well : run.graph.WellFormed)
    (storable : run.graph.Storable) : OpensWhole run.place [before, run.graph] disk := by
  obtain ⟨image, shows, guards⟩ := guarded
  have small {id : Nat} (lower : id < run.graph.nextId) : id < UInt64.size :=
    Nat.lt_of_lt_of_le lower fits
  have records (shown : Record) (recorded : image.record = some shown) : shown.Storable := by
    obtain ⟨below, -⟩ := guards shown recorded
    exact ⟨below.version_lt, fun head inside => small (below.heads_lt head inside)⟩
  rintro machine rfl record read clean
  have recorded := RunFiles.eq_of_readRecord shows records read
  obtain ⟨below, harmless⟩ := guards record recorded
  obtain ⟨checkpoints, has⟩ := harmless clean
  rw [← below.hint_eq] at shows
  have opens {graph : Graph} (here : image.Has record graph) (wellHere : graph.WellFormed)
      (storableHere : graph.Storable) (fitsHere : graph.Fits) :
      ∃ opened, openAt run.place machine = .ok opened machine ∧ opened.graph = graph := by
    have readable : image.Storable := by
      constructor
      case record => exact records
      case nodes =>
        intro id node stored
        rw [here.nodes] at stored
        exact storableHere fitsHere id node stored
      case checkpoint =>
        intro checkpoint there head inside
        exact small (checkpoints checkpoint there head inside)
    exact openAt_of_has shows recorded readable here wellHere
  rcases has with old | new
  · obtain ⟨opened, ok, same⟩ := opens old wellBefore storableBefore (Nat.le_trans le fits)
    exact ⟨opened, ok, by simp [same]⟩
  · obtain ⟨opened, ok, same⟩ := opens new well storable fits
    exact ⟨opened, ok, by simp [same]⟩

theorem OpensWhole.mono {place : Place} {held more : List Graph} {disk : Disk}
    (whole : OpensWhole place held disk) (subset : held ⊆ more) : OpensWhole place more disk := by
  intro machine same record read clean
  obtain ⟨run, opened, inside⟩ := whole machine same record read clean
  exact ⟨run, opened, subset inside⟩

/-- Between two operations the disk is whole, too. -/
theorem Settled.opensWhole {live : LiveRun} {image : Image} (settled : Settled live image)
    (fits : live.run.graph.Fits) :
    OpensWhole live.run.place [live.run.graph] live.machine.disk := by
  have guarded : live.run.Guarded live.run.graph live.machine.disk :=
    ⟨image, settled.tracks.shows, settled.tracks.guards⟩
  have whole := guarded.opensWhole fits (Nat.le_refl _) settled.well settled.storable settled.well
    settled.storable
  exact whole.mono (by simp)

/-! ## Steps that come to a settled run -/

/-- A step from a settled run comes to a settled run, and every disk on the way is whole. -/
structure Goes {α : Type} (held : List Graph) (step : RunM α) (live : LiveRun)
    (outcome : Except Error α) (after : LiveRun) (image' : Image) : Prop where
  yields : Yields (fun disk => after.run.graph.Fits → OpensWhole live.run.place held disk) step live
    outcome after
  settled : Settled after image'
  place_eq : after.run.place = live.run.place
  nextId_le : live.run.graph.nextId ≤ after.run.graph.nextId

namespace Goes

variable {α β : Type} {live between after : LiveRun} {image image₁ image₂ : Image}

theorem of_performs {step : RunM α} {outcome : Except Error α} {safe grows : Bool}
    (settled : Settled live image)
    (done : Yields (after.run.Guarded live.run.graph) step live outcome after)
    (performs : Performs live after image image₂ safe grows) :
    Goes [live.run.graph, after.run.graph] step live outcome after image₂ := by
  refine ⟨done.mono fun disk guarded fits => ?_, performs.settled, performs.place_eq,
    performs.nextId_le⟩
  have whole := guarded.opensWhole fits performs.nextId_le settled.well settled.storable
    performs.settled.well performs.settled.storable
  exact performs.place_eq ▸ whole

theorem mono {held more : List Graph} {step : RunM α} {outcome : Except Error α}
    (goes : Goes held step live outcome after image) (subset : held ⊆ more) :
    Goes more step live outcome after image :=
  { goes with
    yields := goes.yields.mono fun _ whole fits => (whole fits).mono subset }

theorem attempt {held : List Graph} {step : RunM α} {outcome : Except Error α}
    (goes : Goes held step live outcome after image) :
    Goes held (RunM.attempt step) live (.ok outcome) after image :=
  { goes with yields := goes.yields.attempt }

theorem bind {held : List Graph} {step : RunM α} {next : α → RunM β} {value : α}
    {outcome : Except Error β} (first : Goes held step live (.ok value) between image₁)
    (second : Goes held (next value) between outcome after image₂) :
    Goes held (step >>= next) live outcome after image₂ := by
  refine ⟨.bind (first.yields.mono ?_) (second.yields.mono ?_), second.settled,
    second.place_eq.trans first.place_eq, Nat.le_trans first.nextId_le second.nextId_le⟩
  · intro disk whole fits
    exact whole (Nat.le_trans second.nextId_le fits)
  · intro disk whole fits
    exact first.place_eq ▸ whole fits

/-- A step that changes no file comes to a settled run if the run in memory is still one. -/
theorem still {held : List Graph} {step : RunM α} {outcome : Except Error α}
    (settled : Settled after image) (done : ∀ meets, Yields meets step live outcome after)
    (place : after.run.place = live.run.place) (graph : after.run.graph = live.run.graph) :
    Goes held step live outcome after image :=
  ⟨done _, settled, place, Nat.le_of_eq (congrArg Graph.nextId graph.symm)⟩

end Goes

/-! ## Programs -/

namespace Program

variable {α : Type}

/-- The actions that a program may ever bring along can be written. -/
def Storable : Program α → Prop
  | .result _ => True
  | .ask command next => command.Storable ∧ ∀ reply, (next reply).Storable

/-- The graphs that a run has before, between and after the commands of a program. -/
def held : Program α → LiveRun → List Graph
  | .result _, live => [live.run.graph]
  | .ask command next, live =>
      match attempt command.perform live with
      | .ok reply after => live.run.graph :: (next reply).held after
      | .error _ _ => [live.run.graph]

theorem head_mem_held (program : Program α) (live : LiveRun) :
    live.run.graph ∈ program.held live := by
  cases program with
  | result value => simp [held]
  | ask command next =>
      rw [held]
      cases attempt command.perform live with
      | ok reply after => simp
      | error error after => simp

/-- Every program comes to its result and leaves a settled run. -/
theorem run_goes {program : Program α} (storable : program.Storable) {live : LiveRun}
    {image : Image} (settled : Settled live image) :
    ∃ value after image', Goes (program.held live) program.run live (.ok value) after image' ∧
      after.run.graph ∈ program.held live := by
  -- Every command is an operation of its own, so a kill leaves a graph from around one of them.
  induction program generalizing live image with
  | result value =>
      exact ⟨_, live, image, .still settled (fun _ => .pure _) rfl rfl, head_mem_held _ live⟩
  | ask command next ih =>
      obtain ⟨fits, later⟩ := storable
      obtain ⟨reply, between, image₁, done, performs⟩ := command.perform_keeps settled fits
      obtain ⟨value, after, image₂, goes, last⟩ := ih reply (later reply) performs.settled
      have held_eq : (Program.ask command next).held live =
          live.run.graph :: (next reply).held between := by
        rw [held, done.result]
      have here : [live.run.graph, between.run.graph] ⊆
          live.run.graph :: (next reply).held between := by
        have inside := (next reply).head_mem_held between
        simp [inside]
      have first := (Goes.of_performs settled done performs).mono here
      have rest := goes.mono (List.subset_cons_self live.run.graph _)
      rw [held_eq]
      exact ⟨_, after, image₂, first.attempt.bind (rest.bind
        (.still goes.settled (fun _ => .pure _) rfl rfl)), List.mem_cons_of_mem _ last⟩

end Program
end DurableRuns
