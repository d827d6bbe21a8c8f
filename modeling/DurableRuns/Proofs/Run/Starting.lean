/-
# DurableRuns.Proofs.Run.Starting -- a started run is settled

In an empty directory a start writes a dirty record, the first node and a clean record, in
this order.  What it leaves is on disk and settled (`start_settled`).
-/
import DurableRuns.Proofs.Run.Refusals
import DurableRuns.Proofs.Run.Reopening
import DurableRuns.Proofs.Run.Settled

namespace DurableRuns

set_option autoImplicit false

open RunM

/-- Nothing stands below the path of a place. -/
def Place.IsVacant (place : Place) (disk : Disk) : Prop :=
  ∀ path, place.path <+: path → path ≠ place.path → disk.at? path = none

/-- Where there was nothing, a directory is made and nothing more. -/
theorem Place.IsVacant.reached {place : Place} {disk made : Disk} (vacant : place.IsVacant disk)
    (directories : disk.makeDirectories place.path = .ok made) :
    made.IsReached place.path ∧ place.IsVacant made := by
  constructor
  · intro above up
    exact (Disk.at?_makeDirectories directories above).trans (if_pos up)
  · intro path below different
    have proper : ¬ path <+: place.path := fun up =>
      different (List.IsPrefix.eq_of_length up (Nat.le_antisymm up.length_le below.length_le))
    have same := Disk.at?_makeDirectories directories path
    rw [if_neg proper] at same
    exact same.trans (vacant path below different)

namespace Run

variable {machine after : Machine} {place : Place} {runId : String} {asked : Option Hint}
  {config : Config} {run : Run}

/-- What begins a run that has only its first node. -/
def beginning : RunM Unit := do
  markDirty
  storeNode Graph.firstNode
  reachSafePoint

/-- The run that a start has made and not yet written. -/
def begun (machine : Machine) (place : Place) (runId : String) (hint : Hint) : Run :=
  fresh machine.disk place runId hint .first machine.now

theorem begun_store (reached : machine.disk.IsReached place.path)
    (vacant : place.IsVacant machine.disk) (runId : String) (hint : Hint) :
    (begun machine place runId hint).store = NodeStore.ofImage place hint .empty := by
  have shows : Shows machine.disk place hint.storageKind .blank := .of_empty reached vacant
  have storable : Image.Storable .blank := by
    constructor
    case record => exact fun _ none => by cases none
    case nodes => exact fun _ _ none => by cases none
    case checkpoint => exact fun _ none => by cases none
  exact NodeStore.ofRun_eq shows storable

/-- A run that was not written yet tracks an empty directory. -/
theorem begun_tracks (reached : machine.disk.IsReached place.path)
    (vacant : place.IsVacant machine.disk)
    (willing : ∀ refusal ∈ machine.refusals, refusal = false) (runId : String) (hint : Hint) :
    Tracks (begun machine place runId hint) .first
      { run := begun machine place runId hint, machine } .blank := by
  have shows : Shows machine.disk place hint.storageKind .blank := .of_empty reached vacant
  constructor
  case life => rfl
  case shows => exact shows
  case willing => exact willing
  case store => exact storeKnows_ofImage (begun_store reached vacant runId hint)
  case flag => exact fun _ none => by cases none
  case persisted => exact fun _ => rfl
  case held => exact fun _ => rfl
  case record_below =>
    have version : 1 < UInt32.size := by decide
    exact ⟨rfl, version, fun head inside => by cases inside⟩
  case checkpoint_below => exact fun _ none => by cases none
  case shown_below => exact fun _ none => by cases none
  case guards => exact fun _ none => by cases none

/-- What begins a run leaves it on disk. -/
theorem beginning_yields {base : Run} {live : LiveRun} (graph : base.graph = .first)
    (unfailed : base.storageFault = none) (tracks : Tracks base .first live .blank)
    (nothing : live.run.kept .blank = .empty) :
    ∃ after image, Yields (base.Guarded .first) beginning live (.ok ()) after ∧
      Tracks base .first after image ∧ OnDisk after.run image ∧
      after.run.checkpointPersisted = true := by
  obtain ⟨live₁, image₁, mark, tracks₁, dirtied⟩ := markDirty_yields tracks
  have stored : base.graph.get? Graph.firstNode.id = some Graph.firstNode := by
    rw [graph, Graph.get?_first]
    rfl
  obtain ⟨live₂, image₂, store, tracks₂, ⟨⟨_, run₂⟩, -, -⟩, takes, -⟩ :=
    storeNode_takes tracks₁ dirtied.flag stored
  have kept : live₂.run.kept image₂ = base.graph.table := by
    apply takes.eq_table
    intro id other
    have different : id ≠ firstId := fun same => other (List.mem_singleton.2 same)
    rw [dirtied.kept_eq, nothing, graph]
    show none = Graph.first.get? id
    rw [Graph.get?_first, if_neg different]
  obtain ⟨after, image₃, reach, tracked, onDisk, persisted⟩ :=
    reachSafePoint_yields tracks₂ (graph ▸ Graph.wellFormed_first) unfailed kept
      (by simp [run₂, dirtied.flag])
  exact ⟨after, image₃, mark.bind (store.bind reach), tracked, onDisk, persisted⟩

/-- A start makes the directory and then writes what begins the run. -/
theorem of_start_eq_ok [Numbering]
    (started : start place runId asked config machine = .ok run after) :
    ∃ reached, Machine.commit (.makeDirectories place.path) .disk machine = .ok () reached ∧
      beginning { run := begun reached place runId (config.hintFor asked), machine := reached } =
        .ok () { run, machine := after } := by
  obtain ⟨_, _, looked, rest⟩ := bind_eq_ok.1 started
  cases looked
  split at rest
  · cases rest
  · obtain ⟨_, reached, made, rest⟩ := bind_eq_ok.1 rest
    refine ⟨reached, made, ?_⟩
    rw [Graph.append_empty] at rest
    obtain ⟨_, _, looked, rest⟩ := bind_eq_ok.1 rest
    cases looked
    obtain ⟨_, _, begins, rest⟩ := bind_eq_ok.1 rest
    cases rest
    exact runOn_eq_ok.1 begins

/-- Where there was nothing, a start begins its run in a directory that has nothing either. -/
theorem start_begins (vacant : place.IsVacant machine.disk)
    (started : start place runId asked config machine = .ok run after) :
    ∃ made, made.IsReached place.path ∧ place.IsVacant made ∧
      beginning
        { run := begun (machine.changed (.makeDirectories place.path) made) place runId
            (config.hintFor asked)
          machine := machine.changed (.makeDirectories place.path) made } =
        .ok () { run, machine := after } := by
  obtain ⟨reached, done, begins⟩ := of_start_eq_ok started
  rcases machine.commit_cases (.makeDirectories place.path) .disk with
    ⟨made, directories, taken⟩ | ⟨fault, refused⟩
  · cases taken.symm.trans done
    obtain ⟨standing, still⟩ := vacant.reached directories
    exact ⟨made, standing, still, begins⟩
  · cases refused.symm.trans done

/-- Where there was nothing, and no file in the way, a start goes through. -/
theorem start_returns (vacant : place.IsVacant machine.disk) (free : machine.disk.IsFree place.path)
    (willing : ∀ refusal ∈ machine.refusals, refusal = false) (runId : String)
    (asked : Option Hint) (config : Config) :
    ∃ run after, start place runId asked config machine = .ok run after := by
  obtain ⟨made, directories⟩ := Disk.makeDirectories_succeeds free
  have taken := Machine.commit_eq_ok willing
    (show (Change.makeDirectories place.path).apply machine.disk = .ok made from directories) .disk
  obtain ⟨standing, still⟩ := vacant.reached directories
  have willingNow : ∀ refusal ∈ (machine.changed (.makeDirectories place.path) made).refusals,
      refusal = false := Machine.willing_changed willing
  obtain ⟨after, image, done, -⟩ := beginning_yields rfl rfl
    (begun_tracks standing still willingNow runId (config.hintFor asked))
    (kept_ofImage (begun_store standing still runId (config.hintFor asked)))
  have none : RunFiles.isRun machine.disk place = false := by
    have record : machine.disk.at? (RunFiles.recordFile place).path = none := by
      rw [RunFiles.path_recordFile]
      exact vacant _ (List.prefix_append ..) (by simp)
    rw [RunFiles.isRun, Disk.isFile, record]
  refine ⟨after.run, after.machine, ?_⟩
  rw [start, Machine.get_bind, none, if_neg Bool.false_ne_true]
  refine bind_eq_ok.2 ⟨(), _, taken, ?_⟩
  rw [Graph.append_empty]
  refine bind_eq_ok.2 ⟨_, _, rfl, bind_eq_ok.2 ⟨((), after.run), after.machine, ?_, rfl⟩⟩
  exact runOn_eq_ok.2 (Yields.attempt_eq_ok.1 done.result)

/-- A run that is started in an empty directory is settled, and all of it is on disk. -/
theorem start_settled (vacant : place.IsVacant machine.disk)
    (willing : ∀ refusal ∈ machine.refusals, refusal = false)
    (started : start place runId asked config machine = .ok run after) :
    ∃ image, Settled { run, machine := after } image ∧ run.IsSaved ∧ run.place = place ∧
      run.phase = .running ∧ run.graph = .first := by
  obtain ⟨disk, standing, still, begins⟩ := start_begins vacant started
  have willingNow : ∀ refusal ∈ (machine.changed (.makeDirectories place.path) disk).refusals,
      refusal = false := Machine.willing_changed willing
  have tracks := begun_tracks standing still willingNow runId (config.hintFor asked)
  have nothing : (begun (machine.changed (.makeDirectories place.path) disk) place runId
      (config.hintFor asked)).kept .blank = .empty :=
    kept_ofImage (begun_store standing still runId (config.hintFor asked))
  obtain ⟨live, image, done, tracked, onDisk, persisted⟩ :=
    beginning_yields rfl rfl tracks nothing
  have same := Yields.attempt_eq_ok.1 done.result
  cases same.symm.trans begins
  have sound : Life.Sound run.life := by
    rw [tracked.life]
    exact ⟨.inl rfl, rfl, rfl, (fun ended => by cases ended), rfl⟩
  obtain ⟨settled, saved⟩ := Settled.of_onDisk tracked onDisk persisted Graph.wellFormed_first
    Graph.storable_first sound
  exact ⟨image, settled, saved, tracked.place_eq, tracked.phase_eq, tracked.graph_eq⟩

end Run

/-! ## A start that is carried out -/

/-- Noon on the first day of 2024. -/
def Instant.sample : Instant :=
  ⟨⟨2024, 1, 1⟩, 720, 0, 0, by decide, by decide, by decide, by decide⟩

/-- A machine with nothing on its disk, of which every write is taken. -/
def Machine.blank : Machine := { disk := .empty, now := .sample }

theorem Machine.willing_blank (disk : Disk) :
    ∀ refusal ∈ { blank with disk }.refusals, refusal = false := by
  simp [blank]

/-- A place on a disk with nothing on it. -/
def Place.sample : Place := ⟨"run", ["run"]⟩

theorem Place.sample_isVacant : Place.sample.IsVacant Machine.blank.disk := by
  intro path below _
  have inside : path ≠ [] := by
    rintro rfl
    simp [sample] at below
  rw [Disk.at?_eq_lookup _ inside]
  rfl

/-- What a step gave, and what it left, pass a test. -/
def Run.passes {σ α : Type} (test : α → σ → Bool) : EStateM.Result Error σ α → Bool
  | .ok value left => test value left
  | .error .. => false

theorem Run.of_passes {σ α : Type} {test : α → σ → Bool} {result : EStateM.Result Error σ α}
    (passed : passes test result = true) :
    ∃ value left, result = .ok value left ∧ test value left = true := by
  cases result with
  | ok value left => exact ⟨value, left, rfl, passed⟩
  | error error left => cases passed

/-- What passed a test holds of whatever the step gave. -/
theorem Run.holds_of_passes {σ α : Type} {holds : α → Prop} [DecidablePred holds]
    {result : EStateM.Result Error σ α}
    (passed : passes (fun value _ => decide (holds value)) result = true) {value : α} {left : σ}
    (gives : result = .ok value left) : holds value := by
  subst gives
  exact of_decide_eq_true passed

end DurableRuns
