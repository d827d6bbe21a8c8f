/-
# DurableRuns.Proofs.Run.Ending -- an ended run is on disk, and nothing is left open

To end a run is to write its last nodes, a clean record that tells how it ended, and to drop
its continuation, in this order (`conclude_yields`).  A run that is closed as failed has its
graph repaired first, which goes through for every well-formed graph
(`endAsFailed_yields`).
-/
import DurableRuns.Proofs.Flow.RepairPlan
import DurableRuns.Proofs.Run.Tracking

namespace DurableRuns.Run

set_option autoImplicit false

open RunM

variable {base : Run} {before : Graph} {live : LiveRun} {image : Image}

/-- The run once it has ended. -/
def ended (run : Run) (result : RunResult) : Run :=
  { run with
    record := { run.record with status := .complete, result }
    checkpoint := none
    checkpointPersisted := true
    phase := .complete result }

/-- The run whose record tells that it has ended. -/
def endedOnRecord (run : Run) (result : RunResult) : Run :=
  { run with record := { run.record with status := .complete, result } }

theorem Tracks.endedOnRecord (tracks : Tracks base before live image) (result : RunResult) :
    Tracks (base.endedOnRecord result) before
      { live with run := live.run.endedOnRecord result } image :=
  { tracks with
    life := congrArg (fun life : Life => { life with status := .complete, result }) tracks.life
    record_below := ⟨tracks.record_below.hint_eq, tracks.record_below.version_lt,
      tracks.record_below.heads_lt⟩ }

/-- The last nodes and the record of the ended run are written, and its continuation is
dropped. -/
theorem persistEnd_yields {nodes : List Node} (tracks : Tracks base before live image)
    (well : base.graph.WellFormed) (unfailed : base.storageFault = none) (result : RunResult)
    (current : ∀ node ∈ nodes, base.graph.get? node.id = some node)
    (opened : ∀ node ∈ nodes, ∀ start, node.kind.closes = some start →
      base.graph.contains start = true)
    (lacks : ∀ id, id ∉ nodes.flatMap Node.touched →
      (live.run.kept image).get? id = base.graph.get? id) :
    ∃ after image', Yields (base.Guarded before) (persistEnd nodes result) live (.ok ()) after ∧
      Tracks (base.ended result) before { after with run := after.run.ended result } image' ∧
      OnDisk (after.run.ended result) image' := by
  obtain ⟨live₁, image₁, mark, tracks₁, dirtied⟩ := markDirty_yields tracks
  obtain ⟨live₂, image₂, store, tracks₂, stored, takes⟩ :=
    storeSteps_yields tracks₁ dirtied.flag current opened
  obtain ⟨_, run₂⟩ := stored.run
  have dirty₂ : live₂.run.diskFlag = .dirty := by
    rw [run₂]
    exact dirtied.flag
  have kept₂ : live₂.run.kept image₂ = base.graph.table := by
    rw [dirtied.kept_eq] at takes
    exact takes.eq_table lacks
  obtain ⟨live₃, flush, tracks₃, ⟨_, run₃⟩, -, kept₃⟩ :=
    flushStore_yields tracks₂ (by simp [dirty₂])
  have tracks₄ := Tracks.endedOnRecord tracks₃ result
  obtain ⟨live₅, clean, tracks₅, onDisk, -⟩ :=
    markClean_yields tracks₄ well unfailed kept₂ (kept₃.trans kept₂)
  obtain ⟨machine, remove, shows, willing⟩ := removeCheckpoint_yields tracks₅
  let shown : Image :=
    { record := some live₅.run.record, nodes := live₂.run.kept image₂, checkpoint := none }
  have status : live₅.run.record.status = .complete := congrArg Life.status tracks₅.life
  have ending : live₅.run.record.result = result := congrArg Life.result tracks₅.life
  have record : (live₅.run.ended result).record = live₅.run.record := by
    rw [ended, ← status, ← ending]
  have guards : shown.Guards base.hint before base.graph := by
    intro found same
    obtain ⟨below, harmless⟩ := tracks₅.guards found same
    refine ⟨below, fun isClean => ⟨by simp [shown], ?_⟩⟩
    rcases (harmless isClean).2 with old | new
    · exact .inl ⟨old.nodes, old.heads⟩
    · exact .inr ⟨new.nodes, new.heads⟩
  refine ⟨{ run := live₅.run, machine }, shown, mark.bind (store.bind (flush.bind
    (.bind (.update _) (clean.bind (.bind .current remove))))), ?_, ?_⟩
  · constructor
    case life =>
      exact congrArg (fun life : Life => { life with
        status := .complete, result, checkpoint := none, phase := .complete result }) tracks₅.life
    case shows => exact shows
    case willing => exact willing
    case store => exact tracks₅.store
    case flag => exact tracks₅.flag
    case persisted => exact fun _ => rfl
    case held => exact fun _ => rfl
    case record_below =>
      have below := tracks₅.record_below
      exact ⟨below.hint_eq, below.version_lt, below.heads_lt⟩
    case checkpoint_below => simp [ended]
    case shown_below => simp [shown]
    case guards => exact guards
  · constructor
    case record => exact congrArg some record.symm
    case clean => exact record ▸ onDisk.clean
    case flag => exact onDisk.flag
    case heads => exact record ▸ onDisk.heads
    case nodes => exact onDisk.nodes
    case kept => exact onDisk.kept

/-- A run that ends is on disk as ended. -/
theorem conclude_yields {nodes : List Node} (tracks : Tracks base before live image)
    (well : base.graph.WellFormed) (unfailed : base.storageFault = none) (result : RunResult)
    (current : ∀ node ∈ nodes, base.graph.get? node.id = some node)
    (opened : ∀ node ∈ nodes, ∀ start, node.kind.closes = some start →
      base.graph.contains start = true)
    (lacks : ∀ id, id ∉ nodes.flatMap Node.touched →
      (live.run.kept image).get? id = base.graph.get? id) :
    ∃ after image', Yields (base.Guarded before) (conclude nodes result) live (.ok ()) after ∧
      Tracks (base.ended result) before after image' ∧ OnDisk after.run image' ∧
      after.run.checkpointPersisted = true := by
  obtain ⟨between, image', persist, tracked, onDisk⟩ :=
    persistEnd_yields tracks well unfailed result current opened lacks
  refine ⟨_, image', persist.noted.bind (.bind (.update _) .release), ?_, onDisk, rfl⟩
  exact { tracked with }

/-- A run is closed as failed: its graph is repaired, and all of it is on disk. -/
theorem endAsFailed_yields (tracks : Tracks base base.graph live image)
    (well : base.graph.WellFormed) (storable : base.graph.Storable)
    (unfailed : base.storageFault = none) (whole : live.run.kept image = base.graph.table)
    (reason : String) :
    ∃ repaired after image',
      Yields ({ base with graph := repaired }.Guarded
        (graphBefore live.run.diskFlag base.graph repaired)) (endAsFailed reason) live (.ok ())
        after ∧
      Tracks ({ base with graph := repaired }.ended .failure)
        (graphBefore live.run.diskFlag base.graph repaired) after image' ∧
      OnDisk after.run image' ∧ after.run.checkpointPersisted = true ∧ repaired.WellFormed ∧
      repaired.Storable ∧ base.graph.nextId ≤ repaired.nextId := by
  obtain ⟨repaired, nodes, applied, extended⟩ := RepairPlan.apply_make well reason
  have grown : Tracks { base with graph := repaired }
      (graphBefore live.run.diskFlag base.graph repaired)
      { live with run := { live.run with graph := repaired } } image := by
    rw [graphBefore]
    split
    next => exact tracks.grown extended.nextId_le
    next unclean => exact (tracks.grown extended.nextId_le).of_unclean unclean _
  have wellNow := extended.wellFormed well
  have lacks : ∀ id, id ∉ nodes.flatMap Node.touched →
      (live.run.kept image).get? id = repaired.get? id := by
    intro id untouched
    rw [whole]
    exact (extended.get?_of_not_mem_touched untouched).symm
  obtain ⟨after, image', done, tracked, onDisk, persisted⟩ :=
    conclude_yields grown wellNow unfailed .failure (extended.stored well.isUsable)
      extended.start_stored lacks
  refine ⟨repaired, after, image', .bind .current ?_, tracked, onDisk, persisted, wellNow,
    extended.storable well storable, extended.nextId_le⟩
  rw [tracks.graph_eq, applied]
  exact .bind (.update _) done

end DurableRuns.Run
