/-
# DurableRuns.Proofs.Run.Tracking -- a run knows what its directory shows

While an operation writes, the run in memory stays what it is but for what it knows of the
disk.  `Tracks base before live image` says so: `live` is the run `base` with its directory
showing `image`, the device refuses nothing, and the run knows of the image what it acts
upon: the flag of the record, the nodes that were flushed, the continuation.

It also says what a kill would leave.  If the record in the image is clean, the image has the
graph from `before` the operation or the one the run has now.  Every disk on the way meets
this (`Guarded`).

Each part of which the operations are made has one law: from a run that tracks an image it
comes to a run that tracks the image with one part replaced.
-/
import DurableRuns.Proofs.Flow.WellFormed
import DurableRuns.Proofs.Run.Directory
import DurableRuns.Proofs.Run.Logic

namespace DurableRuns

set_option autoImplicit false

open NodeStore (directoryName batchFileName)

/-- A record is that of a run with a hint, and fits into its file if the numbers below a bound
do. -/
structure Record.Below (record : Record) (hint : Hint) (bound : Nat) : Prop where
  hint_eq : record.hint = hint
  version_lt : record.version < UInt32.size
  heads_lt : ∀ head ∈ record.heads, head < bound

/-- A continuation fits into its file if the numbers below a bound do. -/
def Checkpoint.Below (checkpoint : Checkpoint) (bound : Nat) : Prop :=
  ∀ head ∈ checkpoint.heads, head < bound

namespace Image

/-- An image has a graph, its heads being those of the record. -/
structure Has (image : Image) (record : Record) (graph : Graph) : Prop where
  nodes : image.nodes = graph.table
  heads : record.heads = graph.heads

/-- What a kill leaves on the way from one graph to another: a clean record stands only
beside one of them. -/
def Guards (image : Image) (hint : Hint) (before after : Graph) : Prop :=
  ∀ record, image.record = some record → record.Below hint after.nextId ∧
    (record.clean = .clean →
      (∀ checkpoint, image.checkpoint = some checkpoint → checkpoint.Below after.nextId) ∧
        (image.Has record before ∨ image.Has record after))

end Image

/-- What a run is in memory, beside what it knows of the disk. -/
structure Life where
  runId : String
  place : Place
  hint : Hint
  phase : Phase
  graph : Graph
  checkpoint : Option Checkpoint
  storageFault : Option Error
  version : Nat
  recordId : String
  recordHint : Hint
  status : RecordStatus
  result : RunResult
  createdAt : Instant

namespace Run

/-- What a run is in memory, beside what it knows of the disk. -/
def life (run : Run) : Life :=
  { runId := run.runId, place := run.place, hint := run.hint, phase := run.phase
    graph := run.graph, checkpoint := run.checkpoint, storageFault := run.storageFault
    version := run.record.version, recordId := run.record.runId
    recordHint := run.record.hint, status := run.record.status, result := run.record.result
    createdAt := run.record.createdAt }

/-- The store is the one of the run, and without unflushed nodes it has what is shown. -/
def StoreKnows (run : Run) (image : Image) : Prop :=
  match run.store with
  | .immediate directory _ =>
      run.hint.storageKind = .immediate ∧ directory = run.place.join directoryName
  | .batched file nodes unflushed _ =>
      run.hint.storageKind = .batched ∧ file = run.place.join batchFileName ∧
        (unflushed = 0 → image.nodes = nodes)

/-- The nodes that the store has, written or not. -/
def kept (run : Run) (image : Image) : NodeTable :=
  match run.store with
  | .immediate .. => image.nodes
  | .batched _ nodes _ _ => nodes

/-- Where nothing waits to be written the directory has the nodes of the store. -/
theorem kept_of_isFlushed {run : Run} {image : Image} (knows : run.StoreKnows image)
    (flushed : run.store.isFlushed = true) : run.kept image = image.nodes := by
  unfold StoreKnows at knows
  unfold kept
  cases store : run.store with
  | immediate directory atomic => rfl
  | batched file nodes unflushed fault =>
      rw [store] at knows flushed
      exact (knows.2.2 (of_decide_eq_true flushed)).symm

theorem kept_congr {run other : Run} {image image' : Image} (store : other.store = run.store)
    (nodes : image'.nodes = image.nodes) : other.kept image' = run.kept image := by
  unfold kept
  rw [store, nodes]

/-- The disks that a kill may leave while a run writes. -/
def Guarded (base : Run) (before : Graph) (disk : Disk) : Prop :=
  ∃ image, Shows disk base.place base.hint.storageKind image ∧ image.Guards base.hint before base.graph

theorem Guarded.of_after {base : Run} {before : Graph} {disk : Disk}
    (guarded : base.Guarded base.graph disk) : base.Guarded before disk := by
  obtain ⟨image, shows, guards⟩ := guarded
  refine ⟨image, shows, fun record shown => ?_⟩
  obtain ⟨below, harmless⟩ := guards record shown
  exact ⟨below, fun clean => ⟨(harmless clean).1, .inr ((harmless clean).2.elim id id)⟩⟩

/-- What a run was before an operation that began under a record with a flag: a clean one
stood for the old graph, another one for none. -/
def graphBefore (flag : CleanFlag) (before after : Graph) : Graph :=
  if flag = .clean then before else after

theorem Guarded.of_graphBefore {base : Run} {flag : CleanFlag} {before : Graph} {disk : Disk}
    (guarded : base.Guarded (graphBefore flag before base.graph) disk) :
    base.Guarded before disk := by
  rw [graphBefore] at guarded
  split at guarded
  · exact guarded
  · exact guarded.of_after

end Run

/-- A run knows what its directory shows, and a kill would do no harm. -/
structure Tracks (base : Run) (before : Graph) (live : LiveRun) (image : Image) : Prop where
  life : live.run.life = base.life
  shows : Shows live.machine.disk base.place base.hint.storageKind image
  willing : ∀ refusal ∈ live.machine.refusals, refusal = false
  store : live.run.StoreKnows image
  flag : ∀ record, image.record = some record → record.clean = live.run.diskFlag
  persisted : live.run.checkpointPersisted = true → image.checkpoint = live.run.checkpoint
  held : live.run.checkpoint = none → live.run.checkpointPersisted = true
  record_below : live.run.record.Below base.hint base.graph.nextId
  checkpoint_below : ∀ checkpoint, live.run.checkpoint = some checkpoint →
    checkpoint.Below base.graph.nextId
  shown_below : ∀ checkpoint, image.checkpoint = some checkpoint →
    checkpoint.Below base.graph.nextId
  guards : image.Guards base.hint before base.graph

namespace Tracks

variable {base : Run} {before : Graph} {live : LiveRun} {image : Image}

theorem place_eq (tracks : Tracks base before live image) : live.run.place = base.place :=
  congrArg Life.place tracks.life

theorem hint_eq (tracks : Tracks base before live image) : live.run.hint = base.hint :=
  congrArg Life.hint tracks.life

theorem phase_eq (tracks : Tracks base before live image) : live.run.phase = base.phase :=
  congrArg Life.phase tracks.life

theorem graph_eq (tracks : Tracks base before live image) : live.run.graph = base.graph :=
  congrArg Life.graph tracks.life

theorem storageFault_eq (tracks : Tracks base before live image) :
    live.run.storageFault = base.storageFault :=
  congrArg Life.storageFault tracks.life

/-- A run whose graph grows before anything is written. -/
theorem grown {graph : Graph} (tracks : Tracks base base.graph live image)
    (le : base.graph.nextId ≤ graph.nextId) :
    Tracks { base with graph } base.graph { live with run := { live.run with graph } } image := by
  have checkpoints (checkpoint : Checkpoint) (below : checkpoint.Below base.graph.nextId) :
      checkpoint.Below graph.nextId :=
    fun head inside => Nat.lt_of_lt_of_le (below head inside) le
  have records (record : Record) (below : record.Below base.hint base.graph.nextId) :
      record.Below base.hint graph.nextId :=
    ⟨below.hint_eq, below.version_lt, fun head inside => Nat.lt_of_lt_of_le (below.heads_lt head inside) le⟩
  constructor
  case life =>
    have same := tracks.life
    simp only [Run.life, Life.mk.injEq] at same ⊢
    simp [same]
  case shows => exact tracks.shows
  case willing => exact tracks.willing
  case store => exact tracks.store
  case flag => exact tracks.flag
  case persisted => exact tracks.persisted
  case held => exact tracks.held
  case record_below => exact records _ tracks.record_below
  case checkpoint_below => exact fun found same => checkpoints _ (tracks.checkpoint_below _ same)
  case shown_below => exact fun found same => checkpoints _ (tracks.shown_below _ same)
  case guards =>
    intro record shown
    obtain ⟨below, harmless⟩ := tracks.guards record shown
    refine ⟨records _ below, fun clean => ⟨?_, ?_⟩⟩
    · exact fun found same => checkpoints _ (tracks.shown_below _ same)
    · rcases (harmless clean).2 with old | new
      · exact .inl old
      · exact .inl new

/-- While the record is not clean, it does not matter what the run was before. -/
theorem of_unclean (tracks : Tracks base before live image) (unclean : live.run.diskFlag ≠ .clean)
    (other : Graph) : Tracks base other live image := by
  refine { tracks with guards := ?_ }
  intro record shown
  refine ⟨(tracks.guards record shown).1, fun clean => ?_⟩
  exact absurd ((tracks.flag record shown).symm.trans clean) unclean

/-- A tracked run whose nodes on the disk changed while its record was dirty. -/
theorem ofStore {machine : Machine} {nodes : NodeTable} {store : NodeStore}
    (tracks : Tracks base before live image)
    (clean : live.run.diskFlag = .clean → nodes = image.nodes)
    (shows : Shows machine.disk base.place base.hint.storageKind { image with nodes })
    (willing : ∀ refusal ∈ machine.refusals, refusal = false)
    (knows : Run.StoreKnows { live.run with store } { image with nodes }) :
    Tracks base before { run := { live.run with store }, machine } { image with nodes } := by
  constructor
  case life => exact tracks.life
  case shows => exact shows
  case willing => exact willing
  case store => exact knows
  case flag => exact tracks.flag
  case persisted => exact tracks.persisted
  case held => exact tracks.held
  case record_below => exact tracks.record_below
  case checkpoint_below => exact tracks.checkpoint_below
  case shown_below => exact tracks.shown_below
  case guards =>
    intro record shown
    obtain ⟨below, harmless⟩ := tracks.guards record shown
    refine ⟨below, fun isClean => ?_⟩
    have same := clean ((tracks.flag record shown).symm.trans isClean)
    subst same
    exact harmless isClean

end Tracks

namespace Run

open RunM

variable {base : Run} {before : Graph} {live : LiveRun} {image : Image}

/-! ## The record -/

/-- The record as it is stamped with a flag at a time. -/
def stamped (record : Record) (flag : CleanFlag) (now : Instant) : Record :=
  { record with clean := flag, updatedAt := now }

/-- The image after the record of a run was stamped. -/
def stampedImage (live : LiveRun) (image : Image) (flag : CleanFlag) : Image :=
  { image with record := some (stamped live.run.record flag live.machine.now) }

theorem stampRecord_yields (tracks : Tracks base before live image) (flag : CleanFlag)
    (guard : flag = .clean →
      (stampedImage live image flag).Has live.run.record before ∨
        (stampedImage live image flag).Has live.run.record base.graph) :
    ∃ after, Yields (base.Guarded before) (stampRecord flag) live (.ok ()) after ∧
      after.run = { live.run with
        record := stamped live.run.record flag live.machine.now, diskFlag := flag } ∧
      Tracks base before after (stampedImage live image flag) := by
  obtain ⟨written, ok, shows⟩ :=
    tracks.shows.writeRecord (stamped live.run.record flag live.machine.now)
  have guards : (stampedImage live image flag).Guards base.hint before base.graph := by
    intro record same
    obtain rfl := Option.some.inj same
    have below := tracks.record_below
    refine ⟨⟨below.hint_eq, below.version_lt, below.heads_lt⟩, ?_⟩
    intro clean
    refine ⟨tracks.shown_below, ?_⟩
    rcases guard clean with old | new
    · exact .inl ⟨old.nodes, old.heads⟩
    · exact .inr ⟨new.nodes, new.heads⟩
  have place := tracks.place_eq
  rw [← place] at ok
  refine ⟨_, .bind .get (.bind (.update _) (.bind .current (.bind
    (.commit tracks.willing ok ⟨_, shows, guards⟩) (.update _)))), rfl, ?_⟩
  constructor
  case life => exact tracks.life
  case shows => exact shows
  case willing => exact Machine.willing_changed tracks.willing
  case store => exact tracks.store
  case flag =>
    rintro record same
    obtain rfl := Option.some.inj same
    rfl
  case persisted => exact tracks.persisted
  case held => exact tracks.held
  case record_below =>
    have below := tracks.record_below
    exact ⟨below.hint_eq, below.version_lt, below.heads_lt⟩
  case checkpoint_below => exact tracks.checkpoint_below
  case shown_below => exact tracks.shown_below
  case guards => exact guards

/-- Nothing is clean any more, and all but the record is as it was. -/
structure Dirtied (live after : LiveRun) (image image' : Image) : Prop where
  flag : after.run.diskFlag = .dirty
  record : image.record = some live.run.record → image'.record = some after.run.record
  heads : after.run.record.heads = live.run.record.heads
  store : after.run.store = live.run.store
  persisted : after.run.checkpointPersisted = live.run.checkpointPersisted
  nodes : image'.nodes = image.nodes
  checkpoint : image'.checkpoint = image.checkpoint

theorem Dirtied.kept_eq {after : LiveRun} {image' : Image} (dirtied : Dirtied live after image image') :
    after.run.kept image' = live.run.kept image :=
  kept_congr dirtied.store dirtied.nodes

theorem markDirty_yields (tracks : Tracks base before live image) :
    ∃ after image', Yields (base.Guarded before) markDirty live (.ok ()) after ∧
      Tracks base before after image' ∧ Dirtied live after image image' := by
  by_cases dirty : live.run.diskFlag = .dirty
  · refine ⟨live, image, .bind .current ?_, tracks, ⟨dirty, id, rfl, rfl, rfl, rfl, rfl⟩⟩
    rw [if_pos dirty]
    exact .pure ()
  · obtain ⟨after, stamp, run, tracked⟩ := stampRecord_yields tracks .dirty (by simp)
    refine ⟨after, _, .bind .current ?_, tracked, ?_⟩
    · rw [if_neg dirty]
      exact stamp.attempt.bind (.pure ())
    · rw [stampedImage]
      constructor
      case flag => rw [run]
      case record =>
        intro _
        rw [run]
      case heads => rw [run, stamped]
      case store => rw [run]
      case persisted => rw [run]
      case nodes => rfl
      case checkpoint => rfl

/-! ## The nodes -/

/-- The store was written to, and all else of the run is as it was. -/
structure Stored (live after : LiveRun) (image image' : Image) : Prop where
  run : ∃ store, after.run = { live.run with store }
  record : image'.record = image.record
  checkpoint : image'.checkpoint = image.checkpoint

theorem Stored.trans {between after : LiveRun} {image₁ image₂ : Image}
    (first : Stored live between image image₁) (second : Stored between after image₁ image₂) :
    Stored live after image image₂ := by
  obtain ⟨store, same⟩ := second.run
  obtain ⟨_, old⟩ := first.run
  refine ⟨⟨store, ?_⟩, second.record.trans first.record, second.checkpoint.trans first.checkpoint⟩
  rw [same, old]

theorem storeNode_yields (tracks : Tracks base before live image)
    (dirty : live.run.diskFlag = .dirty) (node : Node) :
    ∃ after image', Yields (base.Guarded before) (storeNode node) live (.ok ()) after ∧
      Tracks base before after image' ∧ Stored live after image image' ∧
      after.run.kept image' = (live.run.kept image).insert node ∧
      (base.hint.storageKind = .batched →
        image'.nodes = image.nodes ∧ after.run.store.isFlushed = false) := by
  rw [storeNode_eq]
  have knows := tracks.store
  unfold StoreKnows at knows
  cases store : live.run.store with
  | batched file nodes unflushed fault =>
      rw [store] at knows
      obtain ⟨kind, place, -⟩ := knows
      have saved : live.run.store.save node live.machine =
          .ok (.batched file (nodes.insert node) (unflushed + 1) fault) live.machine := by
        rw [store]
        rfl
      have later : StoreKnows
          { live.run with store := .batched file (nodes.insert node) (unflushed + 1) fault }
          image := ⟨kind, place, fun none => absurd none (Nat.succ_ne_zero _)⟩
      have tracked := tracks.ofStore (fun _ => rfl) tracks.shows tracks.willing later
      refine ⟨_, image, .bind .current (.bind (.onMachine saved (.refl _)) (.update _)), tracked,
        ⟨⟨_, rfl⟩, rfl, rfl⟩, ?_, fun _ => ⟨rfl, rfl⟩⟩
      simp [kept, store]
  | immediate directory atomic =>
      rw [store] at knows
      obtain ⟨kind, rfl⟩ := knows
      have shows := tracks.shows
      rw [← tracks.hint_eq, kind] at shows
      obtain ⟨written, ok, shown⟩ := shows.writeNode node
      rw [← tracks.place_eq] at ok
      rw [← kind, tracks.hint_eq] at shown
      obtain ⟨change, made, wrote⟩ := Machine.writeJson_eq_ok tracks.willing ok atomic
      have saved : live.run.store.save node live.machine =
          .ok live.run.store (live.machine.changed change written) := by
        rw [store]
        simp only [NodeStore.save_eq, bind, EStateM.bind, wrote]
        rfl
      have notClean : live.run.diskFlag ≠ .clean := by simp [dirty]
      have later : StoreKnows { live.run with store := live.run.store }
          { image with nodes := image.nodes.insert node } := by
        simp [StoreKnows, store, kind]
      have willing : ∀ refusal ∈ (live.machine.changed change written).refusals,
          refusal = false := Machine.willing_changed tracks.willing
      have tracked := tracks.ofStore (fun clean => absurd clean notClean) shown willing later
      have passes : Passes (base.Guarded before) live.machine _ :=
        .commit made ⟨_, shown, tracked.guards⟩
      refine ⟨_, _, .bind .current (.bind (.onMachine saved passes) (.update _)), tracked,
        ⟨⟨_, rfl⟩, rfl, rfl⟩, ?_, ?_⟩
      · simp [kept, store]
      · intro batched
        rw [← tracks.hint_eq, kind] at batched
        cases batched

/-- A table takes over from a graph what stands under given numbers. -/
def TakesOver (graph : Graph) (ids : List Nat) (old new : NodeTable) : Prop :=
  ∀ id, new.get? id = if id ∈ ids then graph.get? id else old.get? id

theorem TakesOver.append {graph : Graph} {ids later : List Nat} {old between new : NodeTable}
    (first : TakesOver graph ids old between) (second : TakesOver graph later between new) :
    TakesOver graph (ids ++ later) old new := by
  intro id
  rw [second, first]
  by_cases early : id ∈ ids
  · by_cases late : id ∈ later
    · simp [early, late]
    · simp [early, late]
  · simp [early]

theorem takesOver_insert {graph : Graph} {node : Node} (stored : graph.get? node.id = some node)
    (old : NodeTable) : TakesOver graph [node.id] old (old.insert node) := by
  intro id
  rw [NodeTable.get?_insert]
  by_cases same : id = node.id
  · subst same
    simp [stored]
  · simp [same]

/-- If the table had all but what it took over, it now has all. -/
theorem TakesOver.eq_table {graph : Graph} {ids : List Nat} {old new : NodeTable}
    (takes : TakesOver graph ids old new) (same : ∀ id, id ∉ ids → old.get? id = graph.get? id) :
    new = graph.table := by
  apply NodeTable.eq_of_get?
  intro id
  rw [takes]
  by_cases inside : id ∈ ids
  · rw [if_pos inside]
    rfl
  · rw [if_neg inside, same id inside]
    rfl

/-- A node was saved: while nodes are batched the disk does not have it yet. -/
def Waits (base : Run) (after : LiveRun) (image image' : Image) : Prop :=
  base.hint.storageKind = .batched →
    image'.nodes = image.nodes ∧ after.run.store.isFlushed = false

/-- The store takes over the saved node. -/
theorem storeNode_takes (tracks : Tracks base before live image)
    (dirty : live.run.diskFlag = .dirty) {node : Node}
    (current : base.graph.get? node.id = some node) :
    ∃ after image', Yields (base.Guarded before) (storeNode node) live (.ok ()) after ∧
      Tracks base before after image' ∧ Stored live after image image' ∧
      TakesOver base.graph [node.id] (live.run.kept image) (after.run.kept image') ∧
      Waits base after image image' := by
  obtain ⟨after, image', saved, tracked, stored, kept, waits⟩ :=
    storeNode_yields tracks dirty node
  exact ⟨after, image', saved, tracked, stored, kept ▸ takesOver_insert current _, waits⟩

theorem storeStep_yields (tracks : Tracks base before live image)
    (dirty : live.run.diskFlag = .dirty) {node : Node}
    (current : base.graph.get? node.id = some node)
    (opened : ∀ start, node.kind.closes = some start → base.graph.contains start = true) :
    ∃ after image', Yields (base.Guarded before) (storeStep node) live (.ok ()) after ∧
      Tracks base before after image' ∧ Stored live after image image' ∧
      TakesOver base.graph node.touched (live.run.kept image) (after.run.kept image') ∧
      Waits base after image image' := by
  obtain ⟨between, image₁, saved, tracks₁, stored, takes, waits⟩ :=
    storeNode_takes tracks dirty current
  unfold Node.touched
  cases closes : node.kind.closes with
  | none =>
      refine ⟨between, image₁, saved.bind ?_, tracks₁, stored, takes, waits⟩
      rw [closes]
      exact .pure ()
  | some start =>
      obtain ⟨opener, there⟩ := (Graph.contains_iff _ _).1 (opened start closes)
      have number : opener.id = start := NodeTable.get?_id there
      have still : between.run.diskFlag = .dirty := by
        obtain ⟨store, same⟩ := stored.run
        rw [same]
        exact dirty
      obtain ⟨after, image₂, savedStart, tracks₂, storedStart, takesStart, waitsStart⟩ :=
        storeNode_takes tracks₁ still (number.symm ▸ there)
      rw [number] at takesStart
      refine ⟨after, image₂, saved.bind ?_, tracks₂, stored.trans storedStart,
        takes.append takesStart, ?_⟩
      · rw [closes]
        refine .bind .current ?_
        rw [tracks₁.graph_eq, there]
        exact savedStart
      · intro batched
        exact ⟨(waitsStart batched).1.trans (waits batched).1, (waitsStart batched).2⟩

theorem storeSteps_yields {nodes : List Node} (tracks : Tracks base before live image)
    (dirty : live.run.diskFlag = .dirty)
    (current : ∀ node ∈ nodes, base.graph.get? node.id = some node)
    (opened : ∀ node ∈ nodes, ∀ start, node.kind.closes = some start →
      base.graph.contains start = true) :
    ∃ after image', Yields (base.Guarded before) (nodes.forM storeStep) live (.ok ()) after ∧
      Tracks base before after image' ∧ Stored live after image image' ∧
      TakesOver base.graph (nodes.flatMap Node.touched) (live.run.kept image)
        (after.run.kept image') := by
  induction nodes generalizing live image with
  | nil =>
      refine ⟨live, image, .pure (), tracks, ⟨⟨live.run.store, rfl⟩, rfl, rfl⟩, ?_⟩
      intro id
      simp
  | cons node rest ih =>
      obtain ⟨currentNode, currentRest⟩ := List.forall_mem_cons.1 current
      obtain ⟨openedNode, openedRest⟩ := List.forall_mem_cons.1 opened
      obtain ⟨between, image₁, saved, tracks₁, stored, takes, -⟩ :=
        storeStep_yields tracks dirty currentNode openedNode
      have still : between.run.diskFlag = .dirty := by
        obtain ⟨store, same⟩ := stored.run
        rw [same]
        exact dirty
      obtain ⟨after, image₂, savedRest, tracks₂, storedRest, takesRest⟩ :=
        ih tracks₁ still currentRest openedRest
      exact ⟨after, image₂, saved.bind savedRest, tracks₂, stored.trans storedRest,
        takes.append takesRest⟩

/-- A flush that finds nothing to write leaves the run as it is. -/
theorem flushStore_still (tracks : Tracks base before live image)
    (still : live.run.store.flush live.machine = .ok live.run.store live.machine)
    (flushed : live.run.store.isFlushed = true) :
    ∃ after, Yields (base.Guarded before) flushStore live (.ok ()) after ∧
      Tracks base before after { image with nodes := live.run.kept image } ∧
      (∃ store, after.run = { live.run with store }) ∧ after.run.store.isFlushed = true ∧
      after.run.kept { image with nodes := live.run.kept image } = live.run.kept image := by
  rw [flushStore_eq, kept_of_isFlushed tracks.store flushed]
  exact ⟨live, .bind .current (.bind (.onMachine still (.refl _)) (.update _)), tracks,
    ⟨live.run.store, rfl⟩, flushed, kept_of_isFlushed tracks.store flushed⟩

/-- Flushing leaves nothing waiting. -/
theorem flushStore_yields (tracks : Tracks base before live image)
    (clean : live.run.diskFlag = .clean → live.run.kept image = image.nodes) :
    ∃ after, Yields (base.Guarded before) flushStore live (.ok ()) after ∧
      Tracks base before after { image with nodes := live.run.kept image } ∧
      (∃ store, after.run = { live.run with store }) ∧ after.run.store.isFlushed = true ∧
      after.run.kept { image with nodes := live.run.kept image } = live.run.kept image := by
  have knows := tracks.store
  unfold StoreKnows at knows
  cases store : live.run.store with
  | immediate directory atomic =>
      exact flushStore_still tracks (by rw [store]; rfl) (by rw [store]; rfl)
  | batched file nodes unflushed fault =>
      rw [store] at knows
      obtain ⟨kind, rfl, -⟩ := knows
      by_cases done : unflushed = 0 ∧
          live.machine.disk.exists? (live.run.place.join batchFileName).path = true
      · obtain ⟨rfl, there⟩ := done
        refine flushStore_still tracks ?_ (by rw [store]; rfl)
        rw [store]
        simp only [NodeStore.flush_eq, decide_true, Machine.get_bind, there]
        rfl
      · have same : live.run.kept image = nodes := by simp [kept, store]
        have kindBase : base.hint.storageKind = .batched := tracks.hint_eq ▸ kind
        rw [same] at clean ⊢
        have later : StoreKnows
            { live.run with store := .batched (live.run.place.join batchFileName) nodes 0 fault }
            { image with nodes } := ⟨kind, rfl, fun _ => rfl⟩
        have shows := tracks.shows
        rw [kindBase] at shows
        obtain ⟨written, ok, showsNow⟩ := shows.writeBatch nodes
        rw [← tracks.place_eq] at ok
        rw [← kindBase] at showsNow
        obtain ⟨change, made, wrote⟩ := Machine.writeJson_eq_ok tracks.willing ok true
        have flushed : live.run.store.flush live.machine =
            .ok (.batched (live.run.place.join batchFileName) nodes 0 fault)
              (live.machine.changed change written) := by
          have waiting : (decide (unflushed = 0) && live.machine.disk.exists?
              (live.run.place.join batchFileName).path) = false := by
            simpa using done
          rw [store]
          simp only [NodeStore.flush_eq, Machine.get_bind, waiting]
          rw [if_neg Bool.false_ne_true, Machine.bind_of_ok wrote]
          rfl
        have willing : ∀ refusal ∈ (live.machine.changed change written).refusals,
            refusal = false := Machine.willing_changed tracks.willing
        have tracked := tracks.ofStore clean showsNow willing later
        have passes : Passes (base.Guarded before) live.machine _ :=
          .commit made ⟨_, showsNow, tracked.guards⟩
        rw [flushStore_eq]
        exact ⟨_, .bind .current (.bind (.onMachine flushed passes) (.update _)), tracked,
          ⟨_, rfl⟩, rfl, rfl⟩

/-! ## The continuation -/

/-- A tracked run whose continuation on the disk changed. -/
theorem ofCheckpoint {machine : Machine} {checkpoint : Option Checkpoint} {persisted : Bool}
    (tracks : Tracks base before live image)
    (below : ∀ found, checkpoint = some found → found.Below base.graph.nextId)
    (shows : Shows machine.disk base.place base.hint.storageKind { image with checkpoint })
    (willing : ∀ refusal ∈ machine.refusals, refusal = false)
    (known : persisted = true → checkpoint = live.run.checkpoint)
    (held : live.run.checkpoint = none → persisted = true) :
    Tracks base before { run := { live.run with checkpointPersisted := persisted }, machine }
      { image with checkpoint } := by
  constructor
  case life => exact tracks.life
  case shows => exact shows
  case willing => exact willing
  case store => exact tracks.store
  case flag => exact tracks.flag
  case persisted => exact known
  case held => exact held
  case record_below => exact tracks.record_below
  case checkpoint_below => exact tracks.checkpoint_below
  case shown_below => exact below
  case guards =>
    intro record shown
    obtain ⟨recordBelow, harmless⟩ := tracks.guards record shown
    refine ⟨recordBelow, fun clean => ⟨below, ?_⟩⟩
    rcases (harmless clean).2 with old | new
    · exact .inl ⟨old.nodes, old.heads⟩
    · exact .inr ⟨new.nodes, new.heads⟩

/-- Writing the continuation leaves it on the disk. -/
theorem writeCheckpoint_yields (tracks : Tracks base before live image)
    (waiting : live.run.checkpointPersisted = false) :
    ∃ after, Yields (base.Guarded before) writeCheckpoint live (.ok ()) after ∧
      Tracks base before after { image with checkpoint := live.run.checkpoint } ∧
      after.run = { live.run with checkpointPersisted := true } := by
  cases checkpoint : live.run.checkpoint with
  | none =>
      have persisted := tracks.held checkpoint
      rw [waiting] at persisted
      cases persisted
  | some found =>
      obtain ⟨written, ok, shows⟩ := tracks.shows.writeCheckpoint found
      rw [← tracks.place_eq] at ok
      obtain ⟨change, made, wrote⟩ :=
        Machine.writeJson_eq_ok tracks.willing ok live.run.hint.writesAtomically
      have below : ∀ other, some found = some other → other.Below base.graph.nextId := by
        rintro other same
        exact tracks.checkpoint_below other (checkpoint.trans same)
      have willing : ∀ refusal ∈ (live.machine.changed change written).refusals,
          refusal = false := Machine.willing_changed tracks.willing
      have tracked : Tracks base before
          { run := { live.run with checkpointPersisted := true }
            machine := live.machine.changed change written }
          { image with checkpoint := some found } :=
        ofCheckpoint tracks below shows willing (fun _ => checkpoint.symm) (fun _ => rfl)
      have passes : Passes (base.Guarded before) live.machine _ :=
        .commit made ⟨_, shows, tracked.guards⟩
      refine ⟨_, .bind .current ?_, tracked, rfl⟩
      rw [checkpoint]
      exact .bind (.onMachine wrote passes) (.update _)

/-- Removing the continuation leaves none on the disk, be there one or not. -/
theorem removeCheckpoint_yields (tracks : Tracks base before live image) :
    ∃ machine, Yields (base.Guarded before)
        (RunM.onMachine (RunFiles.removeCheckpoint live.run.place)) live (.ok ())
        { live with machine } ∧
      Shows machine.disk base.place base.hint.storageKind { image with checkpoint := none } ∧
      ∀ refusal ∈ machine.refusals, refusal = false := by
  have standing := tracks.shows.checkpoint
  rw [← RunFiles.path_checkpointFile, ← tracks.place_eq] at standing
  cases there : image.checkpoint with
  | none =>
      rw [there] at standing
      have missing : live.machine.disk.missing (RunFiles.checkpointFile live.run.place).path =
          .notFound := by
        apply Disk.missing_eq_notFound
        rw [RunFiles.path_checkpointFile, List.dropLast_concat, tracks.place_eq]
        exact tracks.shows.reached.isFree
      have removed : RunFiles.removeCheckpoint live.run.place live.machine =
          .ok () live.machine := by
        simp only [RunFiles.removeCheckpoint, Machine.get_bind, standing, missing,
          Option.map_none, and_self, if_true]
        rfl
      refine ⟨live.machine, .onMachine removed (.refl _), ?_, tracks.willing⟩
      have shows := tracks.shows
      rw [← there]
      exact shows
  | some checkpoint =>
      obtain ⟨without, ok, shows⟩ := tracks.shows.removeCheckpoint there
      rw [there] at standing
      rw [← tracks.place_eq] at ok
      have made : (Change.remove (RunFiles.checkpointFile live.run.place).path).apply
          live.machine.disk = .ok without := ok
      have removed : RunFiles.removeCheckpoint live.run.place live.machine =
          .ok () (live.machine.changed
            (.remove (RunFiles.checkpointFile live.run.place).path) without) := by
        simp only [RunFiles.removeCheckpoint, Machine.get_bind, standing]
        exact Machine.commit_eq_ok tracks.willing made _
      have guards : Image.Guards { image with checkpoint := none } base.hint before base.graph := by
        intro record shown
        obtain ⟨below, harmless⟩ := tracks.guards record shown
        refine ⟨below, fun clean => ⟨by simp, ?_⟩⟩
        rcases (harmless clean).2 with old | new
        · exact .inl ⟨old.nodes, old.heads⟩
        · exact .inr ⟨new.nodes, new.heads⟩
      exact ⟨_, .onMachine removed (.commit made ⟨_, shows, guards⟩), shows,
        Machine.willing_changed tracks.willing⟩

/-! ## Safe points -/

/-- The record and the graph of a run are on disk, and marked so. -/
structure OnDisk (run : Run) (image : Image) : Prop where
  record : image.record = some run.record
  clean : run.record.clean = .clean
  flag : run.diskFlag = .clean
  heads : run.record.heads = run.graph.heads
  nodes : image.nodes = run.graph.table
  kept : run.kept image = run.graph.table

/-- Once all nodes are on the disk the record is marked clean at the present heads. -/
theorem markClean_yields (tracks : Tracks base before live image) (well : base.graph.WellFormed)
    (unfailed : base.storageFault = none) (whole : image.nodes = base.graph.table)
    (kept : live.run.kept image = base.graph.table) :
    ∃ after, Yields (base.Guarded before) markClean live (.ok ()) after ∧
      Tracks base before after { image with record := some after.run.record } ∧
      OnDisk after.run { image with record := some after.run.record } ∧
      after.run.checkpointPersisted = live.run.checkpointPersisted := by
  have headed : Tracks base before
      { live with run := { live.run with
          record := { live.run.record with heads := live.run.graph.heads } } } image := by
    have below := tracks.record_below
    refine { tracks with record_below := ⟨below.hint_eq, below.version_lt, ?_⟩ }
    intro head inside
    exact well.heads_lt (tracks.graph_eq ▸ inside)
  obtain ⟨after, stamp, run, tracked⟩ := stampRecord_yields headed .clean fun _ => .inr
    ⟨whole, congrArg Graph.heads tracks.graph_eq⟩
  have flag : (if live.run.storageFault.isSome = true then CleanFlag.dirty else .clean) = .clean := by
    rw [tracks.storageFault_eq, unfailed]
    rfl
  have record : after.run.record =
      stamped { live.run.record with heads := live.run.graph.heads } .clean live.machine.now := by
    rw [run]
  have store : after.run.store = live.run.store := by rw [run]
  refine ⟨after, .bind .current (.bind (.update _) ?_), ?_, ?_, by rw [run]⟩
  · rw [flag]
    exact stamp
  · rw [record]
    exact tracked
  · have graph := tracked.graph_eq
    constructor
    case record => rfl
    case clean =>
      rw [record]
      rfl
    case flag => rw [run]
    case heads =>
      rw [record, graph]
      exact congrArg Graph.heads tracks.graph_eq
    case nodes => exact whole.trans (congrArg Graph.table graph.symm)
    case kept =>
      have same : ({ image with record := some after.run.record } : Image).nodes = image.nodes := rfl
      rw [kept_congr store same, kept, graph]

/-- A safe point leaves everything on disk. -/
theorem reachSafePoint_yields (tracks : Tracks base before live image)
    (well : base.graph.WellFormed) (unfailed : base.storageFault = none)
    (whole : live.run.kept image = base.graph.table)
    (clean : live.run.diskFlag = .clean → live.run.kept image = image.nodes) :
    ∃ after image', Yields (base.Guarded before) reachSafePoint live (.ok ()) after ∧
      Tracks base before after image' ∧ OnDisk after.run image' ∧
      after.run.checkpointPersisted = true := by
  obtain ⟨flushed, flush, tracks₁, ⟨store, run₁⟩, -, kept₁⟩ :=
    flushStore_yields tracks clean
  -- The continuation is written only if the disk lacks it; either way it is there then.
  obtain ⟨image₂, between, rest, tracks₂, run₂, nodes₂⟩ : ∃ image₂ between,
      (∀ after, Yields (base.Guarded before) markClean between (.ok ()) after →
        Yields (base.Guarded before)
          (if (!flushed.run.checkpointPersisted) = true then do writeCheckpoint; markClean
            else markClean) flushed (.ok ()) after) ∧
      Tracks base before between image₂ ∧
      between.run = { flushed.run with checkpointPersisted := true } ∧
      image₂.nodes = live.run.kept image := by
    cases persisted : flushed.run.checkpointPersisted with
    | true =>
        refine ⟨_, flushed, fun _ mark => mark, tracks₁, ?_, rfl⟩
        rw [← persisted]
    | false =>
        obtain ⟨between, write, tracks₂, run₂⟩ := writeCheckpoint_yields tracks₁ persisted
        exact ⟨_, between, fun _ mark => write.bind mark, tracks₂, run₂, rfl⟩
  have kept₂ : between.run.kept image₂ = base.graph.table := by
    have store : between.run.store = flushed.run.store := by rw [run₂]
    have same : image₂.nodes = ({ image with nodes := live.run.kept image } : Image).nodes := nodes₂
    rw [kept_congr store same, kept₁, whole]
  obtain ⟨after, mark, tracked, onDisk, persisted⟩ :=
    markClean_yields tracks₂ well unfailed (nodes₂.trans whole) kept₂
  refine ⟨after, _, flush.bind (.bind .current (rest after mark)), tracked, onDisk, ?_⟩
  rw [persisted, run₂]

end Run
end DurableRuns
