/-
# DurableRuns.Proofs.Storage.DurableMap -- both stores are one durable map

A client saves nodes in a store, flushes it, and drops it and opens it anew, in any order; the
device may refuse any write.  A `StoreLedger` lists the saves that went through and were not lost,
and those of them that the next process will find.  It knows nothing of files: of the two kinds of
stores it tells only when a save reaches the disk.

Whatever a client did, its store gives the nodes of the ledger, one by one and all of them, and so
does the store that is opened after it (`StoreSession.gives_ledger`).  The invariant is
`StoreSession.IsKept`, which every deed preserves (`IsKept.after`), be it refused or not.
-/
import DurableRuns.Proofs.Disk.Tree
import DurableRuns.Proofs.Run.Starting
import DurableRuns.Proofs.Storage.Listing

namespace DurableRuns

set_option autoImplicit false

open NodeStore (directoryName batchFileName nodeFile fileName room)

/-! ## Sessions -/

/-- What a client does with a store.  To reopen it is to drop it as it is, and to open it anew. -/
inductive StoreDeed where
  | save (node : Node)
  | flush
  | reopen

namespace StoreDeed

/-- The step on the store that a deed is. -/
def step (place : Place) (hint : Hint) : StoreDeed → StoreM Unit
  | save node => StoreM.save node
  | flush => StoreM.flush
  | reopen => modify fun live => { live with store := .ofRun live.machine.disk place hint }

/-- Does a deed, and gives the store that the client has then. -/
def perform (place : Place) (hint : Hint) (store : NodeStore) (deed : StoreDeed) :
    MachineM NodeStore :=
  StoreM.on store (deed.step place hint)

/-- The numbers of a node that is saved have 64 bits. -/
def Storable : StoreDeed → Prop
  | save node => node.Storable
  | flush | reopen => True

end StoreDeed

/-- The saves that went through and were not lost, the oldest first, and those that will be found
when the store is opened anew. -/
structure StoreLedger where
  kept : List Node
  stored : List Node
deriving DecidableEq

namespace StoreLedger

/-- The ledger after a deed that went through. -/
def after (kind : StorageKind) (ledger : StoreLedger) : StoreDeed → StoreLedger
  | .save node =>
      match kind with
      | .immediate => ⟨ledger.kept ++ [node], ledger.kept ++ [node]⟩
      | .batched => { ledger with kept := ledger.kept ++ [node] }
  | .flush => { ledger with stored := ledger.kept }
  | .reopen => { ledger with kept := ledger.stored }

end StoreLedger

/-- The node that was saved last under a number. -/
def lastSave (saves : List Node) (id : Nat) : Option Node := saves.reverse.find? (·.id = id)

/-- A client with its store, on a machine. -/
structure StoreSession where
  store : NodeStore
  machine : Machine
  ledger : StoreLedger

namespace StoreSession

/-- A session in which nothing was saved yet. -/
def opened (place : Place) (hint : Hint) (machine : Machine) : StoreSession :=
  { store := .ofRun machine.disk place hint, machine, ledger := ⟨[], []⟩ }

/-- The session after a deed.  The client has the store that the deed leaves, also if it fails. -/
def after (place : Place) (hint : Hint) (session : StoreSession) (deed : StoreDeed) :
    StoreSession :=
  match deed.step place hint { store := session.store, machine := session.machine } with
  | .ok () live =>
      { store := live.store, machine := live.machine
        ledger := session.ledger.after hint.storageKind deed }
  | .error _ live => { session with store := live.store, machine := live.machine }

/-- The sessions that clients come to in a directory that was empty, and to which nothing else
writes.  The machine may refuse any of the writes; one that is refused may leave the directory that
its file was to stand in. -/
inductive IsReached (place : Place) (hint : Hint) : StoreSession → Prop
  | opened {machine : Machine} (tree : machine.disk.IsTree)
      (reached : machine.disk.IsReached place.path) (vacant : place.IsVacant machine.disk) :
      IsReached place hint (opened place hint machine)
  | after {session : StoreSession} {deed : StoreDeed} (earlier : IsReached place hint session)
      (storable : deed.Storable) : IsReached place hint (session.after place hint deed)
  | directory {session : StoreSession} {made : Disk} (earlier : IsReached place hint session)
      (directories : session.machine.disk.makeDirectories (place.join directoryName).path =
        .ok made) :
      IsReached place hint { session with machine := { session.machine with disk := made } }

/-- A store gives the last save of each number, and lists these in ascending order. -/
structure Gives (session : StoreSession) (saves : List Node) : Prop where
  read : ∀ id, session.store.read id session.machine =
    match lastSave saves id with
    | some node => .ok node session.machine
    | none => .error (.graph (.missing id)) session.machine
  readAll : ∃ listed, session.store.readAll session.machine = .ok ⟨listed, []⟩ session.machine ∧
    listed.Pairwise (fun a b => a.id < b.id) ∧
    ∀ node, node ∈ listed ↔ lastSave saves node.id = some node

/-- What the store of a session is, and what its directory shows. -/
structure IsKept (place : Place) (hint : Hint) (session : StoreSession) : Prop where
  tree : session.machine.disk.IsTree
  shows : Shows session.machine.disk place hint.storageKind
    ⟨none, .ofList session.ledger.stored, none⟩
  storable : ∀ node ∈ session.ledger.kept, node.Storable
  stored : session.ledger.stored <+: session.ledger.kept
  store : session.store =
    match hint.storageKind with
    | .immediate => NodeStore.openImmediate place hint.writesAtomically
    | .batched => .batched (place.join batchFileName) (.ofList session.ledger.kept)
        (session.ledger.kept.length - session.ledger.stored.length) none
  prompt : hint.storageKind = .immediate → session.ledger.stored = session.ledger.kept

end StoreSession

section DurableMap

variable {place : Place} {hint : Hint} {machine : Machine} {image : Image}

/-! ## Tables of saves -/

namespace NodeTable

theorem ofList_concat (saves : List Node) (node : Node) :
    ofList (saves ++ [node]) = (ofList saves).insert node := by
  rw [ofList, List.foldl_append]
  rfl

theorem mem_of_get?_ofList {saves : List Node} {id : Nat} {node : Node}
    (found : (ofList saves).get? id = some node) : node ∈ saves := by
  rw [get?_ofList] at found
  exact List.mem_reverse.1 (List.mem_of_find?_eq_some found)

end NodeTable

/-! ## Deeds -/

/-- A value that can be written is written, or the device refuses it. -/
theorem Machine.writeJson_cases {file : Place} {value : Json} {written : Disk}
    (ok : machine.disk.write file.path value.pretty = .ok written) (atomic : Bool) :
    writeJson file value atomic machine =
        .ok () (machine.changed (.write file.path value.pretty atomic) written) ∨
      ∃ error, writeJson file value atomic machine =
        .error error (machine.missing (.write file.path value.pretty atomic)) := by
  rcases machine.commit_cases (.write file.path value.pretty atomic) (.storageWrite file.shown) with
    ⟨disk, applied, done⟩ | ⟨fault, refused⟩
  · obtain rfl := Except.ok.inj (applied.symm.trans ok)
    exact .inl done
  · exact .inr ⟨_, refused⟩

theorem Machine.bind_of_error {α β : Type} {step : MachineM α} {next : α → MachineM β}
    {error : Error} {later : Machine} (failed : step machine = .error error later) :
    (step >>= next) machine = .error error later := by
  simp only [bind, EStateM.bind, failed]

/-- A value that is not written leaves the disk as it was. -/
theorem Machine.disk_of_writeJson {file : Place} {value : Json} {atomic : Bool} {error : Error}
    {later : Machine} (failed : writeJson file value atomic machine = .error error later) :
    later.disk = machine.disk := by
  rcases machine.commit_cases (.write file.path value.pretty atomic) (.storageWrite file.shown) with
    ⟨disk, applied, done⟩ | ⟨fault, refused⟩
  · cases done.symm.trans failed
  · cases refused.symm.trans failed
    rfl

/-- A deed that fails leaves the store as it was. -/
theorem StoreDeed.step_eq (deed : StoreDeed) (store : NodeStore) (machine : Machine) :
    deed.step place hint { store, machine } =
      match deed.perform place hint store machine with
      | .ok store machine => .ok () { store, machine }
      | .error error machine => .error error { store, machine } := by
  cases deed with
  | save node => exact store.save_step node machine
  | flush => exact store.flush_step machine
  | reopen => rfl

/-- A deed that fails leaves the disk as it was. -/
theorem StoreDeed.disk_of_error {deed : StoreDeed} {store : NodeStore} {error : Error}
    {later : Machine} (failed : deed.perform place hint store machine = .error error later) :
    later.disk = machine.disk := by
  cases deed with
  | reopen => cases failed
  | save node =>
      cases store with
      | batched => cases failed
      | immediate directory atomic =>
          have saves : (NodeStore.immediate directory atomic).save node machine =
            .error error later := failed
          simp only [NodeStore.save_eq, bind, EStateM.bind] at saves
          split at saves
          next => cases saves
          next fails =>
            cases saves
            exact Machine.disk_of_writeJson fails
  | flush =>
      cases store with
      | immediate => cases failed
      | batched file nodes unflushed fault =>
          have flushes : (NodeStore.batched file nodes unflushed fault).flush machine =
            .error error later := failed
          simp only [NodeStore.flush_eq, Machine.get_bind] at flushes
          split at flushes
          next => cases flushes
          next =>
            simp only [bind, EStateM.bind] at flushes
            split at flushes
            next => cases flushes
            next fails =>
              cases flushes
              exact Machine.disk_of_writeJson fails

/-- An image of nodes can be read back if its nodes can. -/
theorem Image.Storable.of_nodes {nodes : NodeTable}
    (storable : ∀ id node, nodes.get? id = some node → node.Storable) :
    Storable ⟨none, nodes, none⟩ where
  record := fun _ none => by cases none
  nodes := storable
  checkpoint := fun _ none => by cases none

/-- The directory of the nodes may be made before there is a node. -/
theorem Shows.makeTable {disk made : Disk} {kind : StorageKind}
    (shows : Shows disk place kind image)
    (directories : disk.makeDirectories (place.path ++ [directoryName]) = .ok made) :
    Shows made place kind image := by
  have after := Disk.at?_makeDirectories directories
  have other {path : Path} (apart : ¬ path <+: place.path ++ [directoryName]) :
      made.at? path = disk.at? path := by
    rw [after, if_neg apart]
  have file {name : String} (apart : name ≠ directoryName) :
      made.at? (place.path ++ [name]) = disk.at? (place.path ++ [name]) := by
    refine other fun up => ?_
    have same := up.eq_of_length (by simp)
    exact apart (by simpa using same)
  constructor
  case reached =>
    intro above up
    rw [after, if_pos (up.trans (List.prefix_append ..))]
  case record => exact (file (by decide)).trans shows.record
  case checkpoint => exact (file (by decide)).trans shows.checkpoint
  case nodes =>
    cases kind with
    | batched =>
        have holds : HoldsBatch disk (place.path ++ [batchFileName]) image.nodes := shows.nodes
        unfold HoldsTable HoldsBatch
        rw [file (by decide)]
        exact holds
    | immediate =>
        have holds : HoldsNodes disk (place.path ++ [directoryName]) image.nodes := shows.nodes
        have inside (name : String) : made.at? (place.path ++ [directoryName] ++ [name]) =
            disk.at? (place.path ++ [directoryName] ++ [name]) :=
          other (Disk.not_concat_prefix _ _)
        constructor
        case stands => exact .inl ((after _).trans (if_pos (List.prefix_refl _)))
        case files => exact fun id => (inside _).trans (holds.files id)
        case others => exact fun name foreign => (inside _).trans (holds.others name foreign)

namespace StoreSession

variable {session : StoreSession} {deed : StoreDeed} {error : Error}

theorem after_of_ok {store : NodeStore} {later : Machine}
    (done : deed.perform place hint session.store session.machine = .ok store later) :
    session.after place hint deed =
      { store, machine := later, ledger := session.ledger.after hint.storageKind deed } := by
  rw [after, deed.step_eq, done]

theorem after_of_error {later : Machine}
    (failed : deed.perform place hint session.store session.machine = .error error later) :
    session.after place hint deed = { session with machine := later } := by
  rw [after, deed.step_eq, failed]

/-- A write that is refused leaves the disk as it was. -/
theorem IsKept.of_refused {change : Change} (kept : session.IsKept place hint) :
    IsKept place hint { session with machine := session.machine.missing change } :=
  ⟨kept.tree, kept.shows, kept.storable, kept.stored, kept.store, kept.prompt⟩

namespace IsKept

theorem image_storable (kept : session.IsKept place hint) :
    Image.Storable ⟨none, .ofList session.ledger.stored, none⟩ :=
  .of_nodes fun _ _ found =>
    kept.storable _ (kept.stored.subset (NodeTable.mem_of_get?_ofList found))

/-- The store that is opened on the directory has what is stored. -/
theorem ofRun_eq (kept : session.IsKept place hint) :
    NodeStore.ofRun session.machine.disk place hint =
      NodeStore.ofImage place hint (.ofList session.ledger.stored) :=
  NodeStore.ofRun_eq kept.shows kept.image_storable

theorem opened (tree : machine.disk.IsTree) (reached : machine.disk.IsReached place.path)
    (vacant : place.IsVacant machine.disk) :
    (StoreSession.opened place hint machine).IsKept place hint := by
  have shows : Shows machine.disk place hint.storageKind .blank := .of_empty reached vacant
  have storable : Image.Storable .blank := .of_nodes fun _ _ none => by cases none
  constructor
  case tree => exact tree
  case shows => exact shows
  case storable => exact fun node none => absurd none List.not_mem_nil
  case stored => exact List.prefix_refl _
  case store =>
    show NodeStore.ofRun machine.disk place hint = _
    rw [NodeStore.ofRun_eq shows storable, NodeStore.ofImage]
    cases hint.storageKind <;> rfl
  case prompt => exact fun _ => rfl

/-- The names in the directory of a tree are plain. -/
theorem plain (kept : session.IsKept place hint) : ∀ name ∈ place.path, Place.IsStep name := by
  refine kept.tree.plain place.path ?_
  rw [kept.shows.reached _ (List.prefix_refl _)]
  nofun

/-- The disk that a write below the directory leaves is a tree. -/
theorem tree_of_write (kept : session.IsKept place hint) {below : List String} {content : Bytes}
    {written : Disk} (steps : ∀ name ∈ below, Place.IsStep name)
    (ok : session.machine.disk.write (place.path ++ below) content = .ok written) :
    written.IsTree := by
  have plain : ∀ name ∈ (Change.write (place.path ++ below) content true).path,
      Place.IsStep name := by
    intro name inside
    rcases List.mem_append.1 inside with above | here
    · exact kept.plain name above
    · exact steps name here
  exact kept.tree.apply plain ok

theorem storable_concat (kept : session.IsKept place hint) {node : Node} (fits : node.Storable) :
    ∀ other ∈ session.ledger.kept ++ [node], other.Storable := by
  intro other inside
  rcases List.mem_append.1 inside with old | new
  · exact kept.storable other old
  · rw [List.mem_singleton.1 new]
    exact fits

theorem save_immediate (kept : session.IsKept place hint) {node : Node} (fits : node.Storable)
    (kind : hint.storageKind = .immediate) :
    (session.after place hint (.save node)).IsKept place hint := by
  have store := kept.store
  have shows := kept.shows
  rw [kind] at store shows
  obtain ⟨written, ok, shown⟩ := shows.writeNode node
  have saves : StoreDeed.perform place hint session.store (.save node) = do
      Machine.writeJson (nodeFile (place.join directoryName) node.id) node.toJson
        hint.writesAtomically
      return session.store := by
    rw [store]
    exact NodeStore.save_eq _ node
  rcases Machine.writeJson_cases ok hint.writesAtomically with done | ⟨error, refused⟩
  · rw [after_of_ok ((congrFun saves _).trans (Machine.bind_of_ok done))]
    simp only [StoreLedger.after, kind]
    constructor
    case tree =>
      rw [NodeStore.path_nodeFile, NodeStore.path_nodeDirectory, List.append_assoc] at ok
      have steps : ∀ name ∈ [directoryName, fileName node.id], Place.IsStep name := by
        simp only [List.mem_cons, List.not_mem_nil, or_false]
        rintro name (rfl | rfl)
        · decide
        · exact NodeStore.isStep_fileName _
      exact kept.tree_of_write steps ok
    case shows =>
      rw [kind]
      simp only [NodeTable.ofList_concat, ← kept.prompt kind]
      exact shown
    case storable => exact kept.storable_concat fits
    case stored => exact List.prefix_refl _
    case store =>
      rw [kind]
      exact store
    case prompt => exact fun _ => rfl
  · rw [after_of_error ((congrFun saves _).trans (Machine.bind_of_error refused))]
    exact kept.of_refused

theorem save_batched (kept : session.IsKept place hint) {node : Node} (fits : node.Storable)
    (kind : hint.storageKind = .batched) :
    (session.after place hint (.save node)).IsKept place hint := by
  have store := kept.store
  rw [kind] at store
  have saves : StoreDeed.perform place hint session.store (.save node) session.machine =
      .ok (.batched (place.join batchFileName) (.ofList (session.ledger.kept ++ [node]))
        (session.ledger.kept.length - session.ledger.stored.length + 1) none) session.machine := by
    rw [store, NodeTable.ofList_concat]
    rfl
  rw [after_of_ok saves]
  simp only [StoreLedger.after, kind]
  constructor
  case tree => exact kept.tree
  case shows => exact kept.shows
  case storable => exact kept.storable_concat fits
  case stored => exact kept.stored.trans (List.prefix_append ..)
  case store =>
    have shorter := kept.stored.length_le
    have count : session.ledger.kept.length - session.ledger.stored.length + 1 =
        (session.ledger.kept ++ [node]).length - session.ledger.stored.length := by
      rw [List.length_append, List.length_singleton]
      omega
    rw [kind, count]
  case prompt =>
    intro immediate
    cases kind.symm.trans immediate

/-- What is kept without a flush is what is stored. -/
theorem stored_eq_of_length (kept : session.IsKept place hint)
    (flushed : session.ledger.kept.length - session.ledger.stored.length = 0) :
    session.ledger.stored = session.ledger.kept :=
  kept.stored.eq_of_length_le (Nat.sub_eq_zero_iff_le.1 flushed)

/-- A batched store whose file has what is kept is flushed. -/
theorem flushed_batched (kept : session.IsKept place hint) (kind : hint.storageKind = .batched)
    {machine : Machine} (tree : machine.disk.IsTree)
    (shows : Shows machine.disk place hint.storageKind
      ⟨none, .ofList session.ledger.kept, none⟩) :
    IsKept place hint
      { store := .batched (place.join batchFileName) (.ofList session.ledger.kept) 0 none
        machine, ledger := session.ledger.after hint.storageKind .flush } := by
  constructor
  case tree => exact tree
  case shows => exact shows
  case storable => exact kept.storable
  case stored => exact List.prefix_refl _
  case store => simp [kind, StoreLedger.after]
  case prompt => exact fun _ => rfl

/-- A flush writes the file of a batched store, unless it has what is kept already. -/
theorem flush_batched (kept : session.IsKept place hint) (kind : hint.storageKind = .batched) :
    (session.after place hint .flush).IsKept place hint := by
  have store := kept.store
  rw [kind] at store
  by_cases done : session.ledger.kept.length - session.ledger.stored.length = 0 ∧
      session.machine.disk.exists? (place.join batchFileName).path = true
  · obtain ⟨nothing, there⟩ := done
    have same := kept.stored_eq_of_length nothing
    have unchanged : StoreDeed.perform place hint session.store .flush session.machine =
        .ok (.batched (place.join batchFileName) (.ofList session.ledger.kept) 0 none)
          session.machine := by
      rw [store, nothing]
      refine (congrFun (NodeStore.flush_eq _) _).trans ?_
      simp only [decide_true, Machine.get_bind, there]
      rfl
    rw [after_of_ok unchanged]
    exact kept.flushed_batched kind kept.tree (same ▸ kept.shows)
  · have shows := kept.shows
    rw [kind] at shows
    obtain ⟨written, ok, shown⟩ := shows.writeBatch (.ofList session.ledger.kept)
    have waiting : (decide (session.ledger.kept.length - session.ledger.stored.length = 0) &&
        session.machine.disk.exists? (place.join batchFileName).path) = false := by
      simpa using done
    have flushes : StoreDeed.perform place hint session.store .flush session.machine =
        (do
          Machine.writeJson (place.join batchFileName)
            (.array ((NodeTable.ofList session.ledger.kept).nodes.map Node.toJson)) true
          return .batched (place.join batchFileName) (.ofList session.ledger.kept) 0 none :
          MachineM NodeStore) session.machine := by
      rw [store]
      refine (congrFun (NodeStore.flush_eq _) _).trans ?_
      simp only [Machine.get_bind, waiting]
      rfl
    rcases Machine.writeJson_cases ok true with done | ⟨error, refused⟩
    · rw [after_of_ok (flushes.trans (Machine.bind_of_ok done))]
      refine kept.flushed_batched kind ?_ (kind.symm ▸ shown)
      rw [NodeStore.path_batchFile] at ok
      have steps : ∀ name ∈ [batchFileName], Place.IsStep name := by decide
      exact kept.tree_of_write steps ok
    · rw [after_of_error (flushes.trans (Machine.bind_of_error refused))]
      exact kept.of_refused

theorem flush_immediate (kept : session.IsKept place hint) (kind : hint.storageKind = .immediate) :
    (session.after place hint .flush).IsKept place hint := by
  have store := kept.store
  rw [kind] at store
  have flushes : StoreDeed.perform place hint session.store .flush session.machine =
      .ok session.store session.machine := by
    rw [store]
    rfl
  have same := kept.prompt kind
  rw [after_of_ok flushes]
  simp only [StoreLedger.after]
  constructor
  case tree => exact kept.tree
  case shows => exact same ▸ kept.shows
  case storable => exact kept.storable
  case stored => exact List.prefix_refl _
  case store =>
    rw [kind]
    exact store
  case prompt => exact fun _ => rfl

theorem reopen (kept : session.IsKept place hint) :
    (session.after place hint .reopen).IsKept place hint := by
  have opens : StoreDeed.perform place hint session.store .reopen session.machine =
      .ok (NodeStore.ofImage place hint (.ofList session.ledger.stored)) session.machine := by
    rw [← kept.ofRun_eq]
    rfl
  rw [after_of_ok opens]
  simp only [StoreLedger.after]
  constructor
  case tree => exact kept.tree
  case shows => exact kept.shows
  case storable => exact fun node inside => kept.storable node (kept.stored.subset inside)
  case stored => exact List.prefix_refl _
  case store =>
    show NodeStore.ofImage place hint _ = _
    rw [Nat.sub_self]
    unfold NodeStore.ofImage
    cases hint.storageKind <;> rfl
  case prompt => exact fun _ => rfl

/-- Every deed leaves what is kept, be it refused or not. -/
theorem after (kept : session.IsKept place hint) (storable : deed.Storable) :
    (session.after place hint deed).IsKept place hint := by
  cases deed with
  | save node =>
      cases kind : hint.storageKind with
      | immediate => exact kept.save_immediate storable kind
      | batched => exact kept.save_batched storable kind
  | flush =>
      cases kind : hint.storageKind with
      | immediate => exact kept.flush_immediate kind
      | batched => exact kept.flush_batched kind
  | reopen => exact kept.reopen

/-- The directory of the nodes may be there without a node. -/
theorem directory (kept : session.IsKept place hint) {made : Disk}
    (directories : session.machine.disk.makeDirectories (place.join directoryName).path = .ok made) :
    IsKept place hint { session with machine := { session.machine with disk := made } } := by
  rw [NodeStore.path_nodeDirectory] at directories
  have plain : ∀ name ∈ place.path ++ [directoryName], Place.IsStep name := by
    intro name inside
    rcases List.mem_append.1 inside with above | here
    · exact kept.plain name above
    · rw [List.mem_singleton.1 here]
      decide
  exact ⟨(kept.tree.makeDirectories plain directories).1, kept.shows.makeTable directories,
    kept.storable, kept.stored, kept.store, kept.prompt⟩

/-- A session that lists a table, and reads it, gives the saves that make it up. -/
theorem gives_of_table {saves : List Node}
    (reads : ∀ id, session.store.read id session.machine =
      match (NodeTable.ofList saves).get? id with
      | some node => .ok node session.machine
      | none => .error (.graph (.missing id)) session.machine)
    (lists : session.store.readAll session.machine =
      .ok ⟨(NodeTable.ofList saves).nodes, []⟩ session.machine) : session.Gives saves where
  read := fun id => by rw [reads, NodeTable.get?_ofList, lastSave]
  readAll := by
    refine ⟨_, lists, (NodeTable.ofList saves).ascending, fun node => ?_⟩
    rw [NodeTable.mem_nodes_iff, NodeTable.get?_ofList, lastSave]

/-- What is kept is listed. -/
theorem readAll_eq (kept : session.IsKept place hint) :
    session.store.readAll session.machine =
      .ok ⟨(NodeTable.ofList session.ledger.kept).nodes, []⟩ session.machine := by
  have store := kept.store
  cases kind : hint.storageKind with
  | batched =>
      rw [kind] at store
      rw [store]
      rfl
  | immediate =>
      have lists := NodeStore.readAll_eq_nodes kept.tree kept.shows kept.image_storable
      rw [NodeStore.ofImage, kind] at lists
      rw [kind] at store
      rw [store, ← kept.prompt kind]
      exact lists

theorem gives (kept : session.IsKept place hint) : session.Gives session.ledger.kept := by
  refine gives_of_table (fun id => ?_) kept.readAll_eq
  have store := kept.store
  cases kind : hint.storageKind with
  | batched =>
      rw [kind] at store
      rw [store, NodeStore.read]
      cases (NodeTable.ofList session.ledger.kept).get? id <;> rfl
  | immediate =>
      have reads := NodeStore.read_eq kept.shows kept.image_storable id
      rw [NodeStore.ofImage, kind] at reads
      rw [kind] at store
      rw [store, ← kept.prompt kind]
      exact reads

/-- A store has nothing waiting exactly if all that is kept is stored. -/
theorem isFlushed_iff (kept : session.IsKept place hint) :
    session.store.isFlushed = true ↔ session.ledger.stored = session.ledger.kept := by
  have store := kept.store
  cases kind : hint.storageKind with
  | immediate =>
      rw [kind] at store
      rw [store]
      exact ⟨fun _ => kept.prompt kind, fun _ => rfl⟩
  | batched =>
      rw [kind] at store
      rw [store]
      constructor
      · intro flushed
        exact kept.stored_eq_of_length (of_decide_eq_true flushed)
      · intro same
        simp [NodeStore.isFlushed, same]

end IsKept

theorem IsReached.isKept (reached : session.IsReached place hint) :
    session.IsKept place hint := by
  induction reached with
  | opened tree reached vacant => exact .opened tree reached vacant
  | after earlier storable ih => exact ih.after storable
  | directory earlier directories ih => exact ih.directory directories

/-- What flushing leaves is found when the store is opened anew. -/
theorem IsKept.readAll_reopened (kept : session.IsKept place hint) {store : NodeStore}
    {later : Machine} (flushes : session.store.flush session.machine = .ok store later) :
    ∃ reopened, (session.after place hint .flush).after place hint .reopen = reopened ∧
      reopened.store.readAll reopened.machine =
        .ok ⟨(NodeTable.ofList session.ledger.kept).nodes, []⟩ reopened.machine := by
  have flushed : session.after place hint .flush =
      { store, machine := later, ledger := session.ledger.after hint.storageKind .flush } :=
    after_of_ok flushes
  have after : (session.after place hint .flush).IsKept place hint := kept.after trivial
  have reopened := after.reopen.readAll_eq
  rw [flushed] at reopened ⊢
  exact ⟨_, rfl, reopened⟩

/-- **Both stores are one durable map.**  Whatever a client did with a store in a directory that was
empty, and whatever the device refused:

* the store gives the last save of each number that went through and was not lost, and lists these
  in ascending order without a fault;
* opened anew, it gives those that are stored: all of them for an immediate store, and those of the
  last flush that went through for a batched one;
* a deed that fails changes neither the disk nor the store, so what is waiting is still waiting, and
  still counted;
* if nothing is waiting, nothing is lost when the store is opened anew;
* two stores of any kinds that keep the same saves list the same nodes when they were flushed and
  opened anew. -/
theorem gives_ledger (reached : session.IsReached place hint) :
    session.Gives session.ledger.kept ∧
    (session.after place hint .reopen).Gives session.ledger.stored ∧
    (hint.storageKind = .immediate → session.ledger.stored = session.ledger.kept) ∧
    (hint.storageKind = .batched → session.store.unflushed? =
      some (session.ledger.kept.length - session.ledger.stored.length)) ∧
    (∀ deed error later, deed.perform place hint session.store session.machine =
        .error error later →
      later.disk = session.machine.disk ∧
      session.after place hint deed = { session with machine := later } ∧
      Gives { session with machine := later } session.ledger.kept) ∧
    (session.store.isFlushed = true →
      (session.after place hint .reopen).Gives session.ledger.kept) ∧
    ∀ (place' : Place) (hint' : Hint) (other : StoreSession), other.IsReached place' hint' →
      other.ledger.kept = session.ledger.kept →
      ∀ store store' later later', session.store.flush session.machine = .ok store later →
        other.store.flush other.machine = .ok store' later' →
        ∃ reopened reopened' listed,
          (session.after place hint .flush).after place hint .reopen = reopened ∧
          (other.after place' hint' .flush).after place' hint' .reopen = reopened' ∧
          reopened.store.readAll reopened.machine = .ok listed reopened.machine ∧
          reopened'.store.readAll reopened'.machine = .ok listed reopened'.machine := by
  have kept := reached.isKept
  refine ⟨kept.gives, kept.reopen.gives, kept.prompt, fun batched => ?_, ?_, fun flushed => ?_, ?_⟩
  · have store := kept.store
    rw [batched] at store
    rw [store]
    rfl
  · intro deed error later failed
    have disk := StoreDeed.disk_of_error failed
    have left := after_of_error failed
    refine ⟨disk, left, ?_⟩
    have still : IsKept place hint { session with machine := later } := by
      refine ⟨?_, ?_, kept.storable, kept.stored, kept.store, kept.prompt⟩
      · exact disk.symm ▸ kept.tree
      · exact disk.symm ▸ kept.shows
    exact still.gives
  · rw [← kept.isFlushed_iff.1 flushed]
    exact kept.reopen.gives
  · intro place' hint' other reached' same store store' later later' flushes flushes'
    obtain ⟨reopened, opens, lists⟩ := kept.readAll_reopened flushes
    obtain ⟨reopened', opens', lists'⟩ := reached'.isKept.readAll_reopened flushes'
    rw [same] at lists'
    exact ⟨reopened, reopened', _, opens, opens', lists, lists'⟩

/-- A machine with one empty directory, which takes or refuses its writes as told. -/
def emptyDirectory (refusals : List Bool) : Machine :=
  { Machine.blank with disk := ⟨[(["run"], .directory)]⟩, refusals }

theorem opened_isReached (refusals : List Bool) :
    (opened .sample hint (emptyDirectory refusals)).IsReached .sample hint := by
  have made : Disk.empty.makeDirectories Place.sample.path = .ok ⟨[(["run"], .directory)]⟩ := rfl
  obtain ⟨reached, vacant⟩ := Place.sample_isVacant.reached made
  refine .opened (Disk.IsTree.empty.makeDirectories ?_ made).1 reached vacant
  simp only [Place.sample, List.mem_singleton]
  rintro name rfl
  decide

/-- A node that comes after the first one. -/
def secondNode : Node := { id := 2, kind := .atom, name := "second", parents := [1], actions := [] }

/-- A first node is saved, a flush is attempted, and a second node is saved. -/
def saveTwo (hint : Hint) (refusals : List Bool) : StoreSession :=
  (((opened .sample hint (emptyDirectory refusals)).after .sample hint
    (.save Graph.firstNode)).after .sample hint .flush).after .sample hint (.save secondNode)

/-- A batched store whose first flush is refused still has two saves waiting, and would lose both
to a kill.  Once they are flushed it lists the same as an immediate store. -/
theorem two_saves_on_both_stores :
    ∃ each all : StoreSession, each = saveTwo .maxSurvivability [] ∧
      all = saveTwo .performanceOptimized [true] ∧
      each.Gives [Graph.firstNode, secondNode] ∧
      (each.after .sample .maxSurvivability .reopen).Gives [Graph.firstNode, secondNode] ∧
      all.store.unflushed? = some 2 ∧ (all.after .sample .performanceOptimized .reopen).Gives [] ∧
      ∃ reopened reopened' listed,
        (each.after .sample .maxSurvivability .flush).after .sample .maxSurvivability .reopen =
          reopened ∧
        (all.after .sample .performanceOptimized .flush).after .sample .performanceOptimized
          .reopen = reopened' ∧
        reopened.store.readAll reopened.machine = .ok listed reopened.machine ∧
        reopened'.store.readAll reopened'.machine = .ok listed reopened'.machine := by
  have second : secondNode.Storable :=
    ⟨by decide, trivial, by simp [secondNode, UInt64.size], by simp [secondNode]⟩
  have reached (hint : Hint) (refusals : List Bool) :
      (saveTwo hint refusals).IsReached .sample hint := by
    refine .after (.after (.after (opened_isReached refusals) ?save) ?flush) ?last
    case save => exact Graph.firstNode_storable
    case flush => trivial
    case last => exact second
  have each : (saveTwo .maxSurvivability []).ledger =
      ⟨[Graph.firstNode, secondNode], [Graph.firstNode, secondNode]⟩ := by
    decide +kernel
  have all : (saveTwo .performanceOptimized [true]).ledger =
      ⟨[Graph.firstNode, secondNode], []⟩ := by
    decide +kernel
  have passed : Run.passes (fun _ _ => true) ((saveTwo .maxSurvivability []).store.flush
      (saveTwo .maxSurvivability []).machine) = true := by
    decide +kernel
  have passed' : Run.passes (fun _ _ => true) ((saveTwo .performanceOptimized [true]).store.flush
      (saveTwo .performanceOptimized [true]).machine) = true := by
    decide +kernel
  obtain ⟨store, later, flushes, -⟩ := Run.of_passes passed
  obtain ⟨store', later', flushes', -⟩ := Run.of_passes passed'
  have ofEach := gives_ledger (reached .maxSurvivability [])
  have ofAll := gives_ledger (reached .performanceOptimized [true])
  rw [each] at ofEach
  rw [all] at ofAll
  obtain ⟨gives, outlasts, -, -, -, -, agrees⟩ := ofEach
  obtain ⟨-, lost, -, counts, -⟩ := ofAll
  refine ⟨_, _, rfl, rfl, gives, outlasts, counts rfl, lost, ?_⟩
  exact agrees .sample .performanceOptimized _ (reached _ _) (by rw [all]) store store' later later'
    flushes flushes'

end StoreSession

end DurableMap
end DurableRuns
