/-
# DurableRuns.Storage.NodeStore -- where the nodes of a run are kept

A `NodeStore` keeps the nodes of one run in its directory, in one of two ways.

* An immediate store has a file for each node and writes it before a save returns.
* A batched store holds the nodes in memory and writes all of them, in one file, when it is
  flushed.  What was saved since the last flush is lost when the store is dropped.

Both read leniently: a file that cannot be read is reported beside the nodes that could.

A step on a store (`StoreM`) leaves what it did before it failed; `NodeStore.save` and
`NodeStore.flush` give the store only where the step succeeds.
-/
import DurableRuns.Disk.Machine
import DurableRuns.Flow.NodeTable

namespace DurableRuns

set_option autoImplicit false

/-- Where the nodes of a run are kept. -/
inductive NodeStore where
  /-- One file for each node, in a directory of their own. -/
  | immediate (directory : Place) (atomic : Bool)
  /-- One file for all nodes.  `unflushed` counts the saves since the last flush; `fault` is
  why the file could not be read when the store was opened. -/
  | batched (file : Place) (nodes : NodeTable) (unflushed : Nat) (fault : Option ReadFault)
deriving DecidableEq, Repr

/-- The nodes that could be read, and for each file that could not the reason. -/
structure StoredNodes where
  nodes : List Node
  faults : List (String × ReadFault)

namespace NodeStore

/-- The directory of an immediate store within the directory of its run. -/
def directoryName : String := "nodes"

/-- The file of a batched store within the directory of its run. -/
def batchFileName : String := "nodes.json"

/-- The file of a node. -/
def nodeFile (directory : Place) (id : Nat) : Place := directory.join (toString id ++ ".json")

/-- A file of this name can hold a node. -/
def isNodeFileName (name : String) : Bool := name.endsWith ".json" && name ≠ ".json"

/-- How much nesting is allowed in a file. -/
def room : Nat := Json.maxNesting

/-- The immediate store of a run. -/
def openImmediate (run : Place) (atomic : Bool) : NodeStore :=
  .immediate (run.join directoryName) atomic

/-- The batched store of a run, with the nodes that were flushed before.  If these cannot be
read the store starts empty. -/
def openBatched (disk : Disk) (run : Place) : NodeStore :=
  let file := run.join batchFileName
  if disk.exists? file.path then
    match disk.readJson file.path (Node.listOfJson? room) with
    | .ok nodes => .batched file (.ofList nodes) 0 none
    | .error fault => .batched file .empty 0 (some fault)
  else .batched file .empty 0 none

/-- The store that the hint of a run asks for. -/
def ofRun (disk : Disk) (run : Place) (hint : Hint) : NodeStore :=
  match hint.storageKind with
  | .immediate => openImmediate run hint.writesAtomically
  | .batched => openBatched disk run

/-- How the nodes reach the disk. -/
def kind : NodeStore → StorageKind
  | immediate .. => .immediate
  | batched .. => .batched

/-- Nothing that was saved is waiting to be written. -/
def isFlushed : NodeStore → Bool
  | immediate .. => true
  | batched _ _ unflushed _ => unflushed = 0

/-- The number of saves that are waiting to be written, for a batched store. -/
def unflushed? : NodeStore → Option Nat
  | immediate .. => none
  | batched _ _ unflushed _ => some unflushed

end NodeStore

/-- A store and the machine beneath it. -/
structure LiveStore where
  store : NodeStore
  machine : Machine

/-- A step on a store, which may fail.  What it did before it failed remains. -/
abbrev StoreM := EStateM Error LiveStore

namespace StoreM

/-- A step on the machine beneath a store. -/
def onMachine {α : Type} (step : MachineM α) : StoreM α := fun live =>
  match step live.machine with
  | .ok value machine => .ok value { live with machine }
  | .error error machine => .error error { live with machine }

/-- Saves a node, new or changed. -/
def save (node : Node) : StoreM Unit := do
  match (← get).store with
  | .immediate directory atomic =>
      onMachine (Machine.writeJson (NodeStore.nodeFile directory node.id) node.toJson atomic)
  | .batched file nodes unflushed fault =>
      modify fun live =>
        { live with store := .batched file (nodes.insert node) (unflushed + 1) fault }

/-- Writes what is waiting to be written. -/
def flush : StoreM Unit := do
  let live ← get
  match live.store with
  | .immediate .. => return ()
  | .batched file nodes unflushed fault =>
      if unflushed = 0 && live.machine.disk.exists? file.path then return ()
      onMachine (Machine.writeJson file (.array (nodes.nodes.map Node.toJson)) true)
      modify fun live => { live with store := .batched file nodes 0 fault }

/-- A step on a given store, as a step on the machine that gives the store. -/
def on (store : NodeStore) (step : StoreM Unit) : MachineM NodeStore := fun machine =>
  match step { store, machine } with
  | .ok () live => .ok live.store live.machine
  | .error error live => .error error live.machine

end StoreM

namespace NodeStore

/-- The store with a node saved, new or changed. -/
def save (store : NodeStore) (node : Node) : MachineM NodeStore :=
  StoreM.on store (StoreM.save node)

/-- The store when it has written what was waiting to be written. -/
def flush (store : NodeStore) : MachineM NodeStore := StoreM.on store StoreM.flush

/-- Loads one node. -/
def read (store : NodeStore) (id : Nat) : MachineM Node := do
  match store with
  | immediate directory _ =>
      let file := nodeFile directory id
      if (← get).disk.exists? file.path then Machine.readJson file (Node.ofJson? room)
      else throw (.graph (.missing id))
  | batched _ nodes _ _ =>
      match nodes.get? id with
      | some node => return node
      | none => throw (.graph (.missing id))

/-- Reads the files of a directory one by one. -/
def readFiles (disk : Disk) (directory : Place) : List String → StoredNodes
  | [] => ⟨[], []⟩
  | name :: rest =>
      let loaded := readFiles disk directory rest
      if isNodeFileName name then
        let file := directory.join name
        match disk.readJson file.path (Node.ofJson? room) with
        | .ok node => { loaded with nodes := node :: loaded.nodes }
        | .error fault => { loaded with faults := (file.shown, fault) :: loaded.faults }
      else loaded

/-- Loads every node that can be read, in ascending order of the numbers. -/
def readAll (store : NodeStore) : MachineM StoredNodes := do
  match store with
  | immediate directory _ =>
      let disk := (← get).disk
      match disk.names directory.path with
      | .ok names =>
          let loaded := readFiles disk directory names
          return { loaded with nodes := loaded.nodes.mergeSort fun a b => a.id ≤ b.id }
      | .error .notFound => return ⟨[], []⟩
      | .error fault => throw (.disk fault)
  | batched file nodes _ fault =>
      return ⟨nodes.nodes, fault.toList.map fun fault => (file.shown, fault)⟩

end NodeStore
end DurableRuns
