/-
# DurableRuns.Proofs.Storage.Listing -- what a store lists

An immediate store reads the files of its directory one by one, and lists every node that it could
read (`NodeStore.readAll_of_directory`).  Where the directory shows a table, on a disk that is a
tree, each node is listed once and in ascending order (`NodeStore.readAll_eq_nodes`).
-/
import DurableRuns.Proofs.Recovery.Listing
import DurableRuns.Proofs.Run.Reopening

namespace DurableRuns

set_option autoImplicit false

open NodeStore (directoryName batchFileName nodeFile fileName room)

/-- A list of a table without repetition, once it is sorted, is the list that the table has. -/
theorem NodeTable.mergeSort_eq_nodes {table : NodeTable} {nodes : List Node} (once : nodes.Nodup)
    (same : ∀ node, node ∈ nodes ↔ table.get? node.id = some node) :
    (nodes.mergeSort fun a b => a.id ≤ b.id) = table.nodes := by
  have members : (nodes.mergeSort fun a b => a.id ≤ b.id).Perm table.nodes := by
    refine (List.mergeSort_perm ..).trans ?_
    rw [List.perm_ext_iff_of_nodup once table.nodup_nodes]
    intro node
    rw [same, mem_nodes_iff]
  have sorted : (nodes.mergeSort fun a b => a.id ≤ b.id).Pairwise fun a b => a.id ≤ b.id :=
    (List.pairwise_mergeSort (by simpa using fun a b c => Nat.le_trans)
      (by simpa using fun a b : Node => Nat.le_total a.id b.id) nodes).imp (by simp)
  -- Of two nodes of the table neither comes before the other only if they are one.
  refine members.eq_of_pairwise ?_ sorted (table.ascending.imp Nat.le_of_lt)
  intro a b insideA insideB lower higher
  have number : a.id = b.id := Nat.le_antisymm lower higher
  have foundA := (same a).1 (List.mem_mergeSort.1 insideA)
  rw [number, (mem_nodes_iff table b).1 insideB] at foundA
  exact (Option.some.inj foundA).symm

namespace NodeStore

section Files

variable {disk : Disk} {directory : Place} {names : List String}

/-- A node is read from a file whose name is one of a node's file. -/
theorem mem_readFiles {node : Node} :
    node ∈ (readFiles disk directory names).nodes ↔
      ∃ name ∈ names, isNodeFileName name = true ∧
        disk.readJson (directory.join name).path (Node.ofJson? room) = .ok node := by
  induction names with
  | nil => simp [readFiles]
  | cons name rest ih =>
      simp only [readFiles]
      rw [List.exists_mem_cons_iff, ← ih]
      cases isNode : isNodeFileName name with
      | false => simp
      | true =>
          cases read : disk.readJson (directory.join name).path (Node.ofJson? room) with
          | error fault => simp
          | ok found => simp [eq_comm]

/-- A directory in which no name stands twice lists no node twice. -/
theorem nodup_readFiles {table : NodeTable}
    (holds : HoldsNodes disk directory.path table)
    (storable : ∀ id node, table.get? id = some node → node.Storable)
    (present : ∀ name ∈ names, disk.at? (directory.path ++ [name]) ≠ none) (once : names.Nodup) :
    (readFiles disk directory names).nodes.Nodup := by
  induction names with
  | nil => exact List.nodup_nil
  | cons name rest ih =>
      obtain ⟨here, later⟩ := List.forall_mem_cons.1 present
      obtain ⟨fresh, onceRest⟩ := List.nodup_cons.1 once
      have tail := ih later onceRest
      simp only [readFiles]
      split
      next =>
        split
        next node read =>
          refine List.nodup_cons.2 ⟨fun inside => fresh ?_, tail⟩
          -- The node is read from the file of its number, and this file is not among the others.
          have member := (readFiles_spec holds storable later).2 node |>.1 inside
          have alone : ∀ other ∈ [name], disk.at? (directory.path ++ [other]) ≠ none := by
            simpa using here
          have only := (readFiles_spec holds storable alone).2 node
          have single : node ∈ (readFiles disk directory [name]).nodes := by
            simp only [readFiles]
            split
            next => simp [read]
            next foreign => exact absurd ‹_› foreign
          rw [← List.mem_singleton.1 (only.1 single).2]
          exact member.2
        next => exact tail
      next => exact tail

end Files

section Stores

variable {place : Place} {hint : Hint} {machine : Machine} {image : Image}

/-- A node that an immediate store lists was read from a file in its directory. -/
theorem exists_file_of_mem_readAll {loaded : StoredNodes} {directory : Place} {atomic : Bool}
    {node : Node} (lists : (immediate directory atomic).readAll machine = .ok loaded machine)
    (inside : node ∈ loaded.nodes) :
    ∃ name, machine.disk.at? (directory.path ++ [name]) ≠ none ∧
      machine.disk.readJson (directory.join name).path (Node.ofJson? room) = .ok node := by
  rw [readAll, Machine.get_bind] at lists
  cases named : machine.disk.names directory.path with
  | error fault =>
      rw [named] at lists
      cases fault with
      | notFound =>
          cases lists
          cases inside
      | _ => cases lists
  | ok names =>
      rw [named] at lists
      cases lists
      obtain ⟨name, member, -, read⟩ := mem_readFiles.1 (List.mem_mergeSort.1 inside)
      exact ⟨name, (Disk.mem_names named name).1 member, read⟩

/-- Where its directory stands, an immediate store lists every node that can be read in it. -/
theorem readAll_of_directory {directory : Place} (atomic : Bool)
    (stands : machine.disk.at? directory.path = some .directory) :
    ∃ loaded, (immediate directory atomic).readAll machine = .ok loaded machine ∧
      ∀ node, node ∈ loaded.nodes ↔
        ∃ name, machine.disk.at? (directory.path ++ [name]) ≠ none ∧
          isNodeFileName name = true ∧
          machine.disk.readJson (directory.join name).path (Node.ofJson? room) = .ok node := by
  cases named : machine.disk.names directory.path with
  | error fault =>
      rw [Disk.names, stands] at named
      cases named
  | ok names =>
      rw [readAll, Machine.get_bind]
      simp only [named]
      refine ⟨_, rfl, fun node => ?_⟩
      simp only [List.mem_mergeSort, mem_readFiles, Disk.mem_names named]

/-- Nodes are listed unless the names of their files cannot be told. -/
theorem readAll_returns (machine : Machine) (place : Place) (hint : Hint)
    (listed : hint.storageKind = .immediate → ∀ fault,
      machine.disk.names (place.join directoryName).path = .error fault → fault = .notFound) :
    ∃ loaded, (ofRun machine.disk place hint).readAll machine = .ok loaded machine := by
  rw [ofRun]
  cases kind : hint.storageKind with
  | batched =>
      simp only [openBatched]
      split
      next => split <;> exact ⟨_, rfl⟩
      next => exact ⟨_, rfl⟩
  | immediate =>
      rw [openImmediate, readAll, Machine.get_bind]
      cases named : machine.disk.names (place.join directoryName).path with
      | ok names => exact ⟨_, rfl⟩
      | error fault =>
          obtain rfl := listed kind fault named
          exact ⟨_, rfl⟩

/-- A store lists the nodes that the directory of its run shows, in ascending order. -/
theorem readAll_eq_nodes (tree : machine.disk.IsTree)
    (shows : Shows machine.disk place hint.storageKind image) (storable : image.Storable) :
    (ofImage place hint image.nodes).readAll machine = .ok ⟨image.nodes.nodes, []⟩ machine := by
  rw [ofImage]
  cases kind : hint.storageKind with
  | batched => rfl
  | immediate =>
      rw [kind] at shows
      have holds : HoldsNodes machine.disk (place.join directoryName).path image.nodes := by
        rw [path_nodeDirectory]
        exact shows.nodes
      rw [openImmediate, readAll, Machine.get_bind]
      cases listed : machine.disk.names (place.join directoryName).path with
      | error fault =>
          rcases holds.stands with stands | ⟨nothing, empty⟩
          · rw [Disk.names, stands] at listed
            cases listed
          · have free : machine.disk.IsFree (place.join directoryName).path.dropLast := by
              rw [path_nodeDirectory, List.dropLast_concat]
              exact shows.reached.isFree
            rw [Disk.names, nothing, Disk.missing_eq_notFound free] at listed
            cases listed
            rw [empty]
            rfl
      | ok names =>
          have members := Disk.mem_names listed
          have present : ∀ name ∈ names,
              machine.disk.at? ((place.join directoryName).path ++ [name]) ≠ none :=
            fun name inside => (members name).1 inside
          obtain ⟨faultless, spec⟩ := readFiles_spec holds storable.nodes present
          have once := nodup_readFiles holds storable.nodes present (tree.nodup_names listed)
          have all (node : Node) :
              node ∈ (readFiles machine.disk (place.join directoryName) names).nodes ↔
                image.nodes.get? node.id = some node := by
            rw [spec, members, holds.files]
            constructor
            · exact And.left
            · intro found
              simp [found]
          simp only [faultless, NodeTable.mergeSort_eq_nodes once all]
          rfl

/-- A store has the nodes that the directory of its run shows. -/
theorem read_eq (shows : Shows machine.disk place hint.storageKind image)
    (storable : image.Storable) (id : Nat) :
    (ofImage place hint image.nodes).read id machine =
      match image.nodes.get? id with
      | some node => .ok node machine
      | none => .error (.graph (.missing id)) machine := by
  rw [ofImage]
  cases kind : hint.storageKind with
  | batched => cases found : image.nodes.get? id <;> simp [read, found] <;> rfl
  | immediate =>
      rw [kind] at shows
      have holds : HoldsNodes machine.disk (place.join directoryName).path image.nodes := by
        rw [path_nodeDirectory]
        exact shows.nodes
      have file := holds.files id
      rw [← (place.join directoryName).path_join (isStep_fileName id)] at file
      change machine.disk.at? (nodeFile (place.join directoryName) id).path = _ at file
      rw [openImmediate, read]
      simp only [Machine.get_bind]
      cases stored : image.nodes.get? id with
      | none =>
          rw [stored] at file
          have absent : machine.disk.exists? (nodeFile (place.join directoryName) id).path = false := by
            rw [Disk.exists?, file]
            rfl
          rw [if_neg (by simp [absent])]
          rfl
      | some node =>
          rw [stored] at file
          have there : machine.disk.exists? (nodeFile (place.join directoryName) id).path = true := by
            rw [Disk.exists?, file]
            rfl
          have fits := storable.nodes id node stored
          have back : Node.ofJson? room node.toJson = some node :=
            Node.ofJson?_toJson fits (by decide)
          have found := Disk.readJson_eq_ok file (Node.isOrdinary_toJson fits) back
          rw [if_pos there, Machine.readJson_eq, found]

end Stores
end NodeStore
end DurableRuns
