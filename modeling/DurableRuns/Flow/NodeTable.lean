/-
# DurableRuns.Flow.NodeTable -- nodes under their numbers

A `NodeTable` holds nodes in ascending order of their numbers, each number once, so equal
sets of nodes are equal tables.

Main statement: `get?_insert`, what is found under a number after an insertion.
-/
import DurableRuns.Flow.Node

namespace DurableRuns

set_option autoImplicit false

/-- Nodes in ascending order of their numbers. -/
structure NodeTable where
  nodes : List Node
  ascending : nodes.Pairwise fun a b => a.id < b.id
deriving DecidableEq, Repr

namespace NodeTable

/-- No nodes. -/
def empty : NodeTable := ⟨[], .nil⟩

/-- The node with a number. -/
def get? (table : NodeTable) (id : Nat) : Option Node := table.nodes.find? (·.id = id)

/-- There is a node with a number. -/
def contains (table : NodeTable) (id : Nat) : Bool := (table.get? id).isSome

/-- The number of nodes. -/
def size (table : NodeTable) : Nat := table.nodes.length

/-- The highest number of a node. -/
def maxId? (table : NodeTable) : Option Nat := table.nodes.getLast?.map (·.id)

/-- Nodes with one more; a node of the same number is replaced. -/
def insertInto (node : Node) : List Node → List Node
  | [] => [node]
  | first :: rest =>
      if node.id < first.id then node :: first :: rest
      else if first.id < node.id then first :: insertInto node rest
      else node :: rest

theorem mem_insertInto {node other : Node} {nodes : List Node}
    (h : other ∈ insertInto node nodes) : other = node ∨ other ∈ nodes := by
  induction nodes with
  | nil => simpa [insertInto] using h
  | cons first rest ih =>
      unfold insertInto at h
      split at h
      · simpa using h
      · split at h
        · rcases List.mem_cons.1 h with same | inside
          · exact .inr (same ▸ List.mem_cons_self)
          · exact (ih inside).imp id (List.mem_cons_of_mem _)
        · exact (List.mem_cons.1 h).imp id (List.mem_cons_of_mem _)

theorem insertInto_ascending (node : Node) (nodes : List Node)
    (h : nodes.Pairwise fun a b => a.id < b.id) :
    (insertInto node nodes).Pairwise fun a b => a.id < b.id := by
  induction nodes with
  | nil => simp [insertInto]
  | cons first rest ih =>
      obtain ⟨before, tail⟩ := List.pairwise_cons.1 h
      unfold insertInto
      split
      next lower =>
        refine List.pairwise_cons.2 ⟨fun other inside => ?_, h⟩
        rcases List.mem_cons.1 inside with same | later
        · exact same ▸ lower
        · exact Nat.lt_trans lower (before other later)
      next notLower =>
        split
        next higher =>
          refine List.pairwise_cons.2 ⟨fun other inside => ?_, ih tail⟩
          rcases mem_insertInto inside with same | later
          · exact same ▸ higher
          · exact before other later
        next notHigher =>
          have same : node.id = first.id := by omega
          exact List.pairwise_cons.2 ⟨fun other inside => same ▸ before other inside, tail⟩

/-- The table with one more node; a node of the same number is replaced. -/
def insert (table : NodeTable) (node : Node) : NodeTable :=
  ⟨insertInto node table.nodes, insertInto_ascending node table.nodes table.ascending⟩

/-- The table of the given nodes; of two with one number the later counts. -/
def ofList (nodes : List Node) : NodeTable := nodes.foldl insert empty

theorem find?_insertInto (node : Node) (id : Nat) (nodes : List Node)
    (h : nodes.Pairwise fun a b => a.id < b.id) :
    (insertInto node nodes).find? (·.id = id) =
      if id = node.id then some node else nodes.find? (·.id = id) := by
  induction nodes with
  | nil =>
      by_cases same : id = node.id
      · simp [insertInto, same]
      · simp [insertInto, same, Ne.symm same]
  | cons first rest ih =>
      obtain ⟨before, tail⟩ := List.pairwise_cons.1 h
      unfold insertInto
      split
      · by_cases same : id = node.id
        · simp [same]
        · simp [List.find?_cons, same, Ne.symm same]
      · split
        next higher =>
          rw [List.find?_cons, ih tail]
          by_cases first_id : first.id = id
          · have other : ¬ id = node.id := by omega
            simp [first_id, other]
          · simp [first_id]
        next notLower notHigher =>
          have same_id : node.id = first.id := by omega
          by_cases same : id = node.id
          · simp [same]
          · simp [same, same_id ▸ Ne.symm same, Ne.symm same]

/-- An insertion changes what is found under the number of the node, and nothing else. -/
theorem get?_insert (table : NodeTable) (node : Node) (id : Nat) :
    (table.insert node).get? id = if id = node.id then some node else table.get? id :=
  find?_insertInto node id table.nodes table.ascending

theorem get?_id {table : NodeTable} {id : Nat} {node : Node} (h : table.get? id = some node) :
    node.id = id := by
  simpa using List.find?_some h

end NodeTable
end DurableRuns
