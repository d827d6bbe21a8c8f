/-
# DurableRuns.Proofs.Flow.Table -- a table is what is found under its numbers

Two tables in which every number leads to the same node are equal (`NodeTable.eq_of_get?`),
so a table is known once `get?` is.  Of a list with repeated numbers the last node counts
(`get?_ofList`); in a list that names no number for two nodes all of them do
(`get?_ofList_iff`).
-/
import DurableRuns.Flow.NodeTable

namespace DurableRuns.NodeTable

set_option autoImplicit false

@[simp]
theorem get?_empty (id : Nat) : empty.get? id = none := rfl

theorem mem_nodes_iff (table : NodeTable) (node : Node) :
    node ∈ table.nodes ↔ table.get? node.id = some node := by
  constructor
  · intro inside
    rw [get?]
    obtain ⟨nodes, ascending⟩ := table
    induction nodes with
    | nil => cases inside
    | cons first rest ih =>
        obtain ⟨before, tail⟩ := List.pairwise_cons.1 ascending
        rcases List.mem_cons.1 inside with same | later
        · simp [same]
        · have lower := before node later
          have other : ¬ first.id = node.id := by omega
          simpa [List.find?_cons, other] using ih tail later
  · intro found
    exact List.mem_of_find?_eq_some found

theorem nodup_nodes (table : NodeTable) : table.nodes.Nodup :=
  table.ascending.imp fun lower same => by
    rw [same] at lower
    exact Nat.lt_irrefl _ lower

/-- A table is what is found under its numbers. -/
theorem eq_of_get? {a b : NodeTable} (same : ∀ id, a.get? id = b.get? id) : a = b := by
  have members : a.nodes.Perm b.nodes := by
    rw [List.perm_ext_iff_of_nodup a.nodup_nodes b.nodup_nodes]
    intro node
    rw [mem_nodes_iff, mem_nodes_iff, same]
  have equal : a.nodes = b.nodes := by
    refine members.eq_of_pairwise ?_ a.ascending b.ascending
    intro first second _ _ lower higher
    omega
  cases a
  cases b
  cases equal
  rfl

theorem get?_foldl_insert (nodes : List Node) (table : NodeTable) (id : Nat) :
    (nodes.foldl insert table).get? id =
      (nodes.reverse.find? (·.id = id)).or (table.get? id) := by
  induction nodes generalizing table with
  | nil => rfl
  | cons first rest ih =>
      rw [List.foldl_cons, ih, get?_insert, List.reverse_cons, List.find?_append]
      cases rest.reverse.find? (·.id = id) with
      | some node => rfl
      | none =>
          by_cases same : id = first.id
          · simp [same]
          · simp [same, Ne.symm same]

/-- Of two nodes of one number in a list the later one counts. -/
theorem get?_ofList (nodes : List Node) (id : Nat) :
    (ofList nodes).get? id = nodes.reverse.find? (·.id = id) := by
  rw [ofList, get?_foldl_insert]
  simp

theorem get?_ofList_iff {nodes : List Node}
    (single : ∀ a ∈ nodes, ∀ b ∈ nodes, a.id = b.id → a = b) (id : Nat) (node : Node) :
    (ofList nodes).get? id = some node ↔ node ∈ nodes ∧ node.id = id := by
  rw [get?_ofList]
  constructor
  · intro found
    have inside := List.mem_of_find?_eq_some found
    have same := List.find?_some found
    exact ⟨List.mem_reverse.1 inside, by simpa using same⟩
  · rintro ⟨inside, same⟩
    cases found : nodes.reverse.find? (·.id = id) with
    | none =>
        have absent := List.find?_eq_none.1 found node (List.mem_reverse.2 inside)
        simp [same] at absent
    | some other =>
        have member := List.mem_reverse.1 (List.mem_of_find?_eq_some found)
        have number : other.id = id := by simpa using List.find?_some found
        rw [single other member node inside (number.trans same.symm)]

theorem contains_ofList (nodes : List Node) (id : Nat) :
    (ofList nodes).contains id = true ↔ ∃ node ∈ nodes, node.id = id := by
  rw [contains, get?_ofList, List.find?_isSome]
  simp

/-- Nodes that agree with a table and are all of it make up this table. -/
theorem ofList_eq {nodes : List Node} {table : NodeTable}
    (same : ∀ node, node ∈ nodes ↔ table.get? node.id = some node) : ofList nodes = table := by
  have single : ∀ a ∈ nodes, ∀ b ∈ nodes, a.id = b.id → a = b := by
    intro a insideA b insideB number
    have found := (same a).1 insideA
    rw [number, (same b).1 insideB] at found
    exact (Option.some.inj found).symm
  apply eq_of_get?
  intro id
  apply Option.ext
  intro node
  rw [get?_ofList_iff single]
  constructor
  · rintro ⟨inside, rfl⟩
    exact (same node).1 inside
  · intro found
    obtain rfl := get?_id found
    exact ⟨(same node).2 found, rfl⟩

theorem ofList_nodes (table : NodeTable) : ofList table.nodes = table :=
  ofList_eq table.mem_nodes_iff

theorem contains_iff (table : NodeTable) (id : Nat) :
    table.contains id = true ↔ ∃ node, table.get? id = some node :=
  Option.isSome_iff_exists

/-- The highest number is the one of the last node. -/
theorem maxId?_spec (table : NodeTable) :
    (table.nodes = [] ∧ table.maxId? = none) ∨ ∃ top, table.maxId? = some top ∧
      table.contains top = true ∧ ∀ id, table.contains id = true → id ≤ top := by
  rcases List.eq_nil_or_concat table.nodes with none | ⟨front, last, whole⟩
  · exact .inl ⟨none, by simp [maxId?, none]⟩
  · right
    rw [List.concat_eq_append] at whole
    have member : last ∈ table.nodes := by simp [whole]
    refine ⟨last.id, by simp [maxId?, whole], ?_, ?_⟩
    · exact (table.contains_iff _).2 ⟨last, (table.mem_nodes_iff last).1 member⟩
    · intro id there
      obtain ⟨node, stored⟩ := (table.contains_iff id).1 there
      obtain rfl := get?_id stored
      have inside := (table.mem_nodes_iff node).2 stored
      have ascending := table.ascending
      rw [whole, List.pairwise_append] at ascending
      rw [whole, List.mem_append] at inside
      rcases inside with early | same
      · exact Nat.le_of_lt (ascending.2.2 node early last (by simp))
      · exact Nat.le_of_eq (congrArg Node.id (List.mem_singleton.1 same))

theorem maxId?_eq_some {table : NodeTable} {top : Nat} (stored : table.contains top = true)
    (highest : ∀ id, table.contains id = true → id ≤ top) : table.maxId? = some top := by
  rcases table.maxId?_spec with ⟨none, -⟩ | ⟨last, found, there, least⟩
  · obtain ⟨node, found⟩ := (table.contains_iff top).1 stored
    have inside : node ∈ table.nodes := List.mem_of_find?_eq_some found
    simp [none] at inside
  · have above := least top stored
    have below := highest last there
    rw [found, Nat.le_antisymm below above]

end DurableRuns.NodeTable
