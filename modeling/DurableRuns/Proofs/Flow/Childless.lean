/-
# DurableRuns.Proofs.Flow.Childless -- the nodes that no node follows lead to all others

Where none of the recorded heads is there, a run is taken up from the nodes that no stored node
names as a parent.  Nodes may be missing, so what is left of a graph may fall apart.  Still numbers
grow from a node to those that follow it (`Graph.PointsBack`), so from every node one comes, upward
through stored nodes alone, to one that none follows, and every part has such a node
(`Graph.reaches_of_childless`).

Main statement: `Graph.childless_lead_to_all`.
-/
import DurableRuns.Proofs.Flow.Repaired

namespace DurableRuns.Graph

set_option autoImplicit false

/-- Every node names only nodes of smaller numbers as its parents.  Whether these are there is not
asked. -/
def PointsBack (graph : Graph) : Prop :=
  ∀ node ∈ graph.nodes, ∀ parent ∈ node.parents, parent < node.id

instance (graph : Graph) : Decidable graph.PointsBack :=
  inferInstanceAs (Decidable (∀ node ∈ graph.nodes, ∀ parent ∈ node.parents, parent < node.id))

variable {graph : Graph}

theorem mem_nodes_iff (graph : Graph) (node : Node) :
    node ∈ graph.nodes ↔ graph.get? node.id = some node :=
  graph.table.mem_nodes_iff node

theorem PointsBack.parent_lt (back : graph.PointsBack) {id parent : Nat} {node : Node}
    (stored : graph.get? id = some node) (inside : parent ∈ node.parents) : parent < id := by
  obtain rfl := NodeTable.get?_id stored
  exact back node ((graph.mem_nodes_iff node).2 stored) parent inside

/-- There is a number above those of all nodes. -/
theorem exists_bound (graph : Graph) :
    ∃ bound, ∀ id, graph.contains id = true → id < bound := by
  rcases graph.table.maxId?_spec with ⟨none, -⟩ | ⟨top, -, -, highest⟩
  · refine ⟨0, fun id there => ?_⟩
    have absent := not_contains_of_isEmpty (List.isEmpty_iff.2 none) id
    exact absurd there absent
  · exact ⟨top + 1, fun id there => Nat.lt_succ_of_le (highest id there)⟩

/-- Heads among which are all nodes that none follows lead to every node. -/
theorem reaches_of_childless (back : graph.PointsBack) {heads : List Nat}
    (all : ∀ id, graph.contains id = true → ¬ graph.HasChild id → id ∈ heads) {id : Nat}
    (there : graph.contains id = true) : Scan.Reaches graph.table heads id := by
  obtain ⟨bound, below⟩ := graph.exists_bound
  -- By induction on the numbers above: a node is a head or has a child of a higher number.
  generalize room : bound - id = left
  induction left using Nat.strongRecOn generalizing id with
  | ind left ih =>
      by_cases child : graph.HasChild id
      · obtain ⟨other, node, stored, inside⟩ := child
        have stands := contains_of_get? stored
        have above := back.parent_lt stored inside
        have lower := below other stands
        exact .parent (ih (bound - other) (by omega) stands rfl) stored inside
      · exact .head (all id there child)

/-! ## The childless nodes -/

theorem mem_childless_iff (graph : Graph) (id : Nat) :
    id ∈ graph.childless ↔ graph.contains id = true ∧ ¬ graph.HasChild id := by
  have stands : id ∈ graph.nodes.map (·.id) ↔ graph.contains id = true := by
    rw [List.mem_map, graph.contains_iff]
    constructor
    · rintro ⟨node, inside, rfl⟩
      exact ⟨node, (graph.mem_nodes_iff node).1 inside⟩
    · rintro ⟨node, stored⟩
      obtain rfl := NodeTable.get?_id stored
      exact ⟨node, (graph.mem_nodes_iff node).2 stored, rfl⟩
  have followed : graph.nodes.any (id ∈ ·.parents) = true ↔ graph.HasChild id := by
    rw [List.any_eq_true]
    constructor
    · rintro ⟨child, inside, parent⟩
      exact ⟨child.id, child, (graph.mem_nodes_iff child).1 inside, of_decide_eq_true parent⟩
    · rintro ⟨other, child, stored, parent⟩
      obtain rfl := NodeTable.get?_id stored
      exact ⟨child, (graph.mem_nodes_iff child).2 stored, decide_eq_true parent⟩
  rw [childless, List.mem_filter, stands, Bool.not_eq_true', ← Bool.not_eq_true, followed]

/-- They are listed in ascending order. -/
theorem childless_ascending (graph : Graph) : graph.childless.Pairwise (· < ·) :=
  List.Pairwise.filter _ (List.pairwise_map.2 graph.table.ascending)

theorem childless_eq_nil_iff (back : graph.PointsBack) :
    graph.childless = [] ↔ graph.isEmpty = true := by
  constructor
  · intro none
    rw [isEmpty, List.isEmpty_iff, List.eq_nil_iff_forall_not_mem]
    intro node inside
    have there := contains_of_get? ((graph.mem_nodes_iff node).1 inside)
    have reached := reaches_of_childless back
      (fun id stands free => (graph.mem_childless_iff id).2 ⟨stands, free⟩) there
    rw [none] at reached
    -- From no heads nothing is reached.
    have nothing {id : Nat} (reached : Scan.Reaches graph.table [] id) : False := by
      induction reached with
      | head inside => cases inside
      | parent _ _ _ ih => exact ih
    exact nothing reached
  · intro none
    refine List.eq_nil_iff_forall_not_mem.2 fun id inside => ?_
    exact not_contains_of_isEmpty none id ((graph.mem_childless_iff id).1 inside).1

/-- Where no recorded head is there, the childless nodes are gone on from. -/
theorem usableHeads_of_lost (lost : ∀ head ∈ graph.heads, graph.contains head = false) :
    graph.usableHeads = graph.childless := by
  have none : graph.heads.filter graph.contains = [] :=
    List.filter_eq_nil_iff.2 fun head inside => Bool.eq_false_iff.1 (lost head inside)
  rw [usableHeads, none]
  rfl

/-- Where every node is reached, a scan visits each of them once. -/
theorem depthFirst_perm {heads : List Nat}
    (all : ∀ id, graph.contains id = true → Scan.Reaches graph.table heads id) :
    (Scan.depthFirst graph.table heads).Perm graph.nodes := by
  refine (List.perm_ext_iff_of_nodup (Scan.nodup_depthFirst _ _) graph.table.nodup_nodes).2 ?_
  intro node
  rw [Scan.mem_depthFirst_iff, NodeTable.mem_nodes_iff]
  exact ⟨And.left, fun stored => ⟨stored, all _ (contains_of_get? stored)⟩⟩

/-- **The nodes that no node follows lead to all others.**  In a graph whose nodes name only parents
of smaller numbers, whatever is missing of it, let none of the recorded heads be there.  The heads
to go on from are then, in ascending order, the stored nodes that no stored node names as a parent;
there are some unless nothing is stored.  A depth-first scan from them visits every stored node
once, so that of the stored block starts all are seen as open that note no end and that no stored
node closes, and no others. -/
theorem childless_lead_to_all (back : graph.PointsBack)
    (lost : ∀ head ∈ graph.heads, graph.contains head = false) :
    graph.usableHeads.Pairwise (· < ·) ∧
      (∀ id, id ∈ graph.usableHeads ↔ graph.contains id = true ∧ ¬ graph.HasChild id) ∧
      (graph.usableHeads = [] ↔ graph.isEmpty = true) ∧
      (Scan.depthFirst graph.table graph.usableHeads).Perm graph.nodes ∧
      ∀ start, start ∈ graph.openBlocks graph.usableHeads ↔
        graph.IsOpen start ∧ ∀ closing, ¬ graph.Closes closing start := by
  rw [usableHeads_of_lost lost]
  have all (id : Nat) (there : graph.contains id = true) :
      Scan.Reaches graph.table graph.childless id :=
    reaches_of_childless back
      (fun other stands free => (graph.mem_childless_iff other).2 ⟨stands, free⟩) there
  refine ⟨graph.childless_ascending, graph.mem_childless_iff, childless_eq_nil_iff back,
    depthFirst_perm all, fun start => ?_⟩
  rw [mem_openBlocks_iff]
  constructor
  · rintro ⟨isOpen, -, unnamed⟩
    refine ⟨isOpen, fun closing closes => unnamed closing ?_ closes⟩
    obtain ⟨node, stored, -⟩ := closes
    exact all closing (contains_of_get? stored)
  · rintro ⟨isOpen, unnamed⟩
    obtain ⟨node, stored, -⟩ := id isOpen
    exact ⟨isOpen, all start (contains_of_get? stored), fun closing _ => unnamed closing⟩

/-- What is left of a graph that fell into two parts: the first node is lost, and the fourth, which
joined them. -/
def twoParts : Graph :=
  ofParts
    [{ id := 2, kind := .stepStart true, name := "outer", parents := [1] },
      { id := 3, kind := .atom, name := "left", parents := [2] },
      { id := 5, kind := .stepStart true, name := "inner", parents := [4] },
      { id := 6, kind := .atom, name := "deep", parents := [5, 4] }] [8, 7, 8]

theorem twoParts_lead_to_all :
    twoParts.PointsBack ∧ (∀ head ∈ twoParts.heads, twoParts.contains head = false) ∧
      twoParts.usableHeads = [3, 6] ∧
      (Scan.depthFirst twoParts.table twoParts.usableHeads).Perm twoParts.nodes ∧
      2 ∈ twoParts.openBlocks twoParts.usableHeads ∧
      5 ∈ twoParts.openBlocks twoParts.usableHeads := by
  have back : twoParts.PointsBack := by decide
  have lost : ∀ head ∈ twoParts.heads, twoParts.contains head = false := by decide
  obtain ⟨-, -, -, visits, opens⟩ := childless_lead_to_all back lost
  have unnamed (closing start : Nat) : ¬ twoParts.Closes closing start := by
    rintro ⟨node, stored, kind⟩
    obtain rfl := NodeTable.get?_id stored
    have none : ∀ node ∈ twoParts.nodes, node.kind.closes = none := by decide
    have named := none node ((twoParts.mem_nodes_iff node).2 stored)
    rw [kind] at named
    cases named
  have outer : twoParts.get? 2 =
      some { id := 2, kind := .stepStart true, name := "outer", parents := [1] } := by decide
  have inner : twoParts.get? 5 =
      some { id := 5, kind := .stepStart true, name := "inner", parents := [4] } := by decide
  exact ⟨back, lost, by decide, visits,
    (opens 2).2 ⟨⟨_, outer, rfl, rfl⟩, fun closing => unnamed closing 2⟩,
    (opens 5).2 ⟨⟨_, inner, rfl, rfl⟩, fun closing => unnamed closing 5⟩⟩

end DurableRuns.Graph
