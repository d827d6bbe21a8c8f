/-
# DurableRuns.Proofs.Flow.Linear -- a depth-first scan begins with the linear one

A linear scan goes from the first head along first parents, and ends at a node without parents or
at a number under which nothing is stored.  `Scan.linear` takes a limit, since on a table with a
cycle there is no such end.  Where numbers grow along every edge each step leads to a smaller
number, so the scan that is asked for one node after the other comes to an end
(`Graph.PointsBack.exists_traces`), and with the number of nodes as its limit `Scan.linear` gives
all of it.

What a depth-first scan visits first is the same path: the first parent of a node lies on top of the
stack and has a number smaller than all that were seen, so it is new.  Only where the path ends do
the two part (`Graph.PointsBack.isPrefix_fromStack`).

Main statement: `Graph.linear_isPrefix_depthFirst`.
-/
import DurableRuns.Proofs.Flow.Search
import DurableRuns.Proofs.Flow.Traceable

namespace DurableRuns

set_option autoImplicit false

namespace Scan

/-! ## One node after the other -/

/-- The next node of a linear scan that stands at a number, with the number at which the scan stands
after it. -/
def onward? (table : NodeTable) : Option Nat → Option (Node × Option Nat)
  | none => none
  | some id => (table.get? id).map fun node => (node, node.parents.head?)

/-- A linear scan that is asked for one node after the other gives these nodes, and then no more. -/
inductive Traces (table : NodeTable) : Option Nat → List Node → Prop where
  | ends {next : Option Nat} (none : onward? table next = none) : Traces table next []
  | node {next next' : Option Nat} {node : Node} {later : List Node}
      (here : onward? table next = some (node, next')) (rest : Traces table next' later) :
      Traces table next (node :: later)

variable {table : NodeTable} {next next' : Option Nat} {node : Node} {nodes others : List Node}

theorem onward?_eq_some_iff :
    onward? table next = some (node, next') ↔
      ∃ id, next = some id ∧ table.get? id = some node ∧ node.parents.head? = next' := by
  cases next with
  | none => simp [onward?]
  | some id => simp [onward?]

theorem along_succ (table : NodeTable) (limit : Nat) (next : Option Nat) :
    along table (limit + 1) next =
      match onward? table next with
      | none => []
      | some (node, next') => node :: along table limit next' := by
  cases next with
  | none => rfl
  | some id =>
      rw [along, onward?]
      cases table.get? id with
      | none => rfl
      | some node => rfl

namespace Traces

/-- With a limit the scan gives the first of its nodes. -/
theorem along_eq (traces : Traces table next nodes) (limit : Nat) :
    along table limit next = nodes.take limit := by
  induction traces generalizing limit with
  | ends none =>
      cases limit with
      | zero => rfl
      | succ limit => rw [along_succ, none, List.take_nil]
  | node here _ ih =>
      cases limit with
      | zero => rfl
      | succ limit =>
          rw [along_succ, here, List.take_succ_cons]
          exact congrArg (List.cons _) (ih limit)

theorem unique (traces : Traces table next nodes) (also : Traces table next others) :
    others = nodes := by
  -- A limit that neither of them reaches.
  have same := (also.along_eq (others.length + nodes.length)).symm.trans (traces.along_eq _)
  rwa [List.take_of_length_le (by omega), List.take_of_length_le (by omega)] at same

/-- The nodes are stored under their numbers. -/
theorem stored (traces : Traces table next nodes) :
    ∀ node ∈ nodes, table.get? node.id = some node := by
  induction traces with
  | ends => simp
  | node here _ ih =>
      obtain ⟨id, -, found, -⟩ := onward?_eq_some_iff.1 here
      exact List.forall_mem_cons.2 ⟨NodeTable.get?_id found ▸ found, ih⟩

end Traces
end Scan

namespace Graph

open Scan (Traces onward? onward?_eq_some_iff fromStack fromStack_of_new)

variable {graph : Graph} {next : Option Nat} {nodes : List Node}

/-! ## Where numbers grow along every edge -/

namespace PointsBack

variable (back : graph.PointsBack)

include back

/-- A linear scan comes to an end. -/
theorem exists_traces (next : Option Nat) : ∃ nodes, Traces graph.table next nodes := by
  cases next with
  | none => exact ⟨[], .ends rfl⟩
  | some id =>
      -- By induction on the number at which the scan stands.
      induction id using Nat.strongRecOn with
      | ind id ih =>
          cases stored : graph.table.get? id with
          | none => exact ⟨[], .ends (by rw [onward?, stored]; rfl)⟩
          | some node =>
              have here : onward? graph.table (some id) = some (node, node.parents.head?) := by
                rw [onward?, stored]
                rfl
              cases first : node.parents.head? with
              | none => exact ⟨[node], .node here (first ▸ .ends rfl)⟩
              | some parent =>
                  have lower : parent < id := back.parent_lt stored (List.mem_of_head? first)
                  obtain ⟨later, rest⟩ := ih parent lower
                  exact ⟨node :: later, .node here (first ▸ rest)⟩

/-- Each node of a linear scan has a smaller number than the one before it. -/
theorem descending (traces : Traces graph.table next nodes) :
    (nodes.map (·.id)).Pairwise (· > ·) ∧ ∀ node ∈ nodes, ∃ id ∈ next, node.id ≤ id := by
  induction traces with
  | ends => simp
  | @node _ _ node later here _ ih =>
      obtain ⟨id, rfl, stored, rfl⟩ := onward?_eq_some_iff.1 here
      obtain ⟨descends, bounded⟩ := ih
      have below (other : Node) (inside : other ∈ later) : other.id < id := by
        obtain ⟨parent, first, le⟩ := bounded other inside
        exact Nat.lt_of_le_of_lt le (back.parent_lt stored (List.mem_of_head? first))
      have number : node.id = id := NodeTable.get?_id stored
      constructor
      · rw [List.map_cons, List.pairwise_cons, List.forall_mem_map]
        exact ⟨fun other inside => number ▸ below other inside, descends⟩
      · refine List.forall_mem_cons.2 ⟨⟨id, rfl, Nat.le_of_eq number⟩, fun other inside => ?_⟩
        exact ⟨id, rfl, Nat.le_of_lt (below other inside)⟩

/-- A linear scan gives no more nodes than there are. -/
theorem length_le (traces : Traces graph.table next nodes) : nodes.length ≤ graph.size := by
  have nodup : nodes.Nodup := (List.pairwise_map.1 (back.descending traces).1).imp
    fun lower same => Nat.ne_of_gt lower (congrArg Node.id same)
  have inside : nodes ⊆ graph.table.nodes := fun node member =>
    (graph.table.mem_nodes_iff node).2 (traces.stored node member)
  exact (List.subperm_of_subset nodup inside).length_le

/-- With the number of nodes as its limit a linear scan gives all that it comes to. -/
theorem traces_linear (heads : List Nat) :
    Traces graph.table heads.head? (Scan.linear graph.table heads graph.size) := by
  obtain ⟨nodes, traces⟩ := back.exists_traces heads.head?
  rw [Scan.linear, traces.along_eq, List.take_of_length_le (back.length_le traces)]
  exact traces

/-- A depth-first scan that goes on from the number at which a linear one stands, and has seen only
larger numbers, visits the nodes of the linear one first. -/
theorem isPrefix_fromStack (traces : Traces graph.table next nodes) {stack seen : List Nat}
    (above : ∀ id ∈ next, ∀ old ∈ seen, id < old) :
    nodes <+: fromStack graph.table (next.toList ++ stack) seen := by
  induction traces generalizing stack seen with
  | ends => exact List.nil_prefix
  | @node _ _ node later here _ ih =>
      obtain ⟨id, rfl, stored, rfl⟩ := onward?_eq_some_iff.1 here
      have new : id ∉ seen := fun old => Nat.lt_irrefl id (above id rfl id old)
      -- The first parent, if there is one, goes on top of the stack.
      have split : node.parents ++ stack =
          node.parents.head?.toList ++ (node.parents.tail ++ stack) := by
        cases node.parents <;> rfl
      rw [Option.toList_some, List.singleton_append, fromStack_of_new new stored, split]
      refine List.cons_prefix_cons.2 ⟨rfl, ih fun parent first old inside => ?_⟩
      have lower : parent < id := back.parent_lt stored (List.mem_of_head? first)
      rcases List.mem_cons.1 inside with rfl | earlier
      · exact lower
      · exact Nat.lt_trans lower (above id rfl old earlier)

theorem linear_isPrefix (heads : List Nat) :
    Scan.linear graph.table heads graph.size <+: Scan.depthFirst graph.table heads := by
  have starts : Scan.linear graph.table heads graph.size <+:
      fromStack graph.table (heads.head?.toList ++ heads.tail) [] :=
    back.isPrefix_fromStack (back.traces_linear heads) (by simp)
  have whole : heads.head?.toList ++ heads.tail = heads := by cases heads <;> rfl
  rwa [whole] at starts

end PointsBack

namespace IsTraceable

variable (traceable : graph.IsTraceable)

include traceable

/-- From a stored node a linear scan comes to the flow start. -/
theorem getLast?_of_traces (traces : Traces graph.table next nodes)
    (there : ∃ id ∈ next, graph.contains id = true) :
    ∃ start, nodes.getLast? = some start ∧ graph.get? firstId = some start ∧
      start.kind = .flowStart := by
  induction traces with
  | ends none =>
      obtain ⟨id, rfl, known⟩ := there
      obtain ⟨node, stored⟩ := (graph.contains_iff id).1 known
      cases none.symm.trans (onward?_eq_some_iff.2 ⟨id, rfl, stored, rfl⟩)
  | @node _ _ node later here rest ih =>
      obtain ⟨id, rfl, stored, rfl⟩ := onward?_eq_some_iff.1 here
      cases first : node.parents.head? with
      | none =>
          have kind := traceable.begins id node stored (List.head?_eq_none_iff.1 first)
          obtain rfl := traceable.first id node stored kind
          rw [first] at rest
          obtain rfl := rest.unique (.ends rfl)
          exact ⟨node, rfl, stored, kind⟩
      | some parent =>
          have known := (traceable.parents id node stored parent (List.mem_of_head? first)).1
          obtain ⟨start, last, found⟩ := ih ⟨parent, first, known⟩
          refine ⟨start, ?_, found⟩
          rw [List.getLast?_cons, last]
          rfl

theorem getLast?_linear (stands : graph.isEmpty = false) :
    ∃ start, (graph.linear graph.size).getLast? = some start ∧
      graph.get? firstId = some start ∧ start.kind = .flowStart := by
  have headed : graph.heads.head? ≠ none :=
    mt List.head?_eq_none_iff.1 (traceable.usable.heads_ne_nil stands)
  obtain ⟨head, first⟩ := Option.ne_none_iff_exists'.1 headed
  have known := traceable.usable.heads_stored head (List.mem_of_head? first)
  exact traceable.getLast?_of_traces (traceable.pointsBack.traces_linear graph.heads)
    ⟨head, first, known⟩

end IsTraceable

/-- **The linear view is a prefix of the depth-first view.**  In a graph whose nodes name only
parents of smaller numbers, whatever is missing of it, and from any heads, a linear scan comes to an
end; a limit cuts it off and changes nothing else.  Its numbers descend strictly, and a depth-first
scan from the same heads begins with its nodes.  In a graph that has nodes and that calls made from
the empty one, its last node is the flow start, of which there is no other. -/
theorem linear_isPrefix_depthFirst :
    (∀ (graph : Graph) (heads : List Nat), graph.PointsBack →
      (∀ nodes, Traces graph.table heads.head? nodes ↔
        nodes = Scan.linear graph.table heads graph.size) ∧
      (∀ limit, Scan.linear graph.table heads limit =
        (Scan.linear graph.table heads graph.size).take limit) ∧
      ((Scan.linear graph.table heads graph.size).map (·.id)).Pairwise (· > ·) ∧
      Scan.linear graph.table heads graph.size <+: Scan.depthFirst graph.table heads) ∧
    ∀ calls : List GraphCall, (empty.afterAll calls).isEmpty = false →
      ∃ start,
        ((empty.afterAll calls).linear (empty.afterAll calls).size).getLast? = some start ∧
        start.kind = .flowStart ∧
        ∀ node ∈ (empty.afterAll calls).nodes, node.kind = .flowStart → node = start := by
  constructor
  · intro graph heads back
    have traces := back.traces_linear heads
    refine ⟨fun nodes => ⟨traces.unique, ?_⟩, traces.along_eq, (back.descending traces).1,
      back.linear_isPrefix heads⟩
    rintro rfl
    exact traces
  · intro calls some
    have traceable := IsTraceable.empty.afterAll calls
    obtain ⟨start, last, stored, kind⟩ := traceable.getLast?_linear some
    refine ⟨start, last, kind, fun node inside starts => ?_⟩
    have found := (mem_nodes_iff _ node).1 inside
    rw [traceable.first node.id node found starts] at found
    exact Option.some.inj (found.symm.trans stored)

/-- What is left of a join: the second node is lost, which the first branch follows. -/
def tornJoin : Graph :=
  ofParts
    [{ id := 1, kind := .flowStart, name := "start", parents := [] },
      { id := 3, kind := .atom, name := "left", parents := [2] },
      { id := 4, kind := .atom, name := "right", parents := [1] },
      { id := 6, kind := .atom, name := "join", parents := [3, 4] }] [6]

theorem linear_of_tornJoin :
    tornJoin.PointsBack ∧
      (Scan.linear tornJoin.table [6, 5, 4] tornJoin.size).map (·.id) = [6, 3] ∧
      Scan.linear tornJoin.table [6, 5, 4] tornJoin.size <+:
        Scan.depthFirst tornJoin.table [6, 5, 4] ∧
      (empty.afterAll forkAndJoin).isEmpty = false ∧
      ((empty.afterAll forkAndJoin).linear 9).map (·.id) = [6, 5, 3, 2, 1] ∧
      ∃ start, ((empty.afterAll forkAndJoin).linear (empty.afterAll forkAndJoin).size).getLast? =
        some start ∧ start.kind = .flowStart := by
  have back : tornJoin.PointsBack := by decide
  have some : (empty.afterAll forkAndJoin).isEmpty = false := by decide
  obtain ⟨views, comesBack⟩ := linear_isPrefix_depthFirst
  obtain ⟨-, -, -, starts⟩ := views tornJoin [6, 5, 4] back
  obtain ⟨start, last, kind, -⟩ := comesBack forkAndJoin some
  exact ⟨back, by decide, starts, some, by decide, start, last, kind⟩

end Graph
end DurableRuns
