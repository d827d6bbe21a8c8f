/-
# DurableRuns.Proofs.Flow.Numbering -- all numberings agree as long as there are numbers

What a graph takes does not depend on how the numbers go on; what it gives out next does.  As long
as each number that occurs has one of 64 bits after it, every numbering makes the same graphs, be it
from stored nodes (`Graph.ofParts_agrees`) or by calls (`Graph.afterAll_agrees`), and the same plans
(`RepairPlan.make_agrees`), and applies them alike (`RepairPlan.applyNodes_agrees`).  So what is
proved where the arithmetic is checked holds of every numbering there.

`Graph.IsCounted` says that a program comes as far as a graph, and `Graph.IsPlannable` that it comes
to the plans that close it: where the arithmetic wraps around, it always does.
-/
import DurableRuns.Proofs.Flow.Remnant

namespace DurableRuns

set_option autoImplicit false

/-! ## Graphs -/

namespace Graph

/-- The program goes on after each number below the one that a graph gives out next. -/
def IsCounted [Numbering] (graph : Graph) : Prop := ∀ id < graph.nextId, Numbering.HasNext id

/-- The program goes on after each number that a plan to close a graph gives out before its last
one. -/
def IsPlannable [Numbering] (graph : Graph) : Prop :=
  ∀ reason, ∀ node ∈ (RepairPlan.make graph reason).nodes.dropLast, Numbering.HasNext node.id

theorem isCounted_wrapping (graph : Graph) : @IsCounted .wrapping graph := fun _ _ => trivial

theorem isPlannable_wrapping (graph : Graph) : @IsPlannable .wrapping graph :=
  fun _ _ _ => trivial

theorem isCounted_of_lt [Numbering] {graph : Graph} (room : graph.nextId < UInt64.size) :
    graph.IsCounted := fun _ below => Numbering.hasNext (Nat.lt_of_le_of_lt below room)

/-- Where the arithmetic is checked, there is a next number. -/
theorem isCounted_checked_iff (graph : Graph) : graph.IsCounted ↔ graph.nextId < UInt64.size := by
  refine ⟨fun counted => ?_, isCounted_of_lt⟩
  rcases Nat.eq_zero_or_pos graph.nextId with none | some
  · exact none ▸ by decide
  · have last : graph.nextId - 1 + 1 < UInt64.size := counted _ (Nat.sub_lt some Nat.one_pos)
    omega

instance (graph : Graph) : Decidable graph.IsCounted :=
  decidable_of_iff _ graph.isCounted_checked_iff.symm

/-- A graph has at most as many nodes as numbers were given out. -/
theorem IsUsable.size_le_nextId {graph : Graph} (usable : graph.IsUsable) :
    graph.size ≤ graph.nextId := by
  have below : graph.nodes.map (·.id) ⊆ List.range graph.nextId := by
    intro id inside
    obtain ⟨node, stored, rfl⟩ := List.mem_map.1 inside
    exact List.mem_range.2
      (usable.below node.id (contains_of_get? ((graph.mem_nodes_iff node).1 stored)))
  have nodup : (graph.nodes.map (·.id)).Nodup :=
    (List.pairwise_map.2 graph.table.ascending).imp Nat.ne_of_lt
  have few := (List.subperm_of_subset nodup below).length_le
  rwa [List.length_map, List.length_range] at few

/-- The number of each node has another one of 64 bits after it. -/
def HasRoom (graph : Graph) : Prop := ∀ node ∈ graph.nodes, node.id + 1 < UInt64.size

instance (graph : Graph) : Decidable graph.HasRoom :=
  inferInstanceAs (Decidable (∀ node ∈ graph.nodes, node.id + 1 < UInt64.size))

theorem hasRoom_iff {graph : Graph} :
    graph.HasRoom ↔ ∀ id, graph.contains id = true → id + 1 < UInt64.size := by
  constructor
  · intro room id there
    obtain ⟨node, stored⟩ := (graph.contains_iff id).1 there
    obtain rfl := NodeTable.get?_id stored
    exact room node ((graph.mem_nodes_iff node).2 stored)
  · exact fun room node inside =>
      room node.id (contains_of_get? ((graph.mem_nodes_iff node).1 inside))

/-- To note the end of a block takes no node away, and adds none. -/
theorem contains_closedTable (graph : Graph) (kind : NodeKind) (id : Nat) :
    (graph.closedTable kind).contains id = graph.contains id := by
  rw [closedTable]
  cases kind.closes with
  | none => rfl
  | some start =>
      rw [NodeTable.contains, get?_attachIn]
      split
      next same =>
        rw [same, Option.isSome_map]
        rfl
      next => rfl

variable [Numbering] {graph grown : Graph} {kind : NodeKind} {parents : List Nat} {name : String}
  {node : Node}

theorem hasRoom_ofParts {nodes : List Node} (room : ∀ node ∈ nodes, node.id + 1 < UInt64.size)
    (heads : List Nat) : (ofParts nodes heads).HasRoom := by
  refine hasRoom_iff.2 fun id there => ?_
  obtain ⟨node, inside, rfl⟩ := (NodeTable.contains_ofList nodes id).1 there
  exact room node inside

/-- Stored nodes and heads make the same graph. -/
theorem ofParts_agrees {nodes : List Node} {heads : List Nat}
    (room : ∀ node ∈ nodes, node.id + 1 < UInt64.size)
    (headRoom : ∀ head ∈ heads, head + 1 < UInt64.size) :
    ofParts nodes heads = @ofParts Numbering.checked nodes heads := by
  have same : ((NodeTable.ofList nodes).maxId?.toList ++ heads).max?.map Numbering.next =
      ((NodeTable.ofList nodes).maxId?.toList ++ heads).max?.map Numbering.checked.next := by
    refine Option.map_congr fun top highest => Numbering.next_eq ?_
    rcases List.mem_append.1 (List.max?_mem highest) with stored | head
    · rcases (NodeTable.ofList nodes).maxId?_spec with ⟨-, none⟩ | ⟨last, found, there, -⟩
      · rw [none] at stored
        cases stored
      · rw [found, Option.toList_some, List.mem_singleton] at stored
        obtain ⟨node, inside, rfl⟩ := (NodeTable.contains_ofList nodes last).1 there
        exact stored ▸ room node inside
    · exact headRoom top head
  unfold ofParts
  simp only [same]

/-- A node is appended alike, or refused. -/
theorem append_agrees
    (room : graph.checkGrowth kind parents = .ok () → graph.nextId + 1 < UInt64.size) :
    graph.append kind parents name = @append Numbering.checked graph kind parents name := by
  rw [append_eq, @append_eq Numbering.checked]
  cases admits : graph.checkGrowth kind parents with
  | error fault => rfl
  | ok =>
      rw [Numbering.next_eq (room admits)]
      rfl

/-- A node that is appended was admitted and has the next number, and it is there then beside those
that were there. -/
theorem admitted_of_append (ok : graph.append kind parents name = .ok (grown, node)) :
    graph.checkGrowth kind parents = .ok () ∧ node = graph.newNode kind parents name ∧
      ∀ id, grown.contains id = true ↔ id = node.id ∨ graph.contains id = true := by
  rw [append_eq] at ok
  cases admits : graph.checkGrowth kind parents with
  | error fault =>
      rw [admits] at ok
      cases ok
  | ok =>
      rw [admits] at ok
      cases ok
      refine ⟨rfl, rfl, fun id => ?_⟩
      rw [contains, NodeTable.contains, NodeTable.get?_insert, ← contains_closedTable graph kind]
      split
      next new => simp [new]
      next old => exact (or_iff_right old).symm

end Graph

/-! ## Calls -/

namespace GraphCall

variable [Numbering] {graph : Graph} {call : GraphCall}

/-- No call takes a node away. -/
theorem contains_after {id : Nat} (there : graph.contains id = true) :
    (call.after graph).contains id = true := by
  cases answer : call.perform graph with
  | error fault => rwa [after_of_error answer]
  | ok made =>
      obtain ⟨grown, node⟩ := made
      rw [after_of_ok answer]
      cases call with
      | append kind parents name => exact ((Graph.admitted_of_append answer).2.2 id).2 (.inr there)
      | attach other action => exact (Graph.attach_growsTo answer).contains there

/-- A call comes to the same if each node that is there after it has a number with another one after
it. -/
theorem after_agrees (room : (call.after graph).HasRoom) :
    call.after graph = @after Numbering.checked graph call ∧
      call.appended graph = @appended Numbering.checked graph call := by
  cases call with
  | attach id action => exact ⟨rfl, rfl⟩
  | append kind parents name =>
      have same : graph.append kind parents name =
          @Graph.append Numbering.checked graph kind parents name := by
        refine Graph.append_agrees fun admits => ?_
        cases answer : graph.append kind parents name with
        | error fault =>
            rw [Graph.append_eq, admits] at answer
            cases answer
        | ok made =>
            obtain ⟨grown, node⟩ := made
            obtain ⟨-, rfl, members⟩ := Graph.admitted_of_append answer
            have whole : (append kind parents name).after graph = grown := after_of_ok answer
            exact Graph.hasRoom_iff.1 room _ (whole ▸ (members _).2 (.inl rfl))
      constructor
      · have performed : (append kind parents name).perform graph =
            @perform Numbering.checked graph (append kind parents name) := same
        rw [after, @after.eq_def Numbering.checked, step_eq, @step_eq Numbering.checked, performed]
      · simp only [appended, same]

end GraphCall

namespace Graph

variable [Numbering]

theorem contains_afterAll {graph : Graph} {id : Nat} (there : graph.contains id = true)
    (calls : List GraphCall) : (graph.afterAll calls).contains id = true := by
  induction calls generalizing graph with
  | nil => exact there
  | cons call rest ih => exact ih (GraphCall.contains_after there)

theorem HasRoom.of_afterAll {graph : Graph} {calls : List GraphCall}
    (room : (graph.afterAll calls).HasRoom) : graph.HasRoom :=
  hasRoom_iff.2 fun id there => hasRoom_iff.1 room id (contains_afterAll there calls)

/-- Calls come to the same if each node that is there after them has a number with another one after
it. -/
theorem afterAll_agrees {graph : Graph} {calls : List GraphCall}
    (room : (graph.afterAll calls).HasRoom) :
    graph.afterAll calls = @afterAll Numbering.checked graph calls ∧
      graph.appendedBy calls = @appendedBy Numbering.checked graph calls := by
  induction calls generalizing graph with
  | nil => exact ⟨rfl, rfl⟩
  | cons call rest ih =>
      have between : (call.after graph).HasRoom := HasRoom.of_afterAll room
      obtain ⟨after, appended⟩ := call.after_agrees between
      obtain ⟨all, others⟩ := ih room
      refine ⟨all.trans (congrArg (@afterAll Numbering.checked · rest) after), ?_⟩
      rw [appendedBy, @appendedBy.eq_2 Numbering.checked, others, appended, after]

end Graph

/-! ## Plans -/

namespace RepairPlan

/-- The ends of blocks are numbered one after the other. -/
theorem map_id_blockEnds_eq (graph : Graph) (reason : String) (starts : List Nat) (next : Nat)
    (parents : List Nat) :
    (blockEnds graph reason starts next parents).1.map (·.id) = List.range' next starts.length ∧
      (blockEnds graph reason starts next parents).2.1 = next + starts.length := by
  induction starts generalizing next parents with
  | nil => exact ⟨rfl, rfl⟩
  | cons start rest ih =>
      obtain ⟨ids, last⟩ := ih (next + 1) [next]
      refine ⟨congrArg (next :: ·) ids, last.trans ?_⟩
      rw [List.length_cons]
      omega

/-- The numbers of a plan are few. -/
theorem id_le_of_planned {graph : Graph} {reason : String} {node : Node}
    (inside : node ∈ (make graph reason).nodes) : node.id ≤ graph.nextId + graph.size + 1 := by
  cases ended : graph.endNode? with
  | some last =>
      rw [make_of_ended ended] at inside
      cases inside
  | none =>
      cases stored : graph.isEmpty with
      | true =>
          rw [make_of_isEmpty stored] at inside
          simp only [List.mem_cons, List.not_mem_nil, or_false] at inside
          rcases inside with rfl | rfl
          · show graph.nextId ≤ _
            omega
          · show graph.nextId + 1 ≤ _
            omega
      | false =>
          rw [make_of_stored stored ended] at inside
          obtain ⟨ids, last⟩ := map_id_blockEnds_eq graph reason
            (graph.openBlocks graph.usableHeads) graph.nextId graph.usableHeads
          have few : (graph.openBlocks graph.usableHeads).length ≤ graph.size :=
            graph.length_openBlocks_le graph.usableHeads
          rcases List.mem_append.1 inside with closing | flowEnd
          · have number := List.mem_map_of_mem (f := (·.id)) closing
            rw [ids, List.mem_range'_1] at number
            omega
          · obtain rfl := List.mem_singleton.1 flowEnd
            show (blockEnds ..).2.1 ≤ _
            omega

variable [Numbering] {graph : Graph} {reason : String}

theorem blockEnds_agrees (starts : List Nat) (next : Nat) (parents : List Nat)
    (room : ∀ node ∈ (blockEnds graph reason starts next parents).1, node.id + 1 < UInt64.size) :
    blockEnds graph reason starts next parents =
      @blockEnds Numbering.checked graph reason starts next parents := by
  induction starts generalizing next parents with
  | nil => rfl
  | cons start rest ih =>
      rw [blockEnds] at room
      obtain ⟨here, others⟩ := List.forall_mem_cons.1 room
      rw [blockEnds, @blockEnds.eq_2 Numbering.checked, ih _ _ others, Numbering.next_eq here]
      rfl

/-- The same nodes are planned: the last one needs no number after its own. -/
theorem make_agrees
    (room : ∀ node ∈ (make graph reason).nodes.dropLast, node.id + 1 < UInt64.size) :
    make graph reason = @make Numbering.checked graph reason := by
  by_cases ended : graph.endNode?.isSome = true
  · rw [make, @make.eq_def Numbering.checked, if_pos ended, if_pos ended]
  · rw [make, if_neg ended] at room
    simp only [List.dropLast_concat, List.forall_mem_append] at room
    obtain ⟨start, ends⟩ := room
    have next : (if graph.isEmpty then Numbering.next graph.nextId else graph.nextId) =
        if graph.isEmpty then Numbering.checked.next graph.nextId else graph.nextId := by
      split
      next none => exact Numbering.next_eq (by simpa [none] using start)
      next => rfl
    have same := blockEnds_agrees _ _ _ ends
    rw [next] at same
    rw [make, @make.eq_def Numbering.checked, if_neg ended, if_neg ended]
    simp only [next, same]

/-- The numbers of the ends of blocks do not depend on the reason. -/
theorem map_id_blockEnds (graph : Graph) (reason other : String) (starts : List Nat) (next : Nat)
    (parents : List Nat) :
    (blockEnds graph other starts next parents).1.map (·.id) =
        (blockEnds graph reason starts next parents).1.map (·.id) ∧
      (blockEnds graph other starts next parents).2 =
        (blockEnds graph reason starts next parents).2 := by
  induction starts generalizing next parents with
  | nil => exact ⟨rfl, rfl⟩
  | cons start rest ih =>
      obtain ⟨ids, last⟩ := ih (Numbering.next next) [next]
      simp only [blockEnds, List.map_cons, ids, last, and_self]

/-- The numbers of a plan do not depend on the reason. -/
theorem map_id_make (graph : Graph) (reason other : String) :
    (make graph other).nodes.map (·.id) = (make graph reason).nodes.map (·.id) := by
  by_cases ended : graph.endNode?.isSome = true
  · rw [make, make, if_pos ended, if_pos ended]
  · rw [make, make, if_neg ended, if_neg ended]
    simp only [List.map_append, map_id_blockEnds graph reason other, List.map_cons]

variable {planned stored : List Node} {done : Graph}

/-- Planned nodes are applied alike where they apply in full. -/
theorem applyNodes_agrees (room : ∀ node ∈ planned, node.id + 1 < UInt64.size)
    (applied : @applyNodes Numbering.checked planned graph = (done, .ok stored)) :
    applyNodes planned graph = (done, .ok stored) := by
  induction planned generalizing graph stored with
  | nil => exact applied
  | cons first rest ih =>
      obtain ⟨here, others⟩ := List.forall_mem_cons.1 room
      obtain ⟨between, node, later, ok, number, goesOn, rfl⟩ :=
        (@applyNodes_cons_eq_ok Numbering.checked ..).1 applied
      obtain ⟨-, rfl, -⟩ := @Graph.admitted_of_append Numbering.checked _ _ _ _ _ _ ok
      have foreseen : graph.nextId = first.id := number
      have same : graph.append first.kind first.parents first.name = .ok (between, _) :=
        (Graph.append_agrees fun _ => foreseen ▸ here).trans ok
      exact applyNodes_cons_eq_ok.2 ⟨between, _, later, same, number, ih others goesOn, rfl⟩

/-- Where planned nodes with room are applied to a graph with room, the graph has room. -/
theorem hasRoom_of_applied (room : ∀ node ∈ planned, node.id + 1 < UInt64.size)
    (before : graph.HasRoom) (applied : applyNodes planned graph = (done, .ok stored)) :
    done.HasRoom := by
  induction planned generalizing graph stored with
  | nil =>
      cases applied
      exact before
  | cons first rest ih =>
      obtain ⟨here, others⟩ := List.forall_mem_cons.1 room
      obtain ⟨between, node, later, ok, number, goesOn, -⟩ := applyNodes_cons_eq_ok.1 applied
      obtain ⟨-, -, members⟩ := Graph.admitted_of_append ok
      have new : between.contains node.id = true := (members node.id).2 (.inl rfl)
      obtain ⟨appended, found⟩ := (between.contains_iff node.id).1 new
      refine ih others (Graph.hasRoom_iff.2 fun id there => ?_) goesOn
      rw [(Graph.attachAll_attached found first.actions).contains_iff new] at there
      rcases (members id).1 there with rfl | old
      · exact number ▸ here
      · exact Graph.hasRoom_iff.1 before id old

end RepairPlan

namespace Graph

/-- Whether a program comes to a plan does not depend on the reason. -/
theorem isPlannable_iff [Numbering] (graph : Graph) (reason : String) : graph.IsPlannable ↔
    ∀ node ∈ (RepairPlan.make graph reason).nodes.dropLast, Numbering.HasNext node.id := by
  constructor
  · exact fun plannable => plannable reason
  · intro counted other node inside
    have number : node.id ∈ ((RepairPlan.make graph reason).nodes.dropLast).map (·.id) := by
      rw [List.map_dropLast, ← RepairPlan.map_id_make graph reason other, ← List.map_dropLast]
      exact List.mem_map_of_mem inside
    obtain ⟨twin, among, same⟩ := List.mem_map.1 number
    exact same ▸ counted twin among

instance (graph : Graph) : Decidable graph.IsPlannable :=
  decidable_of_iff (∀ node ∈ (RepairPlan.make graph "").nodes.dropLast, node.id + 1 < UInt64.size)
    (graph.isPlannable_iff "").symm

theorem isPlannable_of_lt {graph : Graph} (room : graph.nextId + graph.size + 2 < UInt64.size) :
    graph.IsPlannable := by
  intro reason node inside
  have low := RepairPlan.id_le_of_planned (List.dropLast_subset _ inside)
  show node.id + 1 < UInt64.size
  omega

end Graph
end DurableRuns
