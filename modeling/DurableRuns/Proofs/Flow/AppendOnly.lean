/-
# DurableRuns.Proofs.Flow.AppendOnly -- graphs that are made by appending

What follows for an intact graph: its nodes are numbered in the order in which they were
appended (`IsIntact.ids_eq`), its heads lead to every node (`IsIntact.reachable_perm`), and it
is made again from its nodes in any order (`IsIntact.ofParts_perm`).

A graph grows by calls (`GraphCall`), each accepted or rejected.  One call keeps a graph intact
(`GraphCall.after_isIntact`), so every graph that calls make from the empty one is intact;
`Graph.isIntact_afterAll` states all that holds of it.

To apply a plan is to make calls too (`RepairPlan.exists_calls_applyNodes`).
-/
import DurableRuns.Proofs.Flow.Childless
import Mathlib.Data.List.Forall2

namespace DurableRuns

set_option autoImplicit false

namespace Graph.IsIntact

variable {graph : Graph}

theorem pointsBack (intact : graph.IsIntact) : graph.PointsBack :=
  fun node inside _ parent => intact.parent_lt ((graph.mem_nodes_iff node).1 inside) parent

/-- The heads of an intact graph are the nodes that none follows, and lead to every node. -/
theorem reaches (intact : graph.IsIntact) {id : Nat} (there : graph.contains id = true) :
    Scan.Reaches graph.table graph.heads id :=
  reaches_of_childless intact.pointsBack
    (fun other stands free => (intact.mem_heads_iff other).2 ⟨stands, free⟩) there

/-- A depth-first scan of an intact graph visits every node once. -/
theorem reachable_perm (intact : graph.IsIntact) : graph.reachable.Perm graph.nodes :=
  depthFirst_perm fun _ => intact.reaches

/-- The numbers of an intact graph in ascending order. -/
theorem ids_eq (intact : graph.IsIntact) :
    graph.nodes.map (·.id) = List.range' firstId (graph.nextId - firstId) := by
  have ascending : (graph.nodes.map (·.id)).Pairwise (· < ·) :=
    List.pairwise_map.2 graph.table.ascending
  have members : (graph.nodes.map (·.id)).Perm (List.range' firstId (graph.nextId - firstId)) := by
    rw [List.perm_ext_iff_of_nodup (ascending.imp Nat.ne_of_lt) (List.nodup_range' ..)]
    intro id
    have low := intact.firstId_le
    rw [List.mem_range'_1, show firstId + (graph.nextId - firstId) = graph.nextId by omega,
      ← intact.contains_iff, graph.contains_iff, List.mem_map]
    constructor
    · rintro ⟨node, inside, rfl⟩
      exact ⟨node, (NodeTable.mem_nodes_iff _ _).1 inside⟩
    · rintro ⟨node, stored⟩
      obtain rfl := NodeTable.get?_id stored
      exact ⟨node, (NodeTable.mem_nodes_iff _ _).2 stored, rfl⟩
  refine members.eq_of_pairwise ?_ ascending (List.pairwise_lt_range' ..)
  intro first second _ _ lower higher
  omega

theorem nextId_eq (intact : graph.IsIntact) : graph.nextId = firstId + graph.size := by
  have length := congrArg List.length intact.ids_eq
  rw [List.length_map, List.length_range'] at length
  have low := intact.firstId_le
  have same : graph.size = graph.nextId - firstId := length
  omega

/-- An intact graph is made again from its nodes, in any order, and its heads. -/
theorem ofParts_perm (intact : graph.IsIntact) {nodes : List Node}
    (perm : nodes.Perm graph.nodes) : ofParts nodes graph.heads = graph := by
  have table : NodeTable.ofList nodes = NodeTable.ofList graph.nodes :=
    (NodeTable.ofList_eq fun node => perm.mem_iff.trans (graph.table.mem_nodes_iff node)).trans
      graph.table.ofList_nodes.symm
  have same : ofParts nodes graph.heads = ofParts graph.nodes graph.heads := by
    rw [ofParts, ofParts, table]
  rw [same]
  rcases intact.isGrown with well | rfl
  · exact well.ofParts_eq
  · rfl

end Graph.IsIntact

/-! ## Calls -/

/-- A call that lets a graph grow. -/
inductive GraphCall where
  | append (kind : NodeKind) (parents : List Nat) (name : String)
  | attach (id : Nat) (action : Action)

namespace GraphCall

/-- The step that is called for. -/
def step [Numbering] : GraphCall → GraphM Node
  | append kind parents name => GraphM.append kind parents name
  | attach id action => GraphM.attach id action

/-- What the call answers: the graph it makes with the node, or the fault for which it is
rejected. -/
def perform [Numbering] (graph : Graph) (call : GraphCall) : Except GraphFault (Graph × Node) :=
  GraphM.on graph call.step

/-- The graph that the call leaves, rejected or not. -/
def after [Numbering] (graph : Graph) (call : GraphCall) : Graph :=
  match call.step graph with
  | .ok _ graph => graph
  | .error _ graph => graph

/-- The node that the call appends, if it is accepted. -/
def appended [Numbering] (graph : Graph) (call : GraphCall) : List Node :=
  match call with
  | append kind parents name =>
      match graph.append kind parents name with
      | .ok (_, node) => [node]
      | .error _ => []
  | attach _ _ => []

/-- The call does not note a block end. -/
def IsPlain : GraphCall → Prop
  | append _ _ _ => True
  | attach _ action => action.kind ≠ .blockEnd

instance : (call : GraphCall) → Decidable call.IsPlain
  | append _ _ _ => inferInstanceAs (Decidable True)
  | attach _ action => inferInstanceAs (Decidable (action.kind ≠ .blockEnd))

variable {graph grown : Graph} {call : GraphCall} {node : Node} {fault : GraphFault}

/-- A call that is rejected leaves the graph as it was. -/
theorem step_eq [Numbering] (graph : Graph) (call : GraphCall) :
    call.step graph =
      match call.perform graph with
      | .ok (grown, node) => .ok node grown
      | .error fault => .error fault graph := by
  cases call with
  | append kind parents name => exact Graph.append_step graph kind parents name
  | attach id action => exact Graph.attach_step graph id action

theorem after_of_ok [Numbering] (ok : call.perform graph = .ok (grown, node)) :
    call.after graph = grown := by
  simp only [after, step_eq, ok]

theorem after_of_error [Numbering] (rejected : call.perform graph = .error fault) :
    call.after graph = graph := by
  simp only [after, step_eq, rejected]

/-- Whatever a call attaches or appends, it takes nothing from the graph, and numbers still go on
above all that are stored. -/
theorem after_of_below (below : ∀ id, graph.contains id = true → id < graph.nextId)
    (call : GraphCall) :
    graph.GrowsTo (call.after graph) ∧
      ∀ id, (call.after graph).contains id = true → id < (call.after graph).nextId := by
  cases answer : call.perform graph with
  | error fault =>
      rw [after_of_error answer]
      exact ⟨.refl graph, below⟩
  | ok made =>
      obtain ⟨grown, node⟩ := made
      rw [after_of_ok answer]
      cases call with
      | append kind parents name =>
          have extended := (Graph.append_extends_of_below below answer).1
          exact ⟨extended.growsTo below, extended.lt_nextId below⟩
      | attach id action =>
          obtain ⟨old, stored, -⟩ := Graph.attach_eq_ok.1 answer
          exact ⟨Graph.attach_growsTo answer,
            (Graph.attach_attached answer).lt_nextId (Graph.contains_of_get? stored) below⟩

/-- No call takes anything from an intact graph. -/
theorem growsTo_after (intact : graph.IsIntact) (call : GraphCall) :
    graph.GrowsTo (call.after graph) :=
  (call.after_of_below intact.below).1

theorem after_isIntact (intact : graph.IsIntact) (plain : call.IsPlain) :
    (call.after graph).IsIntact := by
  cases answer : call.perform graph with
  | error fault =>
      rw [after_of_error answer]
      exact intact
  | ok made =>
      obtain ⟨grown, node⟩ := made
      rw [after_of_ok answer]
      cases call with
      | append kind parents name => exact (intact.append answer).1
      | attach id action => exact intact.attached plain answer

/-- The appended node has the next number, and a call that appends none gives none out. -/
theorem appended_spec (below : ∀ id, graph.contains id = true → id < graph.nextId)
    (call : GraphCall) :
    (call.after graph).nextId = graph.nextId + (call.appended graph).length ∧
      (call.appended graph).map (·.id) =
        List.range' graph.nextId (call.appended graph).length ∧
      ∀ node ∈ call.appended graph, (call.after graph).get? node.id = some node := by
  cases call with
  | append kind parents name =>
      cases answer : graph.append kind parents name with
      | error fault =>
          have same : (append kind parents name).after graph = graph := after_of_error answer
          simp [same, appended, answer]
      | ok made =>
          obtain ⟨grown, node⟩ := made
          have same : (append kind parents name).after graph = grown := after_of_ok answer
          have extended := (Graph.append_extends_of_below below answer).1
          simp [same, appended, answer, extended.id_eq, extended.nextId_eq,
            extended.id_eq ▸ extended.stored]
  | attach id action =>
      refine ⟨?_, rfl, fun node none => by cases none⟩
      cases answer : graph.attach id action with
      | error fault =>
          have same : (attach id action).after graph = graph := after_of_error answer
          exact congrArg Graph.nextId same
      | ok made =>
          obtain ⟨grown, node⟩ := made
          have same : (attach id action).after graph = grown := after_of_ok answer
          rw [same]
          exact (Graph.attach_attached answer).nextId_eq

end GraphCall

namespace Graph

open GraphCall

/-- The graph after several calls. -/
def afterAll [Numbering] (graph : Graph) (calls : List GraphCall) : Graph := calls.foldl after graph

/-- The nodes that calls append, in order. -/
def appendedBy [Numbering] (graph : Graph) : List GraphCall → List Node
  | [] => []
  | call :: rest => call.appended graph ++ appendedBy (call.after graph) rest

variable {graph : Graph}

theorem IsIntact.afterAll (intact : graph.IsIntact) {calls : List GraphCall}
    (plain : ∀ call ∈ calls, call.IsPlain) : (graph.afterAll calls).IsIntact := by
  induction calls generalizing graph with
  | nil => exact intact
  | cons call rest ih =>
      obtain ⟨first, others⟩ := List.forall_mem_cons.1 plain
      exact ih (after_isIntact intact first) others

theorem afterAll_append [Numbering] (graph : Graph) (calls more : List GraphCall) :
    graph.afterAll (calls ++ more) = (graph.afterAll calls).afterAll more :=
  List.foldl_append

/-- The nodes that calls append are numbered one after the other, and each of them stays. -/
theorem appendedBy_spec (below : ∀ id, graph.contains id = true → id < graph.nextId)
    (calls : List GraphCall) :
    graph.GrowsTo (graph.afterAll calls) ∧
      (graph.afterAll calls).nextId = graph.nextId + (graph.appendedBy calls).length ∧
      (graph.appendedBy calls).map (·.id) =
        List.range' graph.nextId (graph.appendedBy calls).length ∧
      ∀ node ∈ graph.appendedBy calls,
        ∃ later, (graph.afterAll calls).get? node.id = some later ∧ node.Stays later := by
  induction calls generalizing graph with
  | nil => exact ⟨.refl graph, rfl, rfl, fun node none => by cases none⟩
  | cons call rest ih =>
      obtain ⟨next, ids, stored⟩ := call.appended_spec below
      obtain ⟨growsFirst, belowFirst⟩ := call.after_of_below below
      obtain ⟨grows, last, idsLater, stays⟩ := ih belowFirst
      refine ⟨growsFirst.trans grows, ?_, ?_, ?_⟩
      · rw [appendedBy, List.length_append, ← Nat.add_assoc, ← next]
        exact last
      · rw [appendedBy, List.map_append, ids, idsLater, next, List.length_append,
          List.range'_append_1]
      · intro node inside
        rcases List.mem_append.1 inside with now | later
        · exact grows _ node (stored node now)
        · exact stays node later

/-- The nodes of a graph that calls made are those that were appended, in that order. -/
theorem appendedBy_forall₂ {calls : List GraphCall} (plain : ∀ call ∈ calls, call.IsPlain) :
    List.Forall₂ Node.Stays (empty.appendedBy calls) (empty.afterAll calls).nodes := by
  have intact := IsIntact.empty.afterAll plain
  obtain ⟨-, next, ids, stays⟩ := appendedBy_spec IsIntact.empty.below calls
  have same : (empty.appendedBy calls).map (·.id) = (empty.afterAll calls).nodes.map (·.id) := by
    have number : empty.nextId = firstId := rfl
    rw [ids, intact.ids_eq, next, number, Nat.add_sub_cancel_left]
  have lengths := congrArg List.length same
  rw [List.length_map, List.length_map] at lengths
  refine List.forall₂_iff_get.2 ⟨lengths, fun i left right => ?_⟩
  obtain ⟨later, found, staysHere⟩ := stays _ (List.get_mem (empty.appendedBy calls) ⟨i, left⟩)
  have stored := ((empty.afterAll calls).table.mem_nodes_iff _).1
    (List.get_mem (empty.afterAll calls).nodes ⟨i, right⟩)
  have number : ((empty.appendedBy calls).get ⟨i, left⟩).id =
      ((empty.afterAll calls).nodes.get ⟨i, right⟩).id := by
    have here := congrArg (·[i]?) same
    simpa [left, right] using here
  rw [number] at found
  exact Option.some.inj (stored.symm.trans found) ▸ staysHere

end Graph

/-! ### Planned nodes -/

namespace RepairPlan

open DurableRuns.Graph GraphCall

theorem exists_calls_attachAll [Numbering] (graph : Graph) (id : Nat) (actions : List Action) :
    ∃ calls, graph.afterAll calls = attachAll graph id actions ∧
      ∀ call ∈ calls, ∃ action ∈ actions, call = .attach id action := by
  induction actions generalizing graph with
  | nil => exact ⟨[], rfl, by simp⟩
  | cons action rest ih =>
      rw [attachAll_cons]
      cases answer : graph.attach id action with
      | error fault => exact ⟨[], rfl, by simp⟩
      | ok changed =>
          obtain ⟨calls, same, attached⟩ := ih changed.1
          have here : (GraphCall.attach id action).after graph = changed.1 := after_of_ok answer
          refine ⟨.attach id action :: calls, ?_, ?_⟩
          · show ((GraphCall.attach id action).after graph).afterAll calls = _
            rw [here, same]
          · refine List.forall_mem_cons.2 ⟨⟨action, List.mem_cons_self, rfl⟩, fun call inside => ?_⟩
            obtain ⟨other, later, is⟩ := attached call inside
            exact ⟨other, List.mem_cons_of_mem _ later, is⟩

/-- To append planned nodes, however far this comes, is to call for appends and for the actions that
are planned. -/
theorem exists_calls_applyNodes [Numbering] (planned : List Node) (graph : Graph) :
    ∃ calls, graph.afterAll calls = (applyNodes planned graph).1 ∧
      ∀ id action, GraphCall.attach id action ∈ calls → ∃ node ∈ planned, action ∈ node.actions := by
  induction planned generalizing graph with
  | nil => exact ⟨[], rfl, by simp⟩
  | cons first rest ih =>
      rw [fst_applyNodes_cons]
      cases answer : graph.append first.kind first.parents first.name with
      | error fault => exact ⟨[], rfl, by simp⟩
      | ok grown =>
          obtain ⟨between, node⟩ := grown
          let call : GraphCall := .append first.kind first.parents first.name
          have here : call.after graph = between := after_of_ok answer
          dsimp only
          split
          · obtain ⟨attaches, attached, theirs⟩ :=
              exists_calls_attachAll between node.id first.actions
            obtain ⟨calls, same, planned⟩ := ih (attachAll between node.id first.actions)
            refine ⟨call :: (attaches ++ calls), ?_, fun id action inside => ?_⟩
            · show (call.after graph).afterAll (attaches ++ calls) = _
              rw [here, afterAll_append, attached, same]
            · rcases List.mem_append.1 ((List.mem_cons.1 inside).resolve_left (by simp [call]))
                with now | later
              · obtain ⟨other, among, is⟩ := theirs _ now
                cases is
                exact ⟨first, List.mem_cons_self, among⟩
              · obtain ⟨other, among, has⟩ := planned id action later
                exact ⟨other, List.mem_cons_of_mem _ among, has⟩
          · exact ⟨[call], here, by simp [call]⟩

end RepairPlan

namespace Graph

open GraphCall

variable {graph : Graph}

theorem IsIntact.attachAll (intact : graph.IsIntact) (id : Nat) {actions : List Action}
    (plain : ∀ action ∈ actions, action.kind ≠ .blockEnd) :
    (RepairPlan.attachAll graph id actions).IsIntact := by
  obtain ⟨calls, same, attached⟩ := RepairPlan.exists_calls_attachAll graph id actions
  refine same ▸ intact.afterAll fun call inside => ?_
  obtain ⟨action, among, rfl⟩ := attached call inside
  exact plain action among

/-- Planned nodes that note no block end keep a graph intact, however far they are appended. -/
theorem IsIntact.applyNodes (intact : graph.IsIntact) {planned : List Node}
    (plain : ∀ node ∈ planned, ∀ action ∈ node.actions, action.kind ≠ .blockEnd)
    {after : Graph} {applied : Except GraphFault (List Node)}
    (done : RepairPlan.applyNodes planned graph = (after, applied)) : after.IsIntact := by
  obtain ⟨calls, same, attached⟩ := RepairPlan.exists_calls_applyNodes planned graph
  have calledPlain : ∀ call ∈ calls, call.IsPlain := by
    intro call inside
    cases call with
    | append kind parents name => trivial
    | attach id action =>
        obtain ⟨node, member, among⟩ := attached id action inside
        exact plain node member action among
  have kept := intact.afterAll calledPlain
  rwa [same, done] at kept

/-- Whatever is called on the empty graph, rejected calls included, as long as block ends are
noted by appends alone: the graph is intact and its nodes are those that were appended, numbered
from the first on without a gap; the flow end is the last node and followed by none; a start names
exactly the node that closes it; the heads lead to every node; the graph is made again from its
nodes and heads; and the next call, if it is rejected, changes nothing, else takes no node away and
changes no number, kind, name or parents. -/
theorem isIntact_afterAll (calls : List GraphCall) (plain : ∀ call ∈ calls, call.IsPlain) :
    (empty.afterAll calls).IsIntact ∧
      (empty.afterAll calls).nodes.map (·.id) =
        List.range' firstId (empty.afterAll calls).size ∧
      (empty.afterAll calls).nextId = firstId + (empty.afterAll calls).size ∧
      List.Forall₂ Node.Stays (empty.appendedBy calls) (empty.afterAll calls).nodes ∧
      (∀ id last, (empty.afterAll calls).get? id = some last → last.kind = .flowEnd →
        (∀ other, (empty.afterAll calls).contains other = true → other ≤ id) ∧
          ¬ (empty.afterAll calls).HasChild id) ∧
      (∀ id start, (empty.afterAll calls).get? id = some start → ∀ closing,
        start.blockEnd? = some closing ↔ (empty.afterAll calls).Closes closing id) ∧
      (empty.afterAll calls).reachable.Perm (empty.afterAll calls).nodes ∧
      (∀ nodes : List Node, nodes.Perm (empty.afterAll calls).nodes →
        ofParts nodes (empty.afterAll calls).heads = empty.afterAll calls) ∧
      ∀ call : GraphCall,
        (∀ fault, call.perform (empty.afterAll calls) = .error fault →
          call.after (empty.afterAll calls) = empty.afterAll calls) ∧
        ∀ grown node, call.perform (empty.afterAll calls) = .ok (grown, node) →
          call.after (empty.afterAll calls) = grown ∧ (empty.afterAll calls).GrowsTo grown := by
  have intact : (empty.afterAll calls).IsIntact := IsIntact.empty.afterAll plain
  have next := intact.nextId_eq
  have size : (empty.afterAll calls).nextId - firstId = (empty.afterAll calls).size := by omega
  refine ⟨intact, size ▸ intact.ids_eq, next, appendedBy_forall₂ plain, ?_, ?_,
    intact.reachable_perm, fun nodes perm => intact.ofParts_perm perm, fun call => ⟨?_, ?_⟩⟩
  · exact fun id last stored kind => intact.flowEnd stored kind
  · exact fun id start stored closing => intact.blockEnd?_eq_some_iff stored
  · exact fun fault rejected => after_of_error rejected
  · intro grown node accepted
    have grows := growsTo_after intact call
    rw [after_of_ok accepted] at grows
    exact ⟨after_of_ok accepted, grows⟩

/-- Two branches of a block, joined by its end; in between a second start is rejected. -/
def forkAndJoin : List GraphCall :=
  [.append .flowStart [] "start", .append (.stepStart true) [1] "parallel",
    .append .atom [2] "left", .append .atom [2] "right", .append .flowStart [] "again",
    .append (.stepEnd 2) [3, 4] "parallel", .attach 3 (.log "out"),
    .append .flowEnd [5] "end"]

theorem isIntact_forkAndJoin :
    (∀ call ∈ forkAndJoin, call.IsPlain) ∧ (empty.afterAll forkAndJoin).IsIntact ∧
      (empty.afterAll forkAndJoin).reachable.Perm (empty.afterAll forkAndJoin).nodes ∧
      (empty.afterAll forkAndJoin).heads = [6] := by
  obtain ⟨intact, -, -, -, -, -, visits, -⟩ := isIntact_afterAll forkAndJoin (by decide)
  exact ⟨by decide, intact, visits, by decide⟩

end Graph
end DurableRuns
