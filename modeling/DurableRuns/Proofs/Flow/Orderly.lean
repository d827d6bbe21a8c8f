/-
# DurableRuns.Proofs.Flow.Orderly -- what holds of a graph however much of it was lost

A well-formed graph has its heads.  The nodes and the heads that are found on a disk need not
make up such a graph: nodes may be missing, heads included.  What is left of a graph is still
*orderly*: every node has a higher number than its parents and a lower one than the next
node.  Growing keeps a graph orderly, whether or not it is well formed.

A graph is *regained* from a table and recorded heads (`regain`).  If the heads are all there,
what is regained from an orderly table is well formed, or there are no nodes at all
(`regain_isGrown`): without recorded heads the node of the highest number has no child, and
stands in for them.
-/
import DurableRuns.Proofs.Flow.RepairPlan

namespace DurableRuns

set_option autoImplicit false

/-! ## Orderly nodes -/

/-- A node has a number below a bound and above those of its parents.  It can be written as
long as the numbers below the bound have 64 bits. -/
structure Node.IsOrderly (node : Node) (bound : Nat) : Prop where
  id_lt : node.id < bound
  parents_lt : ∀ parent ∈ node.parents, parent < node.id
  storable : bound ≤ UInt64.size → node.Storable

/-- Every node of a table is orderly. -/
def NodeTable.IsOrderly (table : NodeTable) (bound : Nat) : Prop :=
  ∀ id node, table.get? id = some node → node.IsOrderly bound

/-- The nodes of a graph are orderly, and its heads are numbers that were given out, each once. -/
structure Graph.IsOrderly (graph : Graph) : Prop where
  heads_nodup : graph.heads.Nodup
  heads_lt : ∀ head ∈ graph.heads, head < graph.nextId
  nodes : graph.table.IsOrderly graph.nextId

theorem Node.IsOrderly.mono {node : Node} {bound higher : Nat} (orderly : node.IsOrderly bound)
    (le : bound ≤ higher) : node.IsOrderly higher :=
  ⟨Nat.lt_of_lt_of_le orderly.id_lt le, orderly.parents_lt, fun small =>
    orderly.storable (Nat.le_trans le small)⟩

/-- An action that can be written as long as the numbers below a bound can may be attached. -/
theorem Node.IsOrderly.attach {node : Node} {bound : Nat} {action : Action}
    (orderly : node.IsOrderly bound) (fits : bound ≤ UInt64.size → action.Storable) :
    (node.attach action).IsOrderly bound :=
  ⟨orderly.id_lt, orderly.parents_lt, fun small => (orderly.storable small).attach (fits small)⟩

namespace NodeTable.IsOrderly

variable {table : NodeTable} {bound higher : Nat}

theorem empty (bound : Nat) : NodeTable.empty.IsOrderly bound := by
  intro id node none
  cases none

theorem mono (orderly : table.IsOrderly bound) (le : bound ≤ higher) : table.IsOrderly higher :=
  fun id node stored => (orderly id node stored).mono le

theorem insert (orderly : table.IsOrderly bound) {node : Node} (new : node.IsOrderly bound) :
    (table.insert node).IsOrderly bound := by
  intro id found stored
  rw [NodeTable.get?_insert] at stored
  split at stored
  · exact Option.some.inj stored ▸ new
  · exact orderly id found stored

theorem id_lt (orderly : table.IsOrderly bound) {id : Nat} (there : table.contains id = true) :
    id < bound := by
  obtain ⟨node, stored⟩ := (table.contains_iff id).1 there
  exact NodeTable.get?_id stored ▸ (orderly id node stored).id_lt

theorem attachIn (orderly : table.IsOrderly bound) {action : Action}
    (fits : bound ≤ UInt64.size → action.Storable) (id : Nat) :
    (Graph.attachIn table id action).IsOrderly bound := by
  rw [Graph.attachIn]
  cases stored : table.get? id with
  | none => exact orderly
  | some node => exact orderly.insert ((orderly id node stored).attach fits)

end NodeTable.IsOrderly

/-! ## Growing -/

namespace Graph

variable {graph after : Graph} {node : Node}

namespace IsOrderly

theorem contains_lt (orderly : graph.IsOrderly) {id : Nat} (there : graph.contains id = true) :
    id < graph.nextId := orderly.nodes.id_lt there

/-- A node of the graph is orderly, and so is one that stands in for it. -/
theorem getD (orderly : graph.IsOrderly) (other : node.IsOrderly graph.nextId) (id : Nat) :
    ((graph.get? id).getD node).IsOrderly graph.nextId := by
  cases stored : graph.get? id with
  | none => exact other
  | some found => exact orderly.nodes id found stored

/-- An append keeps a graph orderly, be it well formed or not. -/
theorem append (orderly : graph.IsOrderly) {kind : NodeKind} {parents : List Nat} {name : String}
    (ok : graph.append kind parents name = .ok (after, node)) :
    after.IsOrderly ∧ after.nextId = graph.nextId + 1 ∧ node.IsOrderly after.nextId := by
  obtain ⟨grows, same⟩ := append_eq_ok.1 ok
  obtain ⟨rfl, rfl⟩ := Prod.mk.inj same
  obtain ⟨parentsStored, startStored⟩ := stored_of_checkGrowth grows
  have below {id : Nat} (there : graph.contains id = true) : id < graph.nextId :=
    orderly.contains_lt there
  have new : (graph.newNode kind parents name).IsOrderly (graph.nextId + 1) := by
    refine ⟨Nat.lt_succ_self _, fun parent inside => below (parentsStored parent inside), ?_⟩
    intro small
    have number : graph.nextId < UInt64.size := Nat.lt_of_succ_le small
    refine ⟨number, ?_, ?_, fun action none => by cases none⟩
    · cases kind with
      | stepEnd start =>
          obtain ⟨opener, stored, -⟩ := startStored start rfl
          exact Nat.lt_trans (below (contains_of_get? stored)) number
      | _ => trivial
    · exact fun parent inside => Nat.lt_trans (below (parentsStored parent inside)) number
  refine ⟨⟨?_, ?_, ?_⟩, rfl, new⟩
  · exact nodup_headsAfter orderly.heads_nodup fun inside =>
      absurd (orderly.heads_lt _ inside) (Nat.lt_irrefl _)
  · intro head inside
    rcases mem_of_mem_headsAfter inside with rfl | old
    · exact Nat.lt_succ_self _
    · exact Nat.lt_succ_of_lt (orderly.heads_lt head old)
  · have older : graph.table.IsOrderly (graph.nextId + 1) := orderly.nodes.mono (Nat.le_succ _)
    have closed : (graph.closedTable kind).IsOrderly (graph.nextId + 1) := by
      unfold closedTable
      cases kind.closes with
      | none => exact older
      | some start =>
          have fits : graph.nextId + 1 ≤ UInt64.size → Action.Storable (.blockEnd graph.nextId) :=
            Nat.lt_of_succ_le
          exact older.attachIn fits start
    exact closed.insert new

theorem attach (orderly : graph.IsOrderly) {id : Nat} {action : Action}
    (ok : graph.attach id action = .ok (after, node)) (fits : action.Storable) :
    after.IsOrderly ∧ after.nextId = graph.nextId ∧ node.IsOrderly after.nextId := by
  obtain ⟨old, stored, rfl, rfl⟩ := attach_eq_ok.1 ok
  have attached := (orderly.nodes id old stored).attach fun _ => fits
  exact ⟨⟨orderly.heads_nodup, orderly.heads_lt, orderly.nodes.insert attached⟩, rfl, attached⟩

theorem attachAll (orderly : graph.IsOrderly) (id : Nat) {actions : List Action}
    (fits : ∀ action ∈ actions, action.Storable) :
    (RepairPlan.attachAll graph id actions).IsOrderly ∧
      (RepairPlan.attachAll graph id actions).nextId = graph.nextId := by
  induction actions generalizing graph with
  | nil => exact ⟨orderly, rfl⟩
  | cons action rest ih =>
      obtain ⟨first, others⟩ := List.forall_mem_cons.1 fits
      rw [attachAll_cons]
      split
      next between node ok =>
        obtain ⟨still, same, -⟩ := orderly.attach ok first
        obtain ⟨last, later⟩ := ih still others
        exact ⟨last, later.trans same⟩
      next => exact ⟨orderly, rfl⟩

/-- The nodes of a plan are appended as far as the graph admits them. -/
theorem applyNodes (orderly : graph.IsOrderly) {planned : List Node}
    (fits : ∀ node ∈ planned, ∀ action ∈ node.actions, action.Storable)
    {applied : Except GraphFault (List Node)}
    (done : RepairPlan.applyNodes planned graph = (after, applied)) :
    after.IsOrderly ∧ graph.nextId ≤ after.nextId ∧
      ∀ nodes, applied = .ok nodes → ∀ node ∈ nodes, node.IsOrderly after.nextId := by
  -- A plan may stop at any of its nodes, and what was admitted before then stays.
  induction planned generalizing graph applied with
  | nil =>
      cases done
      exact ⟨orderly, Nat.le_refl _, by simp⟩
  | cons first rest ih =>
      obtain ⟨fitsFirst, fitsRest⟩ := List.forall_mem_cons.1 fits
      rw [RepairPlan.applyNodes_eq] at done
      cases appended : graph.append first.kind first.parents first.name with
      | error fault =>
          rw [appended] at done
          cases done
          exact ⟨orderly, Nat.le_refl _, fun _ none => by cases none⟩
      | ok grown =>
          obtain ⟨between, node⟩ := grown
          obtain ⟨orderlyNow, next, new⟩ := orderly.append appended
          rw [appended] at done
          dsimp only at done
          split at done
          · cases done
            exact ⟨orderlyNow, by omega, fun _ none => by cases none⟩
          · obtain ⟨orderlyAttached, same⟩ := orderlyNow.attachAll node.id fitsFirst
            have stored := orderlyAttached.getD (same ▸ new) node.id
            split at done
            next left later applies =>
              cases done
              obtain ⟨last, le, orderlyLater⟩ := ih orderlyAttached fitsRest applies
              refine ⟨last, by omega, ?_⟩
              rintro nodes same
              obtain rfl := Except.ok.inj same
              exact List.forall_mem_cons.2 ⟨stored.mono le, orderlyLater later rfl⟩
            next left fault applies =>
              cases done
              obtain ⟨last, le, -⟩ := ih orderlyAttached fitsRest applies
              exact ⟨last, by omega, fun _ none => by cases none⟩

end IsOrderly

/-- The ends of open blocks bring no number along. -/
theorem blockEnds_storable (graph : Graph) (reason : String) (starts : List Nat) (next : Nat)
    (parents : List Nat) :
    ∀ node ∈ (RepairPlan.blockEnds graph reason starts next parents).1,
      ∀ action ∈ node.actions, action.Storable := by
  induction starts generalizing next parents with
  | nil => simp [RepairPlan.blockEnds]
  | cons start rest ih =>
      rw [RepairPlan.blockEnds]
      refine List.forall_mem_cons.2 ⟨?_, ih (next + 1) [next]⟩
      simp [Action.Storable]

/-- A repair keeps a graph orderly, however far it comes. -/
theorem IsOrderly.repaired (orderly : graph.IsOrderly) {reason : String}
    {applied : Except GraphFault (List Node)}
    (done : (RepairPlan.make graph reason).apply graph = (after, applied)) :
    after.IsOrderly ∧ graph.nextId ≤ after.nextId ∧
      ∀ nodes, applied = .ok nodes → ∀ node ∈ nodes, node.IsOrderly after.nextId := by
  refine orderly.applyNodes ?_ done
  unfold RepairPlan.make
  split
  · simp
  · intro node inside
    rcases List.mem_append.1 inside with before | last
    · rcases List.mem_append.1 before with start | closing
      · split at start
        · obtain rfl := List.mem_singleton.1 start
          simp
        · cases start
      · exact blockEnds_storable _ _ _ _ _ node closing
    · obtain rfl := List.mem_singleton.1 last
      simp [Action.Storable]

/-! ## What is regained -/

/-- The graph that a run is opened with where its record has the given heads. -/
def regain (table : NodeTable) (heads : List Nat) : Graph :=
  let graph := ofParts table.nodes heads
  { graph with heads := graph.usableHeads }

/-- A graph that a run can have between its operations, if it has all of its nodes: it is well
formed, or its first node was never written. -/
def IsGrown (graph : Graph) : Prop := graph.WellFormed ∨ graph = empty

theorem isUsable_empty : empty.IsUsable := by
  constructor
  case heads_nodup => exact List.nodup_nil
  case heads_stored => exact fun head inside => by cases inside
  case heads_ne_nil => exact fun some => by cases some
  case below => exact fun id there => by cases there

theorem IsGrown.isUsable (grown : graph.IsGrown) : graph.IsUsable := by
  rcases grown with well | rfl
  · exact well.isUsable
  · exact isUsable_empty

theorem regain_empty : regain .empty [] = empty := rfl

/-- A graph is regained from its nodes and its heads. -/
theorem IsGrown.regain_eq (grown : graph.IsGrown) : regain graph.table graph.heads = graph := by
  rcases grown with well | rfl
  · have whole : ofParts graph.table.nodes graph.heads = graph := well.ofParts_eq
    simp only [regain, whole, well.usableHeads_eq]
  · exact regain_empty

section Regain

variable {table : NodeTable} {heads : List Nat} {bound : Nat}

theorem table_regain (table : NodeTable) (heads : List Nat) : (regain table heads).table = table :=
  NodeTable.ofList_nodes table

theorem nextId_regain (table : NodeTable) (heads : List Nat) :
    (regain table heads).nextId =
      ((table.maxId?.toList ++ heads).max?.map (· + 1)).getD firstId := by
  show (((NodeTable.ofList table.nodes).maxId?.toList ++ heads).max?.map (· + 1)).getD firstId = _
  rw [NodeTable.ofList_nodes]

/-- Numbers go on after every recorded head. -/
theorem lt_nextId_regain {id : Nat} (inside : id ∈ table.maxId?.toList ++ heads) :
    id < (regain table heads).nextId := by
  rw [nextId_regain]
  cases highest : (table.maxId?.toList ++ heads).max? with
  | none => simp [List.max?_eq_none_iff.1 highest] at inside
  | some top =>
      have least := (List.max?_eq_some_iff.1 highest).2 id inside
      exact Nat.lt_succ_of_le least

/-- Numbers go on after every stored node. -/
theorem contains_lt_nextId_regain {id : Nat} (there : table.contains id = true) :
    id < (regain table heads).nextId := by
  rcases table.maxId?_spec with ⟨none, -⟩ | ⟨top, highest, -, least⟩
  · obtain ⟨node, stored⟩ := (table.contains_iff id).1 there
    have inside := (table.mem_nodes_iff node).2 (NodeTable.get?_id stored ▸ stored)
    simp [none] at inside
  · have lower : top < (regain table heads).nextId := lt_nextId_regain (by simp [highest])
    exact Nat.lt_of_le_of_lt (least id there) lower

theorem heads_regain (table : NodeTable) (heads : List Nat) :
    (regain table heads).heads =
      if (heads.filter table.contains).isEmpty then
        (table.nodes.map (·.id)).filter fun id => !table.nodes.any (id ∈ ·.parents)
      else heads.filter table.contains := by
  have same : (ofParts table.nodes heads).table = table := NodeTable.ofList_nodes table
  have stored : (ofParts table.nodes heads).contains = table.contains := by
    funext id
    rw [contains, same]
  show (ofParts table.nodes heads).usableHeads = _
  rw [usableHeads, stored, childless, nodes, same]
  rfl

/-- The heads that a run goes on from are stored, each once. -/
theorem heads_regain_spec (table : NodeTable) (nodup : heads.Nodup) :
    (regain table heads).heads.Nodup ∧
      ∀ head ∈ (regain table heads).heads, table.contains head = true := by
  rw [heads_regain]
  split
  · refine ⟨?_, fun head inside => ?_⟩
    · have ids : (table.nodes.map (·.id)).Nodup :=
        List.pairwise_map.2 (table.ascending.imp fun lower => Nat.ne_of_lt lower)
      exact ids.filter _
    · obtain ⟨node, member, rfl⟩ := List.mem_map.1 (List.mem_of_mem_filter inside)
      exact (table.contains_iff _).2 ⟨node, (table.mem_nodes_iff node).1 member⟩
  · exact ⟨nodup.filter _, fun head inside => (List.mem_filter.1 inside).2⟩

/-- Whatever is regained from orderly nodes is orderly. -/
theorem isOrderly_regain (orderly : table.IsOrderly bound) (small : bound ≤ UInt64.size)
    (nodup : heads.Nodup) : (regain table heads).IsOrderly := by
  obtain ⟨nodupNow, stored⟩ := heads_regain_spec table nodup
  refine ⟨nodupNow, fun head inside => contains_lt_nextId_regain (stored head inside), ?_⟩
  intro id node found
  rw [table_regain] at found
  have there : table.contains id = true := (table.contains_iff id).2 ⟨node, found⟩
  have before := orderly id node found
  exact ⟨NodeTable.get?_id found ▸ contains_lt_nextId_regain there, before.parents_lt,
    fun _ => before.storable small⟩

/-- The node of the highest number is no parent. -/
theorem childless_ne_nil (orderly : table.IsOrderly bound) (some : table.nodes ≠ []) :
    ((table.nodes.map (·.id)).filter fun id => !table.nodes.any (id ∈ ·.parents)) ≠ [] := by
  rcases table.maxId?_spec with ⟨none, -⟩ | ⟨top, -, there, highest⟩
  · exact absurd none some
  · obtain ⟨last, stored⟩ := (table.contains_iff top).1 there
    have number := NodeTable.get?_id stored
    have inside := (table.mem_nodes_iff last).2 (number.symm ▸ stored)
    refine List.ne_nil_of_mem (a := top) (List.mem_filter.2 ⟨List.mem_map.2 ⟨last, inside, number⟩, ?_⟩)
    simp only [Bool.not_eq_true', List.any_eq_false, decide_eq_true_eq]
    intro node member parent
    have found := (table.mem_nodes_iff node).1 member
    have above := (orderly node.id node found).parents_lt top parent
    have below := highest node.id ((table.contains_iff _).2 ⟨node, found⟩)
    omega

/-- Whatever is regained from orderly nodes can be used. -/
theorem isUsable_regain (orderly : table.IsOrderly bound) (nodup : heads.Nodup) :
    (regain table heads).IsUsable := by
  obtain ⟨nodupNow, stored⟩ := heads_regain_spec table nodup
  have same (id : Nat) : (regain table heads).contains id = table.contains id := by
    rw [contains, table_regain]
  constructor
  case heads_nodup => exact nodupNow
  case heads_stored => exact fun head inside => (same head).trans (stored head inside)
  case heads_ne_nil =>
    intro some
    have nonempty : table.nodes ≠ [] := by
      rwa [isEmpty, table_regain, List.isEmpty_eq_false_iff] at some
    rw [heads_regain]
    split
    · exact childless_ne_nil orderly nonempty
    next resolved => simpa using resolved
  case below => exact fun id there => contains_lt_nextId_regain ((same id).symm.trans there)

/-- A graph that can be used is regained from its nodes and its heads, but for the number to go on
with: those of lost nodes may be lost. -/
theorem IsUsable.regain_eq {graph : Graph} (usable : graph.IsUsable) :
    ∃ nextId, Graph.regain graph.table graph.heads = { graph with nextId } := by
  have heads : (regain graph.table graph.heads).heads = graph.heads := by
    have all : graph.heads.filter graph.table.contains = graph.heads :=
      List.filter_eq_self.2 usable.heads_stored
    rw [heads_regain, all]
    split
    next none =>
      have nothing : graph.heads = [] := List.isEmpty_iff.1 none
      cases empty : graph.isEmpty with
      | true => simp [nothing, List.isEmpty_iff.1 empty]
      | false => exact absurd nothing (usable.heads_ne_nil empty)
    next => rfl
  have table := table_regain graph.table graph.heads
  cases regained : regain graph.table graph.heads with
  | mk nodes others nextId =>
      rw [regained] at heads table
      exact ⟨nextId, by rw [← heads, ← table]⟩

/-- The heads that are regained are regained from themselves. -/
theorem heads_regain_again (orderly : table.IsOrderly bound) (nodup : heads.Nodup) :
    (regain table (regain table heads).heads).heads = (regain table heads).heads := by
  obtain ⟨nextId, same⟩ := (isUsable_regain orderly nodup).regain_eq
  rw [table_regain] at same
  rw [same]

/-- If the recorded heads are all there, what is regained from orderly nodes is well formed,
unless there are none. -/
theorem regain_isGrown (orderly : table.IsOrderly bound) (nodup : heads.Nodup)
    (stored : ∀ head ∈ heads, table.contains head = true) : (regain table heads).IsGrown := by
  have usable := isUsable_regain orderly nodup
  rcases table.maxId?_spec with ⟨none, -⟩ | ⟨top, highest, there, least⟩
  · right
    have nothing : table = .empty := NodeTable.eq_of_get? fun id => by
      rw [NodeTable.get?, none]
      rfl
    have noHeads : heads = [] := by
      rw [List.eq_nil_iff_forall_not_mem]
      intro head inside
      have there := stored head inside
      rw [nothing] at there
      cases there
    rw [nothing, noHeads, regain_empty]
  · left
    have next : (regain table heads).nextId = top + 1 := by
      have biggest : (table.maxId?.toList ++ heads).max? = some top := by
        rw [List.max?_eq_some_iff, highest]
        refine ⟨by simp, fun id inside => ?_⟩
        rcases List.mem_cons.1 inside with rfl | head
        · exact Nat.le_refl _
        · exact least id (stored id head)
      rw [nextId_regain, biggest]
      rfl
    constructor
    case heads_ne_nil =>
      refine usable.heads_ne_nil ?_
      rw [isEmpty, table_regain, List.isEmpty_eq_false_iff]
      intro none
      simp [NodeTable.maxId?, none] at highest
    case heads_nodup => exact usable.heads_nodup
    case heads_stored => exact usable.heads_stored
    case below => exact usable.below
    case last =>
      rw [next, Nat.add_sub_cancel, contains, table_regain]
      exact there

end Regain

/-! ## Repairs -/

/-- What a repair leaves of a graph that has all of its nodes: the appended nodes stand in it, the
blocks they close do, and all else is as it was. -/
theorem IsGrown.apply_make (grown : graph.IsGrown) (reason : String) :
    ∃ after nodes, (RepairPlan.make graph reason).apply graph = (after, .ok nodes) ∧
      after.WellFormed ∧ (∀ node ∈ nodes, after.get? node.id = some node) ∧
      (∀ node ∈ nodes, ∀ start, node.kind.closes = some start → after.contains start = true) ∧
      ∀ id, id ∉ nodes.flatMap Node.touched → after.get? id = graph.get? id := by
  have usable := grown.isUsable
  obtain ⟨after, applied, extended, -⟩ := RepairPlan.apply_make_of_isUsable usable reason
  refine ⟨after, _, applied, ?_, extended.stored usable, extended.start_stored,
    fun id => extended.get?_of_not_mem_touched⟩
  rcases grown with well | rfl
  · exact extended.wellFormed well
  · -- The plan begins the flow, and whatever was appended to is well formed.
    have none : empty.isEmpty = true := rfl
    rw [RepairPlan.make_of_isEmpty none] at extended
    cases extended with
    | more first _ _ rest => exact rest.wellFormed (first.wellFormed_of_isUsable usable)

end Graph
end DurableRuns
