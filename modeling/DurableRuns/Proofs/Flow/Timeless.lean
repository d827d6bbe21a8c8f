/-
# DurableRuns.Proofs.Flow.Timeless -- nothing done with a graph looks at its times

The times in a graph are those at which its steps began.  A map of instants, applied to all of
them, leaves the numbers, kinds, names and edges alone; whether the map comes before or after an
append (`Graph.append_retime`), an action (`Graph.attach_retime`) or a repair
(`Graph.repaired_retime`) makes no difference.

With a constant map this says that graphs which are the same but for their times stay so, and
with the identity it says nothing.  One equation for each function, in the order in which the
functions are put together.
-/
import DurableRuns.Proofs.Flow.RepairPlan

namespace DurableRuns

set_option autoImplicit false

variable {clock : Instant → Instant}

/-! ## Actions and nodes -/

/-- The action with its time, if it has one, changed by a map. -/
def Action.retime (clock : Instant → Instant) : Action → Action
  | .timing startedAt => .timing (clock startedAt)
  | action => action

namespace Action

@[simp] theorem kind_retime (action : Action) : (action.retime clock).kind = action.kind := by
  cases action <;> rfl

@[simp] theorem retime_retime (later : Instant → Instant) (action : Action) :
    (action.retime clock).retime later = action.retime (later ∘ clock) := by
  cases action <;> rfl

theorem attachTo_retime (action : Action) (actions : List Action) :
    (action.retime clock).attachTo (actions.map (retime clock)) =
      (action.attachTo actions).map (retime clock) := by
  induction actions with
  | nil => rfl
  | cons first rest ih =>
      rw [List.map_cons, attachTo, attachTo, ih, kind_retime, kind_retime]
      split <;> rfl

theorem find?_kind_retime (kind : ActionKind) (actions : List Action) :
    (actions.map (retime clock)).find? (·.kind = kind) =
      (actions.find? (·.kind = kind)).map (retime clock) := by
  rw [List.find?_map]
  congr 2
  funext action
  exact congrArg (fun other : ActionKind => decide (other = kind)) action.kind_retime

end Action

/-- The node with its times changed by a map. -/
def Node.retime (clock : Instant → Instant) (node : Node) : Node :=
  { node with actions := node.actions.map (Action.retime clock) }

namespace Node

@[simp] theorem id_retime (node : Node) : (node.retime clock).id = node.id := rfl

@[simp] theorem kind_retime (node : Node) : (node.retime clock).kind = node.kind := rfl

@[simp] theorem retime_retime (later : Instant → Instant) (node : Node) :
    (node.retime clock).retime later = node.retime (later ∘ clock) := by
  simp [retime, Function.comp_def]

theorem attach_retime (node : Node) (action : Action) :
    (node.retime clock).attach (action.retime clock) = (node.attach action).retime clock :=
  congrArg (fun actions => { node with actions }) (action.attachTo_retime node.actions)

@[simp] theorem blockEnd?_retime (node : Node) :
    (node.retime clock).blockEnd? = node.blockEnd? := by
  have found : (node.retime clock).action? .blockEnd =
      (node.action? .blockEnd).map (Action.retime clock) := Action.find?_kind_retime _ _
  rw [blockEnd?, blockEnd?, found]
  cases node.action? .blockEnd with
  | none => rfl
  | some action => cases action <;> rfl

/-- A test that does not look at the times. -/
theorem any_retime {test : Node → Bool} (blind : ∀ node, test (node.retime clock) = test node)
    (nodes : List Node) : (nodes.map (retime clock)).any test = nodes.any test := by
  rw [List.any_map]
  exact congrArg nodes.any (funext blind)

theorem filter_retime {test : Node → Bool} (blind : ∀ node, test (node.retime clock) = test node)
    (nodes : List Node) :
    (nodes.map (retime clock)).filter test = (nodes.filter test).map (retime clock) := by
  rw [List.filter_map]
  exact congrArg (fun test => (nodes.filter test).map (retime clock)) (funext blind)

theorem find?_retime {test : Node → Bool} (blind : ∀ node, test (node.retime clock) = test node)
    (nodes : List Node) :
    (nodes.map (retime clock)).find? test = (nodes.find? test).map (retime clock) := by
  rw [List.find?_map]
  exact congrArg (fun test => (nodes.find? test).map (retime clock)) (funext blind)

theorem map_id_retime (nodes : List Node) :
    (nodes.map (retime clock)).map (·.id) = nodes.map (·.id) := by
  rw [List.map_map]
  rfl

end Node

/-! ## Tables -/

/-- The table with its times changed by a map. -/
def NodeTable.retime (clock : Instant → Instant) (table : NodeTable) : NodeTable where
  nodes := table.nodes.map (Node.retime clock)
  ascending := List.pairwise_map.2 table.ascending

namespace NodeTable

theorem retime_retime (later : Instant → Instant) (table : NodeTable) :
    (table.retime clock).retime later = table.retime (later ∘ clock) := by
  simp [retime, Function.comp_def]

theorem get?_retime (table : NodeTable) (id : Nat) :
    (table.retime clock).get? id = (table.get? id).map (Node.retime clock) :=
  Node.find?_retime (fun _ => rfl) table.nodes

theorem insertInto_retime (node : Node) (nodes : List Node) :
    insertInto (node.retime clock) (nodes.map (Node.retime clock)) =
      (insertInto node nodes).map (Node.retime clock) := by
  induction nodes with
  | nil => rfl
  | cons first rest ih =>
      rw [List.map_cons, insertInto, insertInto, ih, Node.id_retime, Node.id_retime]
      split
      · rfl
      · split <;> rfl

theorem insert_retime (table : NodeTable) (node : Node) :
    (table.retime clock).insert (node.retime clock) = (table.insert node).retime clock := by
  simp only [insert, retime, insertInto_retime]

end NodeTable

/-! ## Graphs -/

/-- The graph with its times changed by a map. -/
def Graph.retime (clock : Instant → Instant) (graph : Graph) : Graph :=
  { graph with table := graph.table.retime clock }

namespace Graph

variable (graph : Graph)

@[simp] theorem nextId_retime : (graph.retime clock).nextId = graph.nextId := rfl

theorem get?_retime (id : Nat) :
    (graph.retime clock).get? id = (graph.get? id).map (Node.retime clock) :=
  graph.table.get?_retime id

@[simp] theorem contains_retime : (graph.retime clock).contains = graph.contains := by
  funext id
  exact (congrArg Option.isSome (graph.get?_retime id)).trans (Option.isSome_map ..)

theorem find_retime (id : Nat) :
    (graph.retime clock).find id = (graph.find id).map (Node.retime clock) := by
  rw [find, find, get?_retime]
  cases graph.get? id <;> rfl

@[simp] theorem isEmpty_retime : (graph.retime clock).isEmpty = graph.isEmpty :=
  List.isEmpty_map ..

@[simp] theorem isSome_endNode?_retime :
    (graph.retime clock).endNode?.isSome = graph.endNode?.isSome := by
  have found : (graph.retime clock).endNode? = graph.endNode?.map (Node.retime clock) := by
    have reversed : (graph.retime clock).nodes.reverse =
        graph.nodes.reverse.map (Node.retime clock) := List.map_reverse.symm
    rw [endNode?, reversed]
    exact Node.find?_retime (fun _ => rfl) _
  rw [found, Option.isSome_map]

@[simp] theorem usableHeads_retime : (graph.retime clock).usableHeads = graph.usableHeads := by
  have childless : (graph.retime clock).childless = graph.childless := by
    have nodes : (graph.retime clock).nodes = graph.nodes.map (Node.retime clock) := rfl
    rw [Graph.childless, Graph.childless, nodes, Node.map_id_retime]
    refine congrArg (List.filter · _) (funext fun id => congrArg not ?_)
    exact Node.any_retime (fun _ => rfl) _
  rw [usableHeads, usableHeads, contains_retime, childless]
  rfl

/-! ### Growing -/

theorem checkParents_retime (earlier parents : List Nat) :
    (graph.retime clock).checkParents earlier parents = graph.checkParents earlier parents := by
  induction parents generalizing earlier with
  | nil => rfl
  | cons parent rest ih =>
      rw [checkParents, checkParents, find_retime]
      simp only [ih]
      cases graph.find parent <;> rfl

theorem checkOpen_retime (start : Nat) :
    (graph.retime clock).checkOpen start = graph.checkOpen start := by
  rw [checkOpen, checkOpen, find_retime]
  cases graph.find start with
  | error fault => rfl
  | ok node =>
      simp only [Except.map, bind, Except.bind, Node.kind_retime, Node.blockEnd?_retime]

theorem checkGrowth_retime (kind : NodeKind) (parents : List Nat) :
    (graph.retime clock).checkGrowth kind parents = graph.checkGrowth kind parents := by
  unfold checkGrowth
  simp only [isEmpty_retime, isSome_endNode?_retime, checkParents_retime, checkOpen_retime]

theorem attachIn_retime (table : NodeTable) (id : Nat) (action : Action) :
    attachIn (table.retime clock) id (action.retime clock) =
      (attachIn table id action).retime clock := by
  rw [attachIn, attachIn, NodeTable.get?_retime]
  cases table.get? id with
  | none => rfl
  | some node =>
      exact (congrArg (table.retime clock).insert (node.attach_retime action)).trans
        (table.insert_retime _)

/-- A graph and a node of it with their times changed by a map. -/
def retimeGrown (clock : Instant → Instant) (grown : Graph × Node) : Graph × Node :=
  (grown.1.retime clock, grown.2.retime clock)

theorem closedTable_retime (kind : NodeKind) :
    (graph.retime clock).closedTable kind = (graph.closedTable kind).retime clock := by
  rw [closedTable, closedTable]
  cases kind.closes with
  | none => rfl
  | some start => exact attachIn_retime graph.table start (.blockEnd graph.nextId)

theorem append_retime (kind : NodeKind) (parents : List Nat) (name : String) :
    (graph.retime clock).append kind parents name =
      (graph.append kind parents name).map (retimeGrown clock) := by
  have table : ((graph.retime clock).closedTable kind).insert (graph.newNode kind parents name) =
      ((graph.closedTable kind).insert (graph.newNode kind parents name)).retime clock :=
    (congrArg (NodeTable.insert · _) (graph.closedTable_retime kind)).trans
      (NodeTable.insert_retime _ (graph.newNode kind parents name))
  rw [append_eq, append_eq, checkGrowth_retime]
  cases graph.checkGrowth kind parents with
  | error fault => rfl
  | ok _ =>
      exact congrArg (fun table : NodeTable => Except.ok
        ((⟨table, headsAfter graph.nextId parents graph.heads, graph.nextId + 1⟩ : Graph),
          graph.newNode kind parents name)) table

theorem attach_retime (id : Nat) (action : Action) :
    (graph.retime clock).attach id (action.retime clock) =
      (graph.attach id action).map (retimeGrown clock) := by
  rw [attach_eq, attach_eq, find_retime]
  cases graph.find id with
  | error fault => rfl
  | ok node =>
      have attached : (node.retime clock).attach (action.retime clock) =
          (node.attach action).retime clock := node.attach_retime action
      have table : (graph.table.retime clock).insert ((node.attach action).retime clock) =
          (graph.table.insert (node.attach action)).retime clock := NodeTable.insert_retime ..
      simp only [Except.map, attached, retimeGrown, retime, table]

end Graph

/-! ## Walks -/

/-- A walk visits the same nodes in the same order. -/
theorem Scan.fromStack_retime (table : NodeTable) (stack seen : List Nat) :
    fromStack (table.retime clock) stack seen =
      (fromStack table stack seen).map (Node.retime clock) := by
  fun_induction fromStack table stack seen with
  | case1 => rw [fromStack_nil]; rfl
  | case2 id stack seen old ih => rw [fromStack_of_old old, ih]
  | case3 id stack seen new absent ih =>
      have found : (table.retime clock).get? id = none := by
        rw [NodeTable.get?_retime, absent]
        rfl
      rw [fromStack_of_absent new found, ih]
  | case4 id stack seen new node stored ih =>
      have found : (table.retime clock).get? id = some (node.retime clock) := by
        rw [NodeTable.get?_retime, stored]
        rfl
      rw [fromStack_of_new new found, List.map_cons, ← ih]
      rfl

namespace Graph

theorem openAmong_retime (nodes : List Node) :
    openAmong (nodes.map (Node.retime clock)) = openAmong nodes := by
  have unclosed (start : Nat) :
      (nodes.map (Node.retime clock)).any (·.kind.closes = some start) =
        nodes.any (·.kind.closes = some start) := Node.any_retime (fun _ => rfl) nodes
  simp only [openAmong]
  rw [Node.filter_retime (fun _ => rfl), Node.filter_retime fun node => by simp,
    Node.map_id_retime]
  simp only [unclosed]

@[simp] theorem openBlocks_retime (graph : Graph) (heads : List Nat) :
    (graph.retime clock).openBlocks heads = graph.openBlocks heads := by
  rw [openBlocks, openBlocks, Scan.depthFirst, Scan.depthFirst]
  exact (congrArg openAmong (Scan.fromStack_retime graph.table heads [])).trans
    (openAmong_retime _)

end Graph

/-! ## Repairs -/

namespace RepairPlan

variable (graph : Graph)

theorem blockEnds_retime (reason : String) (starts : List Nat) (next : Nat) (parents : List Nat) :
    blockEnds (graph.retime clock) reason starts next parents =
      blockEnds graph reason starts next parents := by
  induction starts generalizing next parents with
  | nil => rfl
  | cons start rest ih =>
      have name : ((graph.retime clock).get? start).map (·.name) =
          (graph.get? start).map (·.name) := by
        rw [graph.get?_retime, Option.map_map]
        rfl
      rw [blockEnds, blockEnds, name, ih]

/-- The plan of a repair is the same. -/
theorem make_retime (reason : String) : make (graph.retime clock) reason = make graph reason := by
  simp only [make, Graph.isSome_endNode?_retime, Graph.isEmpty_retime, Graph.nextId_retime,
    Graph.usableHeads_retime, Graph.openBlocks_retime, blockEnds_retime]

theorem attachAll_retime (id : Nat) (actions : List Action) :
    attachAll (graph.retime clock) id (actions.map (Action.retime clock)) =
      (attachAll graph id actions).retime clock := by
  induction actions generalizing graph with
  | nil => rfl
  | cons action rest ih =>
      rw [List.map_cons, Graph.attachAll_cons, Graph.attachAll_cons, Graph.attach_retime]
      cases graph.attach id action with
      | error fault => rfl
      | ok changed => exact ih changed.1

theorem applyNodes_retime (planned : List Node) :
    (applyNodes (planned.map (Node.retime clock)) (graph.retime clock)).1 =
      (applyNodes planned graph).1.retime clock := by
  induction planned generalizing graph with
  | nil => rfl
  | cons first rest ih =>
      have grows : (graph.retime clock).append (first.retime clock).kind
          (first.retime clock).parents (first.retime clock).name =
            (graph.append first.kind first.parents first.name).map (Graph.retimeGrown clock) :=
        graph.append_retime ..
      rw [List.map_cons, fst_applyNodes_cons, fst_applyNodes_cons, grows]
      cases graph.append first.kind first.parents first.name with
      | error fault => rfl
      | ok grown =>
          obtain ⟨between, node⟩ := grown
          have attached : attachAll (between.retime clock) node.id (first.retime clock).actions =
              (attachAll between node.id first.actions).retime clock := attachAll_retime ..
          simp only [Except.map, Graph.retimeGrown, Node.id_retime, attached, ih]
          split <;> rfl

/-- The planned nodes tell no times. -/
theorem retime_nodes_make (reason : String) :
    (make graph reason).nodes.map (Node.retime clock) = (make graph reason).nodes := by
  have ends (starts : List Nat) (next : Nat) (parents : List Nat) :
      (blockEnds graph reason starts next parents).1.map (Node.retime clock) =
        (blockEnds graph reason starts next parents).1 := by
    induction starts generalizing next parents with
    | nil => rfl
    | cons start rest ih => exact congrArg (List.cons _) (ih ..)
  rw [make]
  split
  · rfl
  · simp only [List.map_append, ends]
    refine congrArg₂ (· ++ ·) (congrArg (· ++ _) ?_) rfl
    split <;> rfl

end RepairPlan

/-- A repair does not look at the times, and its nodes tell none. -/
theorem Graph.repaired_retime (graph : Graph) (reason : String) :
    (graph.retime clock).repaired reason = (graph.repaired reason).retime clock := by
  let planned := (RepairPlan.make graph reason).nodes
  have timeless : planned.map (Node.retime clock) = planned := RepairPlan.retime_nodes_make ..
  calc (graph.retime clock).repaired reason
      = (RepairPlan.applyNodes planned (graph.retime clock)).1 := by
        rw [repaired, RepairPlan.make_retime]
        rfl
    _ = (RepairPlan.applyNodes (planned.map (Node.retime clock)) (graph.retime clock)).1 := by
        rw [timeless]
    _ = (graph.repaired reason).retime clock := RepairPlan.applyNodes_retime graph planned

end DurableRuns
