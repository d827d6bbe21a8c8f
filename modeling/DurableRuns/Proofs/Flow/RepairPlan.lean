/-
# DurableRuns.Proofs.Flow.RepairPlan -- the repair of a well-formed graph goes through

A plan closes every open block, the latest first, and then ends the flow.  On a well-formed
graph each of its nodes is admitted when its turn comes, since the blocks that are still to be
closed are not touched by the ends before (`applyNodes_ends`).  So the plan that is made from
a well-formed graph applies to it in full (`apply_make`).
-/
import DurableRuns.Proofs.Flow.WellFormed

namespace DurableRuns

set_option autoImplicit false

/-! ## The nodes a scan reaches -/

namespace Scan

section Equations

variable {table : NodeTable} {id : Nat} {stack seen : List Nat} {node : Node}

@[simp]
theorem fromStack_nil : fromStack table [] seen = [] := by
  rw [fromStack]

theorem fromStack_of_old (old : id ∈ seen) :
    fromStack table (id :: stack) seen = fromStack table stack seen := by
  rw [fromStack, if_pos old]

theorem fromStack_of_absent (new : id ∉ seen) (absent : table.get? id = none) :
    fromStack table (id :: stack) seen = fromStack table stack (id :: seen) := by
  rw [fromStack, if_neg new]
  split
  · rfl
  next found => cases absent.symm.trans found

theorem fromStack_of_new (new : id ∉ seen) (stored : table.get? id = some node) :
    fromStack table (id :: stack) seen =
      node :: fromStack table (node.parents ++ stack) (id :: seen) := by
  rw [fromStack, if_neg new]
  split
  next absent => cases stored.symm.trans absent
  next other found =>
    obtain rfl := Option.some.inj (stored.symm.trans found)
    rfl

end Equations

/-- A scan gives stored nodes that had not been seen, each once. -/
theorem fromStack_spec (table : NodeTable) (stack seen : List Nat) :
    ((fromStack table stack seen).map (·.id)).Nodup ∧
      ∀ node ∈ fromStack table stack seen,
        table.get? node.id = some node ∧ node.id ∉ seen := by
  induction stack, seen using fromStack.induct table with
  | case1 seen => simp
  | case2 id stack seen old ih =>
      rw [fromStack_of_old old]
      exact ih
  | case3 id stack seen new absent ih =>
      rw [fromStack_of_absent new absent]
      refine ⟨ih.1, ?_⟩
      intro node inside
      obtain ⟨stored, unseen⟩ := ih.2 node inside
      exact ⟨stored, fun again => unseen (List.mem_cons_of_mem _ again)⟩
  | case4 id stack seen new node stored ih =>
      rw [fromStack_of_new new stored]
      -- The node is seen from here on, so the rest of the scan gives it no more.
      obtain rfl := NodeTable.get?_id stored
      constructor
      · rw [List.map_cons, List.nodup_cons]
        refine ⟨?_, ih.1⟩
        intro again
        obtain ⟨later, inside, same⟩ := List.mem_map.1 again
        exact (ih.2 later inside).2 (same ▸ List.mem_cons_self)
      · intro reached inside
        rcases List.mem_cons.1 inside with rfl | later
        · exact ⟨stored, new⟩
        · obtain ⟨there, unseen⟩ := ih.2 reached later
          exact ⟨there, fun again => unseen (List.mem_cons_of_mem _ again)⟩

end Scan

namespace Graph

/-- A block start is there and has not been closed. -/
def IsOpen (graph : Graph) (start : Nat) : Prop :=
  ∃ node, graph.get? start = some node ∧ node.kind.opensBlock = true ∧ node.blockEnd? = none

/-- The blocks that a repair closes are open, each listed once. -/
theorem openBlocks_spec (graph : Graph) (heads : List Nat) :
    (graph.openBlocks heads).Nodup ∧ ∀ start ∈ graph.openBlocks heads, graph.IsOpen start := by
  obtain ⟨nodup, stored⟩ := Scan.fromStack_spec graph.table heads []
  unfold openBlocks openAmong
  constructor
  · rw [(List.mergeSort_perm _ _).nodup_iff]
    exact nodup.sublist
      (List.filter_sublist.trans ((List.filter_sublist.trans List.filter_sublist).map _))
  · intro start inside
    rw [List.mem_mergeSort] at inside
    obtain ⟨node, member, rfl⟩ := List.mem_map.1 (List.mem_of_mem_filter inside)
    obtain ⟨opener, unclosed⟩ := List.mem_filter.1 member
    obtain ⟨reached, opens⟩ := List.mem_filter.1 opener
    exact ⟨node, (stored node reached).1, opens, Option.isNone_iff_eq_none.1 unclosed⟩

theorem endNode?_eq_none_iff (graph : Graph) :
    graph.endNode? = none ↔ ∀ id node, graph.get? id = some node → node.kind ≠ .flowEnd := by
  rw [endNode?, List.find?_eq_none]
  constructor
  · intro none id node stored
    have inside : node ∈ graph.nodes := List.mem_of_find?_eq_some stored
    simpa using none node (List.mem_reverse.2 inside)
  · intro none node inside
    have stored := (NodeTable.mem_nodes_iff _ _).1 (List.mem_reverse.1 inside)
    simpa using none node.id node stored

theorem Extends.endNode?_eq_none {before after : Graph} {node : Node}
    (extended : before.Extends after node) (running : before.endNode? = none)
    (kind : node.kind ≠ .flowEnd) : after.endNode? = none := by
  rw [endNode?_eq_none_iff] at running ⊢
  intro id found stored
  by_cases new : id = node.id
  · subst new
    obtain rfl := Option.some.inj (stored.symm.trans extended.stored)
    exact kind
  · by_cases closed : node.kind.closes = some id
    · obtain ⟨old, there, -, noted⟩ := extended.opened id closed
      obtain rfl := Option.some.inj (stored.symm.trans noted)
      exact running id old there
    · rw [extended.others id new closed] at stored
      exact running id found stored

theorem IsOpen.extended {before after : Graph} {node : Node} {start : Nat}
    (isOpen : before.IsOpen start) (usable : before.IsUsable)
    (extended : before.Extends after node) (other : node.kind.closes ≠ some start) :
    after.IsOpen start := by
  obtain ⟨old, stored, opens, unclosed⟩ := isOpen
  have lower := usable.below start (contains_of_get? stored)
  have number := extended.id_eq
  exact ⟨old, (extended.others start (by omega) other).trans stored, opens, unclosed⟩

/-! ## Several appends -/

/-- Nodes are appended one after the other; none of them opens a block. -/
inductive ExtendsBy : Graph → List Node → Graph → Prop where
  | none (graph : Graph) : ExtendsBy graph [] graph
  | more {before between after : Graph} {node : Node} {later : List Node}
      (first : before.Extends between node) (closed : node.kind.opensBlock = false)
      (fits : ∀ action ∈ node.actions, action.Storable)
      (rest : ExtendsBy between later after) : ExtendsBy before (node :: later) after

namespace ExtendsBy

variable {before after : Graph} {nodes : List Node}

theorem isUsable (extended : before.ExtendsBy nodes after) (usable : before.IsUsable) :
    after.IsUsable := by
  induction extended with
  | none graph => exact usable
  | more first _ _ _ ih => exact ih (first.isUsable usable)

theorem wellFormed (extended : before.ExtendsBy nodes after) (well : before.WellFormed) :
    after.WellFormed := by
  induction extended with
  | none graph => exact well
  | more first _ _ _ ih => exact ih (first.wellFormed well)

theorem nextId_le (extended : before.ExtendsBy nodes after) : before.nextId ≤ after.nextId := by
  induction extended with
  | none graph => exact Nat.le_refl _
  | more first _ _ _ ih =>
      have next := first.nextId_eq
      omega

theorem storable (extended : before.ExtendsBy nodes after) (well : before.WellFormed)
    (storable : before.Storable) : after.Storable := by
  induction extended with
  | none graph => exact storable
  | more first _ fits _ ih =>
      exact ih (first.wellFormed well) (first.storable well storable fits)

theorem get?_of_not_mem_touched (extended : before.ExtendsBy nodes after) {id : Nat}
    (untouched : id ∉ nodes.flatMap Node.touched) : after.get? id = before.get? id := by
  induction extended with
  | none graph => rfl
  | more first _ _ _ ih =>
      rw [List.flatMap_cons, List.mem_append, not_or] at untouched
      exact (ih untouched.2).trans (first.get?_of_not_mem_touched untouched.1)

/-- A node that opens no block stays as it is, whatever is appended after it. -/
theorem get?_of_closed (extended : before.ExtendsBy nodes after) (usable : before.IsUsable)
    {id : Nat} {node : Node} (stored : before.get? id = some node)
    (closed : node.kind.opensBlock = false) : after.get? id = some node := by
  induction extended with
  | none graph => exact stored
  | more first _ _ _ ih =>
      apply ih (first.isUsable usable)
      rw [first.others, stored]
      · have lower := usable.below id (contains_of_get? stored)
        have number := first.id_eq
        omega
      · intro closes
        obtain ⟨old, there, opens, -⟩ := first.opened id closes
        obtain rfl := Option.some.inj (stored.symm.trans there)
        cases closed.symm.trans opens

/-- Every appended node stands in the graph as it was appended. -/
theorem stored (extended : before.ExtendsBy nodes after) (usable : before.IsUsable) :
    ∀ node ∈ nodes, after.get? node.id = some node := by
  induction extended with
  | none graph => simp
  | more first closed _ rest ih =>
      intro node inside
      have usableNext := first.isUsable usable
      rcases List.mem_cons.1 inside with rfl | later
      · exact rest.get?_of_closed usableNext first.stored closed
      · exact ih usableNext node later

/-- The blocks that appended nodes close are there. -/
theorem start_stored (extended : before.ExtendsBy nodes after) :
    ∀ node ∈ nodes, ∀ start, node.kind.closes = some start → after.contains start = true := by
  have kept {before after : Graph} {nodes : List Node} (extended : before.ExtendsBy nodes after)
      {id : Nat} (there : before.contains id = true) : after.contains id = true := by
    induction extended with
    | none graph => exact there
    | more first _ _ _ ih => exact ih ((first.contains_iff id).2 (.inr there))
  induction extended with
  | none graph => simp
  | more first _ _ rest ih =>
      intro node inside start closes
      rcases List.mem_cons.1 inside with rfl | later
      · exact kept rest (first.start_stored closes)
      · exact ih node later start closes

end ExtendsBy

/-- A node that follows all heads is the only head. -/
theorem headsAfter_eq_singleton {id : Nat} {parents heads : List Nat}
    (all : ∀ head ∈ heads, head ∈ parents) : headsAfter id parents heads = [id] := by
  induction heads with
  | nil => rfl
  | cons head rest ih =>
      obtain ⟨parent, others⟩ := List.forall_mem_cons.1 all
      rw [headsAfter]
      split
      · rw [List.filter_eq_nil_iff.2 (by simpa using others)]
      · exact ih others

end Graph

/-! ## Applying a plan -/

namespace RepairPlan

theorem applyNodes_eq [Numbering] (planned : Node) (rest : List Node) (graph : Graph) :
    applyNodes (planned :: rest) graph =
      match graph.append planned.kind planned.parents planned.name with
      | .error fault => (graph, .error fault)
      | .ok (between, node) =>
          if node.id ≠ planned.id then (between, .error (.outOfPlan planned.id node.id))
          else
            let graph := attachAll between node.id planned.actions
            let stored := (graph.get? node.id).getD node
            match applyNodes rest graph with
            | (graph, .ok later) => (graph, .ok (stored :: later))
            | (graph, .error fault) => (graph, .error fault) := by
  rw [applyNodes]
  simp only [Graph.append_step]
  cases graph.append planned.kind planned.parents planned.name <;> rfl

/-- What is left of a graph when planned nodes were appended, up to the first that it does not
take. -/
theorem fst_applyNodes_cons [Numbering] (graph : Graph) (planned : Node) (rest : List Node) :
    (applyNodes (planned :: rest) graph).1 =
      match graph.append planned.kind planned.parents planned.name with
      | .error _ => graph
      | .ok (between, node) =>
          if node.id = planned.id then
            (applyNodes rest (attachAll between node.id planned.actions)).1
          else between := by
  rw [applyNodes_eq]
  cases graph.append planned.kind planned.parents planned.name with
  | error fault => rfl
  | ok grown =>
      obtain ⟨between, node⟩ := grown
      by_cases number : node.id = planned.id
      · simp only [number, ne_eq, not_true_eq_false, if_false, if_true]
        rcases applyNodes rest (attachAll between planned.id planned.actions)
          with ⟨after, later | _⟩
        all_goals rfl
      · simp only [number, ne_eq, not_false_eq_true, if_true, if_false]

/-- The first of planned nodes that a graph takes is appended under the number that it has, then the
others are. -/
theorem applyNodes_cons_eq_ok [Numbering] {graph after : Graph} {planned : Node}
    {rest stored : List Node} :
    applyNodes (planned :: rest) graph = (after, .ok stored) ↔
      ∃ between node later,
        graph.append planned.kind planned.parents planned.name = .ok (between, node) ∧
        node.id = planned.id ∧
        applyNodes rest (attachAll between node.id planned.actions) = (after, .ok later) ∧
        stored =
          ((attachAll between node.id planned.actions).get? node.id).getD node :: later := by
  rw [applyNodes_eq]
  cases graph.append planned.kind planned.parents planned.name with
  | error fault => simp
  | ok grown =>
      obtain ⟨between, node⟩ := grown
      by_cases number : node.id = planned.id
      · rcases applied : applyNodes rest (attachAll between planned.id planned.actions)
          with ⟨last, fault | later⟩
        · simp [number, applied]
        · simp [number, applied, eq_comm]
      · simp [number]

/-- A planned node can be made by an append and by attaching its actions, one after the other. -/
def IsMadeOf (planned : Node) : Prop :=
  ({ planned with actions := [] } : Node).attachEach planned.actions = planned

/-- A planned node that the graph takes under the number it gives is appended as it is planned. -/
theorem applyNodes_cons {graph : Graph} (planned : Node) (usable : graph.IsUsable)
    (grows : graph.checkGrowth planned.kind planned.parents = .ok ())
    (number : planned.id = graph.nextId) (made : IsMadeOf planned) (rest : List Node) :
    ∃ between, graph.Extends between planned ∧
      ∀ after later, applyNodes rest between = (after, .ok later) →
        applyNodes (planned :: rest) graph = (after, .ok (planned :: later)) := by
  have ok : graph.append planned.kind planned.parents planned.name = .ok _ :=
    Graph.append_eq_ok.2 ⟨grows, rfl⟩
  have same : graph.newNode planned.kind planned.parents planned.name =
      { planned with actions := [] } := by
    rw [Graph.newNode, ← number]
  obtain ⟨extended, -⟩ := Graph.append_extends_of_below usable.below ok
  have attached := Graph.attachAll_attached extended.stored planned.actions
  have whole := extended.attached attached usable.below
  rw [same, made] at whole
  refine ⟨_, whole, ?_⟩
  intro after later applied
  rw [applyNodes_eq, ok]
  simp only [same, ne_eq, not_true_eq_false, if_false]
  rw [applied, whole.stored]
  rfl

/-- The node that ends the flow of a run that failed. -/
def lastNode (reason : String) (next : Nat) (parents : List Nat) : Node :=
  { id := next, kind := .flowEnd, name := flowEndName, parents
    actions := [.error reason, .abnormalClosure reason] }

/-- The ends of open blocks are admitted one after the other, and after them the flow end, which
is then the only head. -/
theorem applyNodes_ends (original : Graph) (reason : String) (starts : List Nat)
    {graph : Graph} (parents : List Nat) (usable : graph.IsUsable)
    (running : graph.endNode? = none) (nodup : starts.Nodup)
    (opened : ∀ start ∈ starts, graph.IsOpen start) (some : parents ≠ [])
    (parents_nodup : parents.Nodup)
    (parents_stored : ∀ parent ∈ parents, graph.contains parent = true)
    (all : ∀ head ∈ graph.heads, head ∈ parents) :
    ∃ after,
      let ends := blockEnds original reason starts graph.nextId parents
      let nodes := ends.1 ++ [lastNode reason ends.2.1 ends.2.2]
      applyNodes nodes graph = (after, .ok nodes) ∧ graph.ExtendsBy nodes after ∧
        after.heads = [ends.2.1] := by
  induction starts generalizing graph parents with
  | nil =>
      have admits : graph.Admits .flowEnd parents :=
        ⟨by simp, running, some, parents_nodup, parents_stored, by simp [NodeKind.closes]⟩
      obtain ⟨after, extended, applied⟩ :=
        applyNodes_cons (lastNode reason graph.nextId parents) usable admits.checkGrowth rfl rfl []
      refine ⟨after, applied after [] rfl, .more extended rfl ?_ (.none after), ?_⟩
      · simp [lastNode, Action.Storable]
      · rw [extended.heads_eq]
        exact Graph.headsAfter_eq_singleton all
  | cons start starts ih =>
      obtain ⟨alone, nodup⟩ := List.nodup_cons.1 nodup
      obtain ⟨open?, openLater⟩ := List.forall_mem_cons.1 opened
      let planned : Node :=
        { id := graph.nextId, kind := .stepEnd start
          name := ((original.get? start).map (·.name)).getD "", parents
          actions := [.abnormalClosure reason] }
      have admits : graph.Admits (.stepEnd start) parents := by
        refine ⟨by simp, running, some, parents_nodup, parents_stored, ?_⟩
        rintro other closes
        obtain rfl := Option.some.inj closes
        exact open?
      obtain ⟨between, extended, applied⟩ :=
        applyNodes_cons planned usable admits.checkGrowth rfl rfl
          ((blockEnds original reason starts (graph.nextId + 1) [graph.nextId]).1 ++
            [lastNode reason
              (blockEnds original reason starts (graph.nextId + 1) [graph.nextId]).2.1
              (blockEnds original reason starts (graph.nextId + 1) [graph.nextId]).2.2])
      have next := extended.nextId_eq
      have here : between.contains graph.nextId = true := Graph.contains_of_get? extended.stored
      have still : ∀ other ∈ starts, between.IsOpen other := by
        intro other inside
        refine (openLater other inside).extended usable extended fun same => ?_
        obtain rfl : start = other := Option.some.inj same
        exact alone inside
      have runs : between.endNode? = none := extended.endNode?_eq_none running (by simp [planned])
      have heads : between.heads = [graph.nextId] := by
        rw [extended.heads_eq]
        exact Graph.headsAfter_eq_singleton all
      obtain ⟨after, done, rest, last⟩ :=
        ih [graph.nextId] (extended.isUsable usable) runs nodup still (by simp)
          (by simp) (by simpa using here) (by simp [heads])
      rw [next] at done rest last
      refine ⟨after, applied after _ done, .more extended rfl ?_ rest, last⟩
      simp [Action.Storable]

/-! ### What is planned -/

section Make

variable {graph : Graph}

theorem make_of_ended {last : Node} (ended : graph.endNode? = some last) (reason : String) :
    make graph reason = ⟨[]⟩ := by
  rw [make, ended]
  rfl

/-- Only for a flow that has ended is nothing planned. -/
theorem nodes_make_eq_nil_iff [Numbering] (graph : Graph) (reason : String) :
    (make graph reason).nodes = [] ↔ graph.endNode?.isSome = true := by
  constructor
  · intro none
    refine Decidable.byContradiction fun running => ?_
    rw [make, if_neg running] at none
    simp at none
  · intro ended
    rw [make, if_pos ended]

/-- The node that begins the flow of a run of which nothing is left. -/
def startNode (next : Nat) : Node :=
  { id := next, kind := .flowStart, name := flowStartName, parents := [] }

theorem openBlocks_of_isEmpty (none : graph.isEmpty = true) (heads : List Nat) :
    graph.openBlocks heads = [] :=
  List.eq_nil_iff_forall_not_mem.2 fun start inside => by
    obtain ⟨node, stored, -⟩ := (graph.openBlocks_spec heads).2 start inside
    exact Graph.not_contains_of_isEmpty none start (Graph.contains_of_get? stored)

/-- Where nothing is left, the flow is begun and ended. -/
theorem make_of_isEmpty (none : graph.isEmpty = true) (reason : String) :
    make graph reason =
      ⟨[startNode graph.nextId, lastNode reason (graph.nextId + 1) [graph.nextId]]⟩ := by
  have running : graph.endNode? = .none := (graph.endNode?_eq_none_iff).2 fun id node stored =>
    absurd (Graph.contains_of_get? stored) (Graph.not_contains_of_isEmpty none id)
  rw [make, running, none]
  simp only [Option.isSome_none, if_true, openBlocks_of_isEmpty none]
  rfl

/-- Where something is left, the open blocks that can be reached are closed, and the flow is
ended. -/
theorem make_of_some (usable : graph.IsUsable) (some : graph.isEmpty = false)
    (running : graph.endNode? = none) (reason : String) :
    let ends := blockEnds graph reason (graph.openBlocks graph.heads) graph.nextId graph.heads
    make graph reason = ⟨ends.1 ++ [lastNode reason ends.2.1 ends.2.2]⟩ := by
  rw [make, running, some]
  simp only [Option.isSome_none, if_false, usable.usableHeads_eq some, Bool.false_eq_true]
  rfl

end Make

/-- The plan that is made from a graph that can be used applies to it in full.  The node that ends
the flow is then the only head. -/
theorem apply_make_of_isUsable {graph : Graph} (usable : graph.IsUsable) (reason : String) :
    ∃ after, (make graph reason).apply graph = (after, .ok (make graph reason).nodes) ∧
      graph.ExtendsBy (make graph reason).nodes after ∧
      ∀ last, (make graph reason).nodes.getLast? = some last → after.heads = [last.id] := by
  cases ended : graph.endNode? with
  | some last =>
      rw [make_of_ended ended]
      exact ⟨graph, rfl, .none graph, by simp⟩
  | none =>
      cases none : graph.isEmpty with
      | false =>
          rw [make_of_some usable none ended]
          obtain ⟨nodup, opened⟩ := graph.openBlocks_spec graph.heads
          obtain ⟨after, applied, extended, heads⟩ := applyNodes_ends graph reason _ graph.heads
            usable ended nodup opened (usable.heads_ne_nil none) usable.heads_nodup
            usable.heads_stored fun _ => id
          refine ⟨after, applied, extended, ?_⟩
          intro last same
          rw [List.getLast?_concat] at same
          rw [heads, ← Option.some.inj same]
          rfl
      | true =>
          rw [make_of_isEmpty none]
          have grows : graph.checkGrowth .flowStart [] = .ok () := by
            unfold Graph.checkGrowth
            simp [none, pure, Except.pure]
          obtain ⟨between, extended, applied⟩ := applyNodes_cons
            (startNode graph.nextId) usable grows rfl rfl
            [lastNode reason (graph.nextId + 1) [graph.nextId]]
          have heads : between.heads = [graph.nextId] := by
            rw [extended.heads_eq, usable.heads_eq_nil none]
            rfl
          have begun : between.contains graph.nextId = true :=
            Graph.contains_of_get? extended.stored
          obtain ⟨after, done, rest, last⟩ := applyNodes_ends graph reason []
            [graph.nextId] (extended.isUsable usable)
            (extended.endNode?_eq_none ended (by simp [startNode])) List.nodup_nil (by simp)
            (by simp) (by simp) (by simpa using begun) (by simp [heads])
          rw [extended.nextId_eq] at done rest last
          refine ⟨after, applied after _ done, .more extended rfl (by simp [startNode]) rest, ?_⟩
          intro node same
          obtain rfl := Option.some.inj same
          exact last

/-- The plan that is made from a well-formed graph applies to it in full. -/
theorem apply_make {graph : Graph} (well : graph.WellFormed) (reason : String) :
    ∃ after nodes, (make graph reason).apply graph = (after, .ok nodes) ∧
      graph.ExtendsBy nodes after := by
  obtain ⟨after, applied, extended, -⟩ := apply_make_of_isUsable well.isUsable reason
  exact ⟨after, _, applied, extended⟩

end RepairPlan

namespace Graph

/-- What a repair makes of a graph. -/
def repaired (graph : Graph) (reason : String) : Graph :=
  ((RepairPlan.make graph reason).apply graph).1

variable {graph : Graph}

/-- The repair of a graph that can be used goes through. -/
theorem IsUsable.apply_make (usable : graph.IsUsable) (reason : String) :
    (RepairPlan.make graph reason).apply graph =
      (graph.repaired reason, .ok (RepairPlan.make graph reason).nodes) := by
  obtain ⟨after, applied, -⟩ := RepairPlan.apply_make_of_isUsable usable reason
  rw [repaired, applied]

/-- It appends the planned nodes. -/
theorem IsUsable.extendsBy_repaired (usable : graph.IsUsable) (reason : String) :
    graph.ExtendsBy (RepairPlan.make graph reason).nodes (graph.repaired reason) := by
  obtain ⟨after, applied, extended, -⟩ := RepairPlan.apply_make_of_isUsable usable reason
  rwa [repaired, applied]

/-- The last of them is then the only head. -/
theorem IsUsable.heads_repaired (usable : graph.IsUsable) {reason : String} {last : Node}
    (planned : (RepairPlan.make graph reason).nodes.getLast? = some last) :
    (graph.repaired reason).heads = [last.id] := by
  obtain ⟨after, applied, -, heads⟩ := RepairPlan.apply_make_of_isUsable usable reason
  rw [repaired, applied]
  exact heads last planned

end Graph
end DurableRuns
