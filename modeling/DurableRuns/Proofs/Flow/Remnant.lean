/-
# DurableRuns.Proofs.Flow.Remnant -- the repair of whatever is left of a graph

A *remnant* is what `Graph.ofParts` makes of some nodes of an intact graph and of any recorded
heads: there may be gaps, and heads under which nothing is stored.  Its heads to go on from are
nevertheless heads of a graph that can be used (`isRemnant_ofParts`), and a plan looks at no
others: which nodes are planned and admitted does not depend on the recorded heads
(`RepairPlan.applyNodes_withHeads`).

Main statement: `Graph.repairs_whatever_is_left`.  `Graph.Repairs` says all that a repair comes to.
-/
import DurableRuns.Proofs.Flow.AppendOnly
import DurableRuns.Proofs.Flow.Repaired

namespace DurableRuns

set_option autoImplicit false

/-! ## Growing does not depend on the heads -/

namespace Graph

/-- The graph with other heads. -/
def withHeads (graph : Graph) (heads : List Nat) : Graph := { graph with heads }

theorem checkParents_withHeads (graph : Graph) (heads earlier parents : List Nat) :
    (graph.withHeads heads).checkParents earlier parents = graph.checkParents earlier parents := by
  induction parents generalizing earlier with
  | nil => rfl
  | cons parent rest ih =>
      rw [checkParents, checkParents]
      simp only [ih]
      rfl

theorem checkGrowth_withHeads (graph : Graph) (heads : List Nat) (kind : NodeKind)
    (parents : List Nat) :
    (graph.withHeads heads).checkGrowth kind parents = graph.checkGrowth kind parents := by
  unfold checkGrowth
  rw [checkParents_withHeads]
  rfl

theorem usableHeads_of_isEmpty {graph : Graph} (none : graph.isEmpty = true) :
    graph.usableHeads = [] := by
  have absent : graph.heads.filter graph.contains = [] :=
    List.filter_eq_nil_iff.2 fun head _ => not_contains_of_isEmpty none head
  have nothing : graph.nodes = [] := List.isEmpty_iff.1 none
  simp [usableHeads, absent, childless, nothing]

theorem mem_usableHeads {graph : Graph} {id : Nat} (inside : id ∈ graph.heads)
    (there : graph.contains id = true) : id ∈ graph.usableHeads := by
  have resolved : id ∈ graph.heads.filter graph.contains := List.mem_filter.2 ⟨inside, there⟩
  have some : (graph.heads.filter graph.contains).isEmpty = false :=
    List.isEmpty_eq_false_iff.2 (List.ne_nil_of_mem resolved)
  rw [usableHeads]
  simp only [some, Bool.false_eq_true, if_false]
  exact resolved

/-- The heads after several appends. -/
def headsOver : List Node → List Nat → List Nat
  | [], heads => heads
  | node :: later, heads => headsOver later (headsAfter node.id node.parents heads)

theorem append_withHeads (graph : Graph) (heads : List Nat) (kind : NodeKind) (parents : List Nat)
    (name : String) :
    (graph.withHeads heads).append kind parents name =
      (graph.append kind parents name).map fun grown =>
        (grown.1.withHeads (headsAfter grown.2.id parents heads), grown.2) := by
  rw [append_eq, append_eq, checkGrowth_withHeads]
  cases graph.checkGrowth kind parents <;> rfl

theorem attach_withHeads (graph : Graph) (heads : List Nat) (id : Nat) (action : Action) :
    (graph.withHeads heads).attach id action =
      (graph.attach id action).map fun changed => (changed.1.withHeads heads, changed.2) := by
  have found : (graph.withHeads heads).find id = graph.find id := rfl
  rw [attach_eq, attach_eq, found]
  cases graph.find id <;> rfl

end Graph

namespace RepairPlan

open DurableRuns.Graph

theorem attachAll_withHeads (graph : Graph) (heads : List Nat) (id : Nat)
    (actions : List Action) :
    attachAll (graph.withHeads heads) id actions =
      (attachAll graph id actions).withHeads heads := by
  induction actions generalizing graph with
  | nil => rfl
  | cons action rest ih =>
      rw [attachAll_cons, attachAll_cons, attach_withHeads]
      cases graph.attach id action with
      | error fault => rfl
      | ok changed => exact ih changed.1

/-- Planned nodes that a graph takes are taken by every graph of the same nodes. -/
theorem applyNodes_withHeads {planned : List Node} {graph after : Graph} {stored : List Node}
    (applied : applyNodes planned graph = (after, .ok stored)) (heads : List Nat) :
    applyNodes planned (graph.withHeads heads) =
      (after.withHeads (headsOver planned heads), .ok stored) := by
  induction planned generalizing graph heads stored with
  | nil =>
      cases applied
      rfl
  | cons first rest ih =>
      rw [applyNodes_eq] at applied ⊢
      rw [append_withHeads]
      cases appended : graph.append first.kind first.parents first.name with
      | error fault =>
          rw [appended] at applied
          cases applied
      | ok grown =>
          obtain ⟨between, node⟩ := grown
          rw [appended] at applied
          dsimp only [Except.map] at applied ⊢
          split at applied
          · cases applied
          next number =>
            rw [if_neg number, attachAll_withHeads]
            split at applied
            next left later rests =>
              cases applied
              have number : node.id = first.id := Decidable.not_not.1 number
              rw [ih rests, number, headsOver]
              rfl
            next left fault rests => cases applied

theorem blockEnds_withHeads (graph : Graph) (heads : List Nat) (reason : String)
    (starts : List Nat) (next : Nat) (parents : List Nat) :
    blockEnds (graph.withHeads heads) reason starts next parents =
      blockEnds graph reason starts next parents := by
  induction starts generalizing next parents with
  | nil => rfl
  | cons start rest ih =>
      rw [blockEnds, blockEnds, ih]
      rfl

/-- A plan is made from the nodes and the heads to go on from. -/
theorem make_withHeads {graph : Graph} {heads : List Nat}
    (same : (graph.withHeads heads).usableHeads = graph.usableHeads) (reason : String) :
    make (graph.withHeads heads) reason = make graph reason := by
  unfold make
  simp only [same, blockEnds_withHeads]
  rfl

end RepairPlan

/-! ## Nodes that follow one another -/

namespace Graph

/-- Each node follows the one before and no other, and the first one the given parents. -/
def Follow : List Nat → List Node → Prop
  | _, [] => True
  | parents, node :: later => node.parents = parents ∧ Follow [node.id] later

section Follow

variable {parents : List Nat} {nodes : List Node} {last : Node}

/-- Every parent is one that the first node follows, or one of the nodes. -/
theorem Follow.parent (follow : Follow parents nodes) {node : Node} (inside : node ∈ nodes)
    {parent : Nat} (above : parent ∈ node.parents) :
    parent ∈ parents ∨ ∃ other ∈ nodes, other.id = parent := by
  induction nodes generalizing parents with
  | nil => cases inside
  | cons first rest ih =>
      obtain ⟨same, later⟩ := follow
      rcases List.mem_cons.1 inside with rfl | member
      · exact .inl (same ▸ above)
      · rcases ih later member with before | ⟨other, among, number⟩
        · exact .inr ⟨first, List.mem_cons_self, (List.mem_singleton.1 before).symm⟩
        · exact .inr ⟨other, List.mem_cons_of_mem _ among, number⟩

/-- The last node leads back to all that the first one follows. -/
theorem Follow.reaches (follow : Follow parents (nodes ++ [last])) {table : NodeTable}
    (stored : ∀ node ∈ nodes ++ [last], table.get? node.id = some node) {parent : Nat}
    (inside : parent ∈ parents) : Scan.Reaches table [last.id] parent := by
  induction nodes generalizing parents parent with
  | nil =>
      have here : Scan.Reaches table [last.id] last.id := .head List.mem_cons_self
      exact here.parent (stored last (by simp)) (follow.1 ▸ inside)
  | cons first rest ih =>
      obtain ⟨same, later⟩ := follow
      obtain ⟨there, others⟩ := List.forall_mem_cons.1 stored
      exact (ih later others List.mem_cons_self).parent there (same ▸ inside)

/-- The last node becomes a head, and no head remains that the first one follows. -/
theorem Follow.of_mem_headsOver (follow : Follow parents (nodes ++ [last])) {heads : List Nat}
    {id : Nat} (inside : id ∈ headsOver (nodes ++ [last]) heads) :
    id = last.id ∨ id ∈ heads ∧ id ∉ parents := by
  induction nodes generalizing parents heads with
  | nil => exact follow.1 ▸ mem_headsAfter_iff.1 inside
  | cons first rest ih =>
      obtain ⟨same, later⟩ := follow
      refine (ih later inside).imp_right fun ⟨between, other⟩ => ?_
      rcases mem_headsAfter_iff.1 between with rfl | before
      · exact absurd List.mem_cons_self other
      · exact same ▸ before

theorem mem_headsOver_last (nodes : List Node) (last : Node) (heads : List Nat) :
    last.id ∈ headsOver (nodes ++ [last]) heads := by
  induction nodes generalizing heads with
  | nil => exact mem_headsAfter_self ..
  | cons first rest ih => exact ih _

/-- Nodes with numbers above the heads keep the heads apart. -/
theorem nodup_headsOver {next : Nat} {heads : List Nat} (nodup : heads.Nodup)
    (below : ∀ head ∈ heads, head < next)
    (numbers : nodes.map (·.id) = List.range' next nodes.length) :
    (headsOver nodes heads).Nodup := by
  induction nodes generalizing next heads with
  | nil => exact nodup
  | cons first rest ih =>
      rw [List.map_cons, List.length_cons, List.range'_succ] at numbers
      obtain ⟨number, numbers⟩ := List.cons.inj numbers
      refine ih (nodup_headsAfter nodup fun again => ?_) (fun head inside => ?_) numbers
      · have lower := below _ again
        omega
      · rcases mem_of_mem_headsAfter inside with rfl | old
        · omega
        · exact Nat.lt_succ_of_lt (below head old)

end Follow

/-- Appended nodes are numbered one after the other. -/
theorem ExtendsBy.map_id {before after : Graph} {nodes : List Node}
    (extended : before.ExtendsBy nodes after) :
    nodes.map (·.id) = List.range' before.nextId nodes.length := by
  induction extended with
  | none graph => rfl
  | more first _ _ _ ih =>
      rw [List.map_cons, List.length_cons, List.range'_succ, ih, first.id_eq, first.nextId_eq]

/-! ## What is reached after several appends -/

/-- Only heads that are there lead anywhere. -/
theorem reaches_of_stored {table : NodeTable} {heads others : List Nat}
    (stored : ∀ head ∈ heads, table.contains head = true → head ∈ others) {id : Nat}
    (reached : Scan.Reaches table heads id) (there : table.contains id = true) :
    Scan.Reaches table others id := by
  induction reached with
  | head inside => exact .head (stored _ inside there)
  | parent _ found inside ih =>
      exact (ih ((table.contains_iff _).2 ⟨_, found⟩)).parent found inside

namespace ExtendsBy

variable {before after : Graph} {nodes : List Node} {last : Node}

theorem opensBlock_eq_false (extended : before.ExtendsBy nodes after) :
    ∀ node ∈ nodes, node.kind.opensBlock = false := by
  induction extended with
  | none graph => simp
  | more _ closed _ _ ih => exact List.forall_mem_cons.2 ⟨closed, ih⟩

/-- From the last of the nodes that were appended after all heads, they and what was reached
before are reached, and nothing else. -/
theorem reaches_cases (extended : before.ExtendsBy (nodes ++ [last]) after)
    (usable : before.IsUsable) (follow : Follow before.heads (nodes ++ [last])) {id : Nat}
    (reached : Scan.Reaches after.table [last.id] id) :
    (∃ node ∈ nodes ++ [last], node.id = id) ∨ Scan.Reaches before.table before.heads id := by
  induction reached with
  | head inside => exact .inl ⟨last, by simp, (List.mem_singleton.1 inside).symm⟩
  | @parent id child parent _ stored inside ih =>
      have ofNew {node : Node} (new : node ∈ nodes ++ [last]) (same : node.id = id) :
          (∃ node ∈ nodes ++ [last], node.id = parent) ∨
            Scan.Reaches before.table before.heads parent := by
        subst same
        obtain rfl := Option.some.inj ((extended.stored usable node new).symm.trans stored)
        exact (follow.parent new inside).symm.imp_right .head
      rcases ih with ⟨node, new, same⟩ | old
      · exact ofNew new same
      · rcases (extended.contains_iff usable id).1 (contains_of_get? stored) with
          there | ⟨node, new, same⟩
        · obtain ⟨found, was⟩ := (before.contains_iff id).1 there
          obtain ⟨later, is, stays⟩ := extended.growsTo usable id found was
          obtain rfl := Option.some.inj (stored.symm.trans is)
          exact .inr (old.parent was (stays.parents_eq ▸ inside))
        · exact ofNew new same

theorem reaches (extended : before.ExtendsBy (nodes ++ [last]) after) (usable : before.IsUsable)
    (follow : Follow before.heads (nodes ++ [last])) {id : Nat}
    (reached : Scan.Reaches before.table before.heads id) :
    Scan.Reaches after.table [last.id] id := by
  induction reached with
  | head inside => exact follow.reaches (extended.stored usable) inside
  | @parent id child parent _ stored inside ih =>
      obtain ⟨later, is, stays⟩ := extended.growsTo usable id child stored
      exact ih.parent is (stays.parents_eq ▸ inside)

end ExtendsBy

/-- The blocks that a repair closes come in descending order. -/
theorem openBlocks_descending (graph : Graph) (heads : List Nat) :
    (graph.openBlocks heads).Pairwise (· > ·) := by
  have sorted : (graph.openBlocks heads).Pairwise fun a b => decide (b ≤ a) = true :=
    List.pairwise_mergeSort (by simp; omega) (by simp; omega) _
  refine (sorted.and (graph.openBlocks_spec heads).1).imp fun {a b} both => ?_
  have le : b ≤ a := by simpa using both.1
  exact Nat.lt_of_le_of_ne le both.2.symm

end Graph

/-! ## What is planned -/

namespace RepairPlan

open DurableRuns.Graph

/-- The node closes a block as failed, under the name of the block. -/
structure ClosesAsFailed (graph : Graph) (reason : String) (start : Nat) (closing : Node) :
    Prop where
  kind_eq : closing.kind = .stepEnd start
  name_eq : ∃ opener, graph.get? start = some opener ∧ closing.name = opener.name
  actions_eq : closing.actions = [.abnormalClosure reason]

theorem blockEnds_forall₂ {graph : Graph} (reason : String) {starts : List Nat} (next : Nat)
    (parents : List Nat) (opened : ∀ start ∈ starts, graph.IsOpen start) :
    List.Forall₂ (ClosesAsFailed graph reason) starts
      (blockEnds graph reason starts next parents).1 := by
  induction starts generalizing next parents with
  | nil => exact .nil
  | cons start rest ih =>
      obtain ⟨⟨opener, stored, -⟩, later⟩ := List.forall_mem_cons.1 opened
      refine .cons ⟨rfl, ⟨opener, stored, ?_⟩, rfl⟩ (ih _ _ later)
      simp [stored]

theorem follow_blockEnds (graph : Graph) (reason : String) (starts : List Nat) (next : Nat)
    (parents : List Nat) :
    let ends := blockEnds graph reason starts next parents
    Follow parents (ends.1 ++ [lastNode reason ends.2.1 ends.2.2]) := by
  induction starts generalizing next parents with
  | nil => exact ⟨rfl, trivial⟩
  | cons start rest ih => exact ⟨rfl, ih (next + 1) [next]⟩

/-- Where something is left, the open blocks that are reached from the heads to go on from are
closed, and the flow is ended. -/
theorem make_of_stored {graph : Graph} (some : graph.isEmpty = false)
    (running : graph.endNode? = none) (reason : String) :
    let ends := blockEnds graph reason (graph.openBlocks graph.usableHeads) graph.nextId
      graph.usableHeads
    make graph reason = ⟨ends.1 ++ [lastNode reason ends.2.1 ends.2.2]⟩ := by
  rw [make, running, some]
  rfl

end RepairPlan

/-- The parts of a repair: the blocks that are closed, and the nodes that begin the flow, close the
blocks and end the flow. -/
structure Repair where
  starts : List Nat
  begun : List Node
  ends : List Node
  last : Node

/-- The nodes of a repair, in order. -/
def Repair.nodes (repair : Repair) : List Node := repair.begun ++ repair.ends ++ [repair.last]

namespace Graph

open RepairPlan (make startNode ClosesAsFailed)

/-- What the plan for a graph consists of. -/
structure Plans (graph : Graph) (reason : String) (repair : Repair) : Prop where
  planned : (make graph reason).nodes = repair.nodes
  descending : repair.starts.Pairwise (· > ·)
  /-- The blocks are those that are reached, note no end and are closed by no reached node. -/
  mem_starts_iff : ∀ start, start ∈ repair.starts ↔
    graph.IsOpen start ∧ Scan.Reaches graph.table graph.usableHeads start ∧
      ∀ closing, Scan.Reaches graph.table graph.usableHeads closing → ¬ graph.Closes closing start
  /-- The flow is begun anew where nothing is left of it. -/
  begun_eq : repair.begun = if graph.isEmpty then [startNode graph.nextId] else []
  closes : List.Forall₂ (ClosesAsFailed graph reason) repair.starts repair.ends
  last_kind : repair.last.kind = .flowEnd
  last_actions : repair.last.actions = [.error reason, .abnormalClosure reason]
  numbers : repair.nodes.map (·.id) = List.range' graph.nextId repair.nodes.length
  /-- Each node follows the one before, and the first one all heads to go on from. -/
  follow : Follow graph.usableHeads repair.nodes

/-- What a graph is after a repair. -/
structure Repairs (graph : Graph) (repair : Repair) (after : Graph) : Prop where
  stored : ∀ node ∈ repair.nodes, after.get? node.id = some node
  /-- A closed block notes the one node that closes it. -/
  noted : ∀ start ∈ repair.starts, ∃ opener closing, graph.get? start = some opener ∧
    (∀ node, node ∈ repair.nodes ∧ node.kind = .stepEnd start ↔ node = closing) ∧
    after.get? start = some (opener.attach (.blockEnd closing.id))
  /-- All else is as it was. -/
  others : ∀ id, graph.contains id = true → id ∉ repair.starts → after.get? id = graph.get? id
  contains_iff : ∀ id, after.contains id = true ↔
    graph.contains id = true ∨ ∃ node ∈ repair.nodes, node.id = id
  flowEnd_iff : ∀ id, after.HasKind id .flowEnd ↔ id = repair.last.id
  /-- The flow end is the only head that is there. -/
  heads : after.heads.filter after.contains = [repair.last.id]
  noneOpen : after.openBlocks after.heads = []

/-- Nodes and recorded heads that a run can be taken up from, although nodes may be missing. -/
structure IsRemnant (graph : Graph) : Prop where
  usable : (graph.withHeads graph.usableHeads).IsUsable
  heads_nodup : graph.heads.Nodup
  heads_lt : ∀ head ∈ graph.heads, head < graph.nextId

/-- Orderly nodes and any recorded heads make up a remnant. -/
theorem isRemnant_ofParts {nodes : List Node} {bound : Nat}
    (orderly : (NodeTable.ofList nodes).IsOrderly bound) {heads : List Nat} (nodup : heads.Nodup) :
    (ofParts nodes heads).IsRemnant := by
  have parts : ofParts (NodeTable.ofList nodes).nodes heads = ofParts nodes heads := by
    rw [ofParts, ofParts, NodeTable.ofList_nodes]
  have regained : regain (NodeTable.ofList nodes) heads =
      (ofParts nodes heads).withHeads (ofParts nodes heads).usableHeads := by
    rw [regain, parts]
    rfl
  refine ⟨regained ▸ isUsable_regain orderly nodup, nodup, fun head inside => ?_⟩
  have below : head < (regain (NodeTable.ofList nodes) heads).nextId :=
    lt_nextId_regain (List.mem_append_right _ inside)
  rwa [regained] at below

namespace IsRemnant

variable {graph : Graph}

theorem usableHeads_eq (remnant : graph.IsRemnant) :
    (graph.withHeads graph.usableHeads).usableHeads = graph.usableHeads := by
  cases none : graph.isEmpty with
  | false => exact remnant.usable.usableHeads_eq none
  | true =>
      rw [usableHeads_of_isEmpty none]
      exact usableHeads_of_isEmpty none

section Repaired

variable {reason : String} {repair : Repair}

/-- The plan for a remnant without a flow end. -/
theorem plans (remnant : graph.IsRemnant) (running : graph.endNode? = none) (reason : String) :
    ∃ repair, graph.Plans reason repair := by
  have extended := remnant.usable.extendsBy_repaired reason
  rw [RepairPlan.make_withHeads remnant.usableHeads_eq] at extended
  have numbers := extended.map_id
  have descending := graph.openBlocks_descending graph.usableHeads
  have members := graph.mem_openBlocks_iff graph.usableHeads
  cases none : graph.isEmpty with
  | true =>
      have nothing := RepairPlan.openBlocks_of_isEmpty none graph.usableHeads
      have planned := RepairPlan.make_of_isEmpty none reason
      rw [planned] at numbers
      let repair : Repair := ⟨graph.openBlocks graph.usableHeads, [startNode graph.nextId], [],
        RepairPlan.lastNode reason (graph.nextId + 1) [graph.nextId]⟩
      have closes : List.Forall₂ (ClosesAsFailed graph reason) repair.starts repair.ends := by
        show List.Forall₂ _ (graph.openBlocks graph.usableHeads) []
        rw [nothing]
        exact .nil
      have follow : Follow graph.usableHeads repair.nodes := by
        rw [usableHeads_of_isEmpty none]
        exact ⟨rfl, rfl, trivial⟩
      exact ⟨repair, congrArg RepairPlan.nodes planned, descending, members, by rw [none]; rfl,
        closes, rfl, rfl, numbers, follow⟩
  | false =>
      have planned : make graph reason = _ := RepairPlan.make_of_stored none running reason
      rw [planned] at numbers
      let ends := RepairPlan.blockEnds graph reason (graph.openBlocks graph.usableHeads)
        graph.nextId graph.usableHeads
      let repair : Repair := ⟨graph.openBlocks graph.usableHeads, [], ends.1,
        RepairPlan.lastNode reason ends.2.1 ends.2.2⟩
      have closes : List.Forall₂ (ClosesAsFailed graph reason) repair.starts repair.ends :=
        RepairPlan.blockEnds_forall₂ reason graph.nextId graph.usableHeads
          (graph.openBlocks_spec graph.usableHeads).2
      have follow : Follow graph.usableHeads repair.nodes :=
        RepairPlan.follow_blockEnds graph reason _ graph.nextId graph.usableHeads
      exact ⟨repair, congrArg RepairPlan.nodes planned, descending, members, by rw [none]; rfl,
        closes, rfl, rfl, numbers, follow⟩

section Extended

variable {grown : Graph} (remnant : graph.IsRemnant) (plans : graph.Plans reason repair)

include remnant plans

/-- What is planned is made from the heads to go on from alone. -/
theorem planned : (make (graph.withHeads graph.usableHeads) reason).nodes = repair.nodes := by
  rw [RepairPlan.make_withHeads remnant.usableHeads_eq]
  exact plans.planned

/-- After the planned nodes the flow end is the only head that is there.  Recorded heads that are
not there stay, and number nothing later either. -/
theorem filter_headsOver
    (extended : (graph.withHeads graph.usableHeads).ExtendsBy repair.nodes grown) :
    (headsOver repair.nodes graph.heads).filter grown.contains = [repair.last.id] := by
  have usable := remnant.usable
  have last : repair.last ∈ repair.nodes := List.mem_append_right _ List.mem_cons_self
  have members (id : Nat) : id ∈ (headsOver repair.nodes graph.heads).filter grown.contains ↔
      id ∈ [repair.last.id] := by
    rw [List.mem_filter, List.mem_singleton]
    constructor
    · rintro ⟨inside, there⟩
      refine (plans.follow.of_mem_headsOver inside).resolve_right fun ⟨recorded, unused⟩ => ?_
      rcases (extended.contains_iff usable id).1 there with old | ⟨node, new, rfl⟩
      · exact unused (mem_usableHeads recorded old)
      · have below := remnant.heads_lt _ recorded
        have above : graph.nextId ≤ node.id := extended.nextId_le_id node new
        omega
    · rintro rfl
      exact ⟨mem_headsOver_last .., contains_of_get? (extended.stored usable _ last)⟩
  have nodup := (nodup_headsOver remnant.heads_nodup remnant.heads_lt plans.numbers).filter
    grown.contains
  exact List.perm_singleton.1
    ((List.perm_ext_iff_of_nodup nodup (by simp)).2 members)

variable (running : graph.endNode? = none)
  (extended : (graph.withHeads graph.usableHeads).ExtendsBy repair.nodes grown)

include running

theorem exists_closing_iff (start : Nat) :
    (∃ node ∈ repair.nodes, node.kind = .stepEnd start) ↔ start ∈ repair.starts := by
  have planned := RepairPlan.exists_closing_iff remnant.usable running reason start
  rw [remnant.planned plans] at planned
  exact planned.trans
    ((graph.mem_openBlocks_iff graph.usableHeads start).trans (plans.mem_starts_iff start).symm)

include extended

/-- A closed block notes the one node that closes it. -/
theorem noted {start : Nat} (inside : start ∈ repair.starts) :
    ∃ opener closing, graph.get? start = some opener ∧
      (∀ node, node ∈ repair.nodes ∧ node.kind = .stepEnd start ↔ node = closing) ∧
      grown.get? start = some (opener.attach (.blockEnd closing.id)) := by
  have usable := remnant.usable
  have once := RepairPlan.make_closes_once usable running reason
  rw [remnant.planned plans] at once
  obtain ⟨closing, member, kind⟩ := (remnant.exists_closing_iff plans running start).2 inside
  obtain ⟨opener, stored, -, noted⟩ := extended.get?_of_closed_once usable once member
    (NodeKind.closes_eq_some_iff.2 kind)
  refine ⟨opener, closing, stored, fun node => ⟨?_, ?_⟩, noted⟩
  · -- Both of two nodes that close the block would be noted by it.
    rintro ⟨among, named⟩
    obtain ⟨old, -, -, notedToo⟩ := extended.get?_of_closed_once usable once among
      (NodeKind.closes_eq_some_iff.2 named)
    have number := congrArg Node.blockEnd? (Option.some.inj (notedToo.symm.trans noted))
    rw [Node.blockEnd?_attach_blockEnd, Node.blockEnd?_attach_blockEnd] at number
    have there := extended.stored usable node among
    rw [Option.some.inj number] at there
    exact Option.some.inj (there.symm.trans (extended.stored usable closing member))
  · rintro rfl
    exact ⟨member, kind⟩

theorem get?_of_not_mem_starts {id : Nat} (there : graph.contains id = true)
    (none : id ∉ repair.starts) : grown.get? id = graph.get? id := by
  obtain ⟨node, stored⟩ := (graph.contains_iff id).1 there
  rw [stored]
  refine extended.get?_of_stored remnant.usable stored fun closing inside closes => none ?_
  exact (remnant.exists_closing_iff plans running id).1
    ⟨closing, inside, NodeKind.closes_eq_some_iff.1 closes⟩

/-- No block that is reached from the new heads is open: the closed ones are noted, and what was
closed by a node that was reached before is closed by one that is still reached. -/
theorem openBlocks_eq_nil :
    grown.openBlocks (headsOver repair.nodes graph.heads) = [] := by
  have usable := remnant.usable
  have heads := remnant.filter_headsOver plans extended
  refine List.eq_nil_iff_forall_not_mem.2 fun start inside => ?_
  obtain ⟨⟨opener, stored, opens, unclosed⟩, reached, unnamed⟩ :=
    (mem_openBlocks_iff _ _ start).1 inside
  have there := contains_of_get? stored
  have fromLast : Scan.Reaches grown.table [repair.last.id] start :=
    reaches_of_stored (fun head among known => heads ▸ List.mem_filter.2 ⟨among, known⟩) reached
      there
  have older : ¬ ∃ node ∈ repair.nodes, node.id = start := by
    rintro ⟨node, new, rfl⟩
    obtain rfl := Option.some.inj (stored.symm.trans (extended.stored usable node new))
    cases opens.symm.trans (extended.opensBlock_eq_false opener new)
  have before : Scan.Reaches graph.table graph.usableHeads start :=
    (extended.reaches_cases usable plans.follow fromLast).resolve_left older
  have old : graph.contains start = true :=
    ((extended.contains_iff usable start).1 there).resolve_right older
  by_cases closed : start ∈ repair.starts
  · obtain ⟨was, closing, -, -, noted⟩ := remnant.noted plans running extended closed
    obtain rfl := Option.some.inj (stored.symm.trans noted)
    cases unclosed.symm.trans (was.blockEnd?_attach_blockEnd closing.id)
  · rw [remnant.get?_of_not_mem_starts plans running extended old closed] at stored
    refine closed ((plans.mem_starts_iff start).2
      ⟨⟨opener, stored, opens, unclosed⟩, before, fun closing reachedToo closes => ?_⟩)
    obtain ⟨node, found, kind⟩ := (extended.growsTo usable).hasKind closes
    have last : repair.last.id ∈ headsOver repair.nodes graph.heads := mem_headsOver_last ..
    refine unnamed closing (reaches_of_stored ?_ (extended.reaches usable plans.follow reachedToo)
      (contains_of_get? found)) ⟨node, found, kind⟩
    exact fun head only _ => List.mem_singleton.1 only ▸ last

end Extended

/-- The plan for a remnant applies in full, and what it comes to. -/
theorem repairs (remnant : graph.IsRemnant) (running : graph.endNode? = none)
    (plans : graph.Plans reason repair) :
    ∃ after, (make graph reason).apply graph = (after, .ok repair.nodes) ∧
      graph.Repairs repair after := by
  have usable := remnant.usable
  have applied := usable.apply_make reason
  have extended := usable.extendsBy_repaired reason
  have ends := endsFlow_repaired_of_running usable
    ((graph.endNode?_eq_none_iff_hasKind).1 running) reason
  rw [remnant.planned plans] at extended
  rw [RepairPlan.apply, remnant.planned plans] at applied
  generalize (graph.withHeads graph.usableHeads).repaired reason = grown at *
  refine ⟨grown.withHeads (headsOver repair.nodes graph.heads), ?_, ?_⟩
  · rw [RepairPlan.apply, plans.planned]
    exact RepairPlan.applyNodes_withHeads applied graph.heads
  constructor
  case stored => exact extended.stored usable
  case noted => exact fun start => remnant.noted plans running extended
  case others => exact fun id => remnant.get?_of_not_mem_starts plans running extended
  case contains_iff => exact extended.contains_iff usable
  case flowEnd_iff =>
    obtain ⟨id, -, only⟩ := ends
    have here : repair.last.id = id :=
      (only _).1 ⟨repair.last, extended.stored usable _ (by simp [Repair.nodes]), plans.last_kind⟩
    exact here ▸ only
  case heads =>
    show (headsOver repair.nodes graph.heads).filter grown.contains = _
    exact remnant.filter_headsOver plans extended
  case noneOpen =>
    show grown.openBlocks (headsOver repair.nodes graph.heads) = []
    exact remnant.openBlocks_eq_nil plans running extended

end Repaired

end IsRemnant

/-! ## Remnants of intact graphs -/

variable {graph : Graph}

/-- Where numbers grow along every edge, some of the nodes and any recorded heads make up a
remnant. -/
theorem PointsBack.isRemnant_ofParts (back : graph.PointsBack) {kept : List Node}
    (subset : ∀ node ∈ kept, node ∈ graph.nodes) {heads : List Nat} (nodup : heads.Nodup) :
    (ofParts kept heads).IsRemnant := by
  obtain ⟨bound, below⟩ := graph.exists_bound
  have stored (node : Node) (inside : node ∈ kept) : graph.get? node.id = some node :=
    (graph.table.mem_nodes_iff node).1 (subset node inside)
  -- Whether the nodes can be written does not matter here, so the bound is above 64 bits.
  have orderly : (NodeTable.ofList kept).IsOrderly (bound + UInt64.size + 1) := by
    intro id node found
    rw [NodeTable.get?_ofList] at found
    have inside := List.mem_reverse.1 (List.mem_of_find?_eq_some found)
    have lower := below node.id (contains_of_get? (stored node inside))
    exact ⟨by omega, fun parent => back.parent_lt (stored node inside), fun small => by omega⟩
  exact Graph.isRemnant_ofParts orderly nodup

/-- Some of the nodes of an intact graph, with any recorded heads, make up a remnant. -/
theorem IsIntact.isRemnant_ofParts (intact : graph.IsIntact) {kept : List Node}
    (subset : ∀ node ∈ kept, node ∈ graph.nodes) {heads : List Nat} (nodup : heads.Nodup) :
    (ofParts kept heads).IsRemnant :=
  intact.pointsBack.isRemnant_ofParts subset nodup

/-- An intact graph is made from its nodes and its heads. -/
theorem IsIntact.ofParts_eq (intact : graph.IsIntact) {kept : List Node}
    (all : ∀ node, node ∈ kept ↔ node ∈ graph.nodes) : ofParts kept graph.heads = graph := by
  have table : NodeTable.ofList kept = graph.table :=
    NodeTable.ofList_eq fun node => (all node).trans (graph.table.mem_nodes_iff node)
  have same : ofParts kept graph.heads = ofParts graph.nodes graph.heads := by
    rw [ofParts, ofParts, table, nodes, NodeTable.ofList_nodes]
  exact same.trans (intact.ofParts_perm (List.Perm.refl _))

/-- Where no block that is reached is open, an intact graph has closed each of its blocks once. -/
theorem IsIntact.isPaired (intact : graph.IsIntact) (none : graph.openBlocks graph.heads = [])
    {start : Nat} {opener : Node} (stored : graph.get? start = some opener)
    (opens : opener.kind.opensBlock = true) : graph.IsPaired start := by
  cases closed : opener.blockEnd? with
  | some closing =>
      have closes := (intact.blockEnd?_eq_some_iff stored).1 closed
      refine ⟨closing, fun id => ⟨fun other => intact.single start id closing other closes, ?_⟩,
        opener, stored, closed⟩
      rintro rfl
      exact closes
  | none =>
      have isOpen : start ∈ graph.openBlocks graph.heads := by
        refine (mem_openBlocks_iff _ _ _).2 ⟨⟨opener, stored, opens, closed⟩,
          intact.reaches (contains_of_get? stored), fun closing _ closes => ?_⟩
        cases ((intact.blockEnd?_eq_some_iff stored).2 closes).symm.trans closed
      rw [none] at isOpen
      cases isOpen

/-- The nodes of a plan note no block end. -/
theorem Plans.plain {reason : String} {repair : Repair} (plans : graph.Plans reason repair) :
    ∀ node ∈ repair.nodes, ∀ action ∈ node.actions, action.kind ≠ .blockEnd :=
  plans.planned ▸ RepairPlan.make_plain graph reason

/-- **The repair of whatever is left of a graph.**  Take any graph that calls made, keep any of its
nodes, and record any heads, each once.  If none of the nodes ends the flow, the plan for them
applies in full, under the numbers that it foresees; what is planned and what it comes to is told
by `Plans` and `Repairs`, and a second plan is empty.  If no node was lost and the heads are those
of the graph, it is intact afterwards and each of its blocks is closed exactly once. -/
theorem repairs_whatever_is_left (calls : List GraphCall) (plain : ∀ call ∈ calls, call.IsPlain)
    (kept : List Node) (subset : ∀ node ∈ kept, node ∈ (empty.afterAll calls).nodes)
    (heads : List Nat) (nodup : heads.Nodup) (running : ∀ node ∈ kept, node.kind ≠ .flowEnd)
    (reason : String) :
    ∃ repair after,
      (make (ofParts kept heads) reason).apply (ofParts kept heads) = (after, .ok repair.nodes) ∧
        (ofParts kept heads).Plans reason repair ∧ (ofParts kept heads).Repairs repair after ∧
        (∀ other, make after other = ⟨[]⟩) ∧
        ((∀ node ∈ (empty.afterAll calls).nodes, node ∈ kept) →
          heads = (empty.afterAll calls).heads →
          after.IsIntact ∧ ∀ start opener, after.get? start = some opener →
            opener.kind.opensBlock = true → after.IsPaired start) := by
  have intact := IsIntact.empty.afterAll plain
  have remnant := intact.isRemnant_ofParts subset nodup
  have notEnded : (ofParts kept heads).endNode? = none := by
    rw [endNode?_eq_none_iff]
    intro id node found
    rw [ofParts, get?, NodeTable.get?_ofList] at found
    exact running node (List.mem_reverse.1 (List.mem_of_find?_eq_some found))
  obtain ⟨repair, plans⟩ := remnant.plans notEnded reason
  obtain ⟨after, applied, repairs⟩ := remnant.repairs notEnded plans
  refine ⟨repair, after, applied, plans, repairs, fun other => ?_, ?_⟩
  · obtain ⟨last, stored, kind⟩ := (repairs.flowEnd_iff repair.last.id).2 rfl
    cases ended : after.endNode? with
    | none => exact absurd kind ((endNode?_eq_none_iff after).1 ended _ last stored)
    | some found => exact RepairPlan.make_of_ended ended other
  · rintro all rfl
    have whole := intact.ofParts_eq fun node => ⟨subset node, all node⟩
    have after_intact : after.IsIntact := by
      rw [whole] at applied plans
      refine intact.applyNodes ?_ applied
      exact plans.planned ▸ plans.plain
    exact ⟨after_intact, fun start opener => after_intact.isPaired repairs.noneOpen⟩

/-- A block within a block, with two branches. -/
def nestedBlocks : List GraphCall :=
  [.append .flowStart [] "start", .append (.stepStart true) [1] "outer", .append .atom [2] "left",
    .append (.stepStart true) [2] "inner", .append .atom [4] "deep"]

/-- Its first node and one branch are lost, and two of the recorded heads are not there: the blocks
are closed from the third head on, the inner one first. -/
theorem repairs_damaged_blocks :
    let kept := (empty.afterAll nestedBlocks).nodes.filter fun node => node.id ∈ [2, 4, 5]
    (∀ call ∈ nestedBlocks, call.IsPlain) ∧
      (∀ node ∈ kept, node ∈ (empty.afterAll nestedBlocks).nodes) ∧ [9, 5, 3].Nodup ∧
      (∀ node ∈ kept, node.kind ≠ .flowEnd) ∧
      ∃ repair after,
        (make (ofParts kept [9, 5, 3]) "lost").apply (ofParts kept [9, 5, 3]) =
          (after, .ok repair.nodes) ∧
        (ofParts kept [9, 5, 3]).Plans "lost" repair ∧
        (ofParts kept [9, 5, 3]).Repairs repair after ∧
        (ofParts kept [9, 5, 3]).nextId = 10 ∧ (ofParts kept [9, 5, 3]).usableHeads = [5] ∧
        2 ∈ repair.starts ∧ 4 ∈ repair.starts := by
  intro kept
  have plain : ∀ call ∈ nestedBlocks, call.IsPlain := by decide
  have subset : ∀ node ∈ kept, node ∈ (empty.afterAll nestedBlocks).nodes := by decide
  have running : ∀ node ∈ kept, node.kind ≠ .flowEnd := by decide
  obtain ⟨repair, after, applied, plans, repairs, -⟩ := repairs_whatever_is_left nestedBlocks plain
    kept subset [9, 5, 3] (by decide) running "lost"
  have unnamed (closing start : Nat) : ¬ (ofParts kept [9, 5, 3]).Closes closing start := by
    rintro ⟨node, stored, kind⟩
    have inside := ((ofParts kept [9, 5, 3]).table.mem_nodes_iff node).2
      (NodeTable.get?_id stored ▸ stored)
    have none : ∀ node ∈ (ofParts kept [9, 5, 3]).table.nodes, node.kind.closes = none := by decide
    cases (none node inside).symm.trans (NodeKind.closes_eq_some_iff.2 kind)
  have deep : Scan.Reaches (ofParts kept [9, 5, 3]).table (ofParts kept [9, 5, 3]).usableHeads 5 :=
    .head (by decide)
  have five : (ofParts kept [9, 5, 3]).table.get? 5 =
      some { id := 5, kind := .atom, name := "deep", parents := [4] } := by decide
  have four : (ofParts kept [9, 5, 3]).table.get? 4 =
      some { id := 4, kind := .stepStart true, name := "inner", parents := [2] } := by decide
  have inner := deep.parent five List.mem_cons_self
  have outer := inner.parent four List.mem_cons_self
  have two : 2 ∈ repair.starts := (plans.mem_starts_iff 2).2
    ⟨⟨_, rfl, by decide⟩, outer, fun closing _ => unnamed closing 2⟩
  have fourToo : 4 ∈ repair.starts := (plans.mem_starts_iff 4).2
    ⟨⟨_, four, by decide⟩, inner, fun closing _ => unnamed closing 4⟩
  exact ⟨plain, subset, by decide, running, repair, after, applied, plans, repairs, by decide,
    by decide, two, fourToo⟩

end Graph
end DurableRuns
