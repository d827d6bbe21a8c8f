/-
# DurableRuns.Proofs.Flow.Repaired -- what a repair makes of a damaged graph

A repair works from the heads.  It closes the open blocks that can be reached from them and
adds one flow end, which is then the only head; a graph that has a flow end it leaves alone.
So what it comes to depends on what was lost before.

Two statements say all of it, for every graph that can be used.  A repaired graph ends in its
flow end exactly if it had none, or did before (`Graph.endsFlow_repaired_iff`).  A block is closed
exactly once in it if it was before, or if it was *left open* (`Graph.isPaired_repaired_iff`): the
flow had not ended, no node names the block or is named by it, and it is reached.
-/
import Mathlib.Data.List.Perm.Subperm
import DurableRuns.Proofs.Flow.Intact
import DurableRuns.Proofs.Flow.Reached

namespace DurableRuns

set_option autoImplicit false

/-- An attached action is the first of its kind. -/
theorem Node.action?_attach (node : Node) (action : Action) :
    (node.attach action).action? action.kind = some action := by
  show (action.attachTo node.actions).find? _ = some action
  induction node.actions with
  | nil => simp [Action.attachTo]
  | cons first rest ih =>
      rw [Action.attachTo]
      split
      · simp
      next other => simpa [List.find?_cons, other] using ih

theorem Node.blockEnd?_attach_blockEnd (node : Node) (closing : Nat) :
    (node.attach (.blockEnd closing)).blockEnd? = some closing := by
  have first := node.action?_attach (.blockEnd closing)
  rw [Action.kind] at first
  rw [blockEnd?, first]

namespace Graph

/-! ## What a repair may leave -/

/-- The last node ends the flow: there is exactly one flow end and it is the only head. -/
def EndsFlow (graph : Graph) : Prop :=
  ∃ last, graph.heads = [last] ∧ ∀ id, graph.HasKind id .flowEnd ↔ id = last

/-- The flow goes on, or the last node ends it. -/
def EndsInOrder (graph : Graph) : Prop := (∀ id, ¬ graph.HasKind id .flowEnd) ∨ graph.EndsFlow

/-- The block is closed exactly once: exactly one node names it, and it names this node. -/
def IsPaired (graph : Graph) (start : Nat) : Prop :=
  ∃ closing, (∀ id, graph.Closes id start ↔ id = closing) ∧
    ∃ node, graph.get? start = some node ∧ node.blockEnd? = some closing

/-- The block is open, nothing names it, and a repair will come to it. -/
structure IsLeftOpen (graph : Graph) (start : Nat) : Prop where
  running : ∀ id, ¬ graph.HasKind id .flowEnd
  isOpen : graph.IsOpen start
  unnamed : ∀ closing, ¬ graph.Closes closing start
  reached : Scan.Reaches graph.table graph.heads start

theorem endNode?_eq_none_iff_hasKind (graph : Graph) :
    graph.endNode? = none ↔ ∀ id, ¬ graph.HasKind id .flowEnd := by
  rw [endNode?_eq_none_iff]
  constructor
  · rintro none id ⟨node, stored, kind⟩
    exact none id node stored kind
  · exact fun none id node stored kind => none id ⟨node, stored, kind⟩

/-- A repair closes the open blocks that are reached, unless a reached node names them. -/
theorem mem_openBlocks_iff (graph : Graph) (heads : List Nat) (start : Nat) :
    start ∈ graph.openBlocks heads ↔ graph.IsOpen start ∧ Scan.Reaches graph.table heads start ∧
      ∀ closing, Scan.Reaches graph.table heads closing → ¬ graph.Closes closing start := by
  have visited {node : Node} : node ∈ Scan.depthFirst graph.table heads ↔
      graph.get? node.id = some node ∧ Scan.Reaches graph.table heads node.id :=
    Scan.mem_depthFirst_iff
  have closes_iff {kind : NodeKind} : kind.closes = some start ↔ kind = .stepEnd start := by
    cases kind <;> simp [NodeKind.closes]
  unfold openBlocks openAmong
  rw [List.mem_mergeSort, List.mem_filter, List.mem_map]
  simp only [List.mem_filter, visited, Bool.not_eq_true', List.any_eq_false, decide_eq_true_eq,
    closes_iff, Option.isNone_iff_eq_none]
  constructor
  · rintro ⟨⟨node, ⟨⟨⟨stored, reached⟩, opens⟩, unclosed⟩, rfl⟩, unnamed⟩
    refine ⟨⟨node, stored, opens, unclosed⟩, reached, ?_⟩
    rintro closing reachedToo ⟨other, there, kind⟩
    obtain rfl := NodeTable.get?_id there
    exact unnamed other ⟨there, reachedToo⟩ kind
  · rintro ⟨⟨node, stored, opens, unclosed⟩, reached, unnamed⟩
    obtain rfl := NodeTable.get?_id stored
    refine ⟨⟨node, ⟨⟨⟨stored, reached⟩, opens⟩, unclosed⟩, rfl⟩, ?_⟩
    rintro other ⟨there, reachedToo⟩ kind
    exact unnamed other.id reachedToo ⟨other, there, kind⟩

/-- There are no more open blocks than nodes. -/
theorem length_openBlocks_le (graph : Graph) (heads : List Nat) :
    (graph.openBlocks heads).length ≤ graph.table.nodes.length := by
  obtain ⟨nodup, isOpen⟩ := graph.openBlocks_spec heads
  have stored : graph.openBlocks heads ⊆ graph.table.nodes.map (·.id) := by
    intro start inside
    obtain ⟨node, there, -⟩ := isOpen start inside
    obtain rfl := NodeTable.get?_id there
    exact List.mem_map_of_mem ((graph.table.mem_nodes_iff node).2 there)
  simpa using (List.subperm_of_subset nodup stored).length_le

/-! ## Several appends -/

namespace ExtendsBy

variable {before after : Graph} {nodes : List Node}

theorem growsTo (extended : before.ExtendsBy nodes after) (usable : before.IsUsable) :
    before.GrowsTo after := by
  induction extended with
  | none graph => exact .refl graph
  | more first _ _ _ ih => exact (first.growsTo usable.below).trans (ih (first.isUsable usable))

/-- The nodes of a kind are those of before and those that were appended. -/
theorem hasKind_iff (extended : before.ExtendsBy nodes after) (usable : before.IsUsable) (id : Nat)
    (kind : NodeKind) :
    after.HasKind id kind ↔ before.HasKind id kind ∨ ∃ node ∈ nodes, node.id = id ∧ node.kind = kind := by
  induction extended with
  | none graph => simp
  | more first _ _ _ ih =>
      rw [ih (first.isUsable usable), first.hasKind_iff usable.below, List.exists_mem_cons_iff,
        or_assoc]
      exact or_congr_right (or_congr_left (and_congr_left' eq_comm))

theorem contains_iff (extended : before.ExtendsBy nodes after) (usable : before.IsUsable) (id : Nat) :
    after.contains id = true ↔ before.contains id = true ∨ ∃ node ∈ nodes, node.id = id := by
  have kinds (graph : Graph) : graph.contains id = true ↔ ∃ kind, graph.HasKind id kind := by
    rw [Graph.contains_iff]
    exact ⟨fun ⟨node, stored⟩ => ⟨node.kind, node, stored, rfl⟩,
      fun ⟨_, node, stored, _⟩ => ⟨node, stored⟩⟩
  rw [kinds, kinds]
  simp only [extended.hasKind_iff usable, exists_or]
  refine or_congr_right ⟨?_, ?_⟩
  · exact fun ⟨_, node, inside, number, _⟩ => ⟨node, inside, number⟩
  · exact fun ⟨node, inside, number⟩ => ⟨node.kind, node, inside, number, rfl⟩

theorem nextId_eq (extended : before.ExtendsBy nodes after) :
    after.nextId = before.nextId + nodes.length := by
  induction extended with
  | none graph => rfl
  | more first _ _ _ ih =>
      rw [ih, first.nextId_eq, List.length_cons]
      omega

theorem nextId_le_id (extended : before.ExtendsBy nodes after) :
    ∀ node ∈ nodes, before.nextId ≤ node.id := by
  induction extended with
  | none graph => simp
  | more first _ _ _ ih =>
      refine List.forall_mem_cons.2 ⟨Nat.le_of_eq first.id_eq.symm, fun node inside => ?_⟩
      exact Nat.le_trans first.nextId_le (ih node inside)

/-- What is stored stays as it is, unless an appended node closes it. -/
theorem get?_of_stored (extended : before.ExtendsBy nodes after) (usable : before.IsUsable)
    {id : Nat} {node : Node} (stored : before.get? id = some node)
    (unclosed : ∀ closing ∈ nodes, closing.kind.closes ≠ some id) : after.get? id = some node := by
  induction extended with
  | none graph => exact stored
  | more first _ _ _ ih =>
      obtain ⟨other, later⟩ := List.forall_mem_cons.1 unclosed
      refine ih (first.isUsable usable) ?_ later
      rw [first.others id ?_ other, stored]
      have lower := usable.below id (contains_of_get? stored)
      have number := first.id_eq
      omega

/-- A block that one of the appended nodes closes, and no other, notes it. -/
theorem get?_of_closed_once (extended : before.ExtendsBy nodes after) (usable : before.IsUsable)
    (once : nodes.Pairwise fun a b => ∀ start, a.kind.closes = some start →
      b.kind.closes ≠ some start) {node : Node} (inside : node ∈ nodes) {start : Nat}
    (closes : node.kind.closes = some start) :
    ∃ old, before.get? start = some old ∧ old.kind.opensBlock = true ∧
      after.get? start = some (old.attach (.blockEnd node.id)) := by
  induction extended with
  | none graph => cases inside
  | @more before between after first later extends_ closed _ rest ih =>
      have usableNext := extends_.isUsable usable
      obtain ⟨alone, onceLater⟩ := List.pairwise_cons.1 once
      rcases List.mem_cons.1 inside with rfl | other
      · obtain ⟨old, stored, opens, noted⟩ := extends_.opened start closes
        exact ⟨old, stored, opens, rest.get?_of_stored usableNext noted fun next member =>
          alone next member start closes⟩
      · obtain ⟨old, stored, opens, noted⟩ := ih usableNext onceLater other
        -- The block was there before the first node, which opens none and closes another one.
        have apart : first.kind.closes ≠ some start := fun same => alone node other start same closes
        have older : start ≠ first.id := by
          rintro rfl
          obtain rfl := Option.some.inj (stored.symm.trans extends_.stored)
          cases closed.symm.trans opens
        exact ⟨old, (extends_.others start older apart).symm.trans stored, opens, noted⟩

end ExtendsBy

end Graph

/-! ## The plan -/

namespace RepairPlan

open DurableRuns.Graph

variable {graph : Graph}

theorem map_kind_blockEnds (graph : Graph) (reason : String) (starts : List Nat) (next : Nat)
    (parents : List Nat) :
    (blockEnds graph reason starts next parents).1.map (·.kind) = starts.map .stepEnd := by
  induction starts generalizing next parents with
  | nil => rfl
  | cons start rest ih =>
      rw [blockEnds, List.map_cons, List.map_cons, ← ih (Numbering.next next) [next]]

/-- The kinds of the planned nodes: an end for every block that is reached and open, and a flow
end, after a flow start if nothing is left. -/
theorem map_kind_make (usable : graph.IsUsable) (running : graph.endNode? = none) (reason : String) :
    (make graph reason).nodes.map (·.kind) =
      if graph.isEmpty then [.flowStart, .flowEnd]
      else (graph.openBlocks graph.heads).map .stepEnd ++ [.flowEnd] := by
  cases none : graph.isEmpty with
  | true =>
      rw [make_of_isEmpty none]
      rfl
  | false =>
      rw [make_of_some usable none running]
      simp [map_kind_blockEnds, lastNode]

/-- A planned node closes a block exactly if the block is reached and open. -/
theorem exists_closing_iff (usable : graph.IsUsable) (running : graph.endNode? = none)
    (reason : String) (start : Nat) :
    (∃ node ∈ (make graph reason).nodes, node.kind = .stepEnd start) ↔
      start ∈ graph.openBlocks graph.heads := by
  have kinds : (∃ node ∈ (make graph reason).nodes, node.kind = .stepEnd start) ↔
      .stepEnd start ∈ (make graph reason).nodes.map (·.kind) := List.mem_map.symm
  rw [kinds, map_kind_make usable running]
  cases none : graph.isEmpty with
  | true => simp [openBlocks_of_isEmpty none]
  | false => simp

/-- No two planned nodes close the same block. -/
theorem make_closes_once (usable : graph.IsUsable) (running : graph.endNode? = none)
    (reason : String) :
    (make graph reason).nodes.Pairwise fun a b => ∀ start, a.kind.closes = some start →
      b.kind.closes ≠ some start := by
  have kinds : ((make graph reason).nodes.map (·.kind)).Pairwise fun a b => ∀ start,
      a.closes = some start → b.closes ≠ some start := by
    rw [map_kind_make usable running]
    split
    · simp [NodeKind.closes]
    · refine List.pairwise_append.2 ⟨List.pairwise_map.2 ?_, List.pairwise_singleton _ _, ?_⟩
      · refine (graph.openBlocks_spec graph.heads).1.imp fun apart start same again => apart ?_
        exact (Option.some.inj same).trans (Option.some.inj again).symm
      · simp [NodeKind.closes]
  exact List.pairwise_map.1 kinds

/-- The last planned node, and no other, ends the flow. -/
theorem make_eq_concat (usable : graph.IsUsable) (running : graph.endNode? = none)
    (reason : String) :
    ∃ before last, (make graph reason).nodes = before ++ [last] ∧ last.kind = .flowEnd ∧
      ∀ node ∈ before, node.kind ≠ .flowEnd := by
  cases none : graph.isEmpty with
  | true =>
      rw [make_of_isEmpty none]
      exact ⟨[_], _, rfl, rfl, by simp [startNode]⟩
  | false =>
      rw [make_of_some usable none running]
      refine ⟨_, _, rfl, rfl, fun node inside kind => ?_⟩
      have planned := List.mem_map_of_mem (f := Node.kind) inside
      rw [map_kind_blockEnds, List.mem_map] at planned
      obtain ⟨start, -, same⟩ := planned
      cases same.trans kind

/-- No planned node notes the end of a block. -/
theorem make_notes_none (graph : Graph) (reason : String) :
    ∀ node ∈ (make graph reason).nodes, node.blockEnd? = none := by
  have ends (starts : List Nat) (next : Nat) (parents : List Nat) :
      ∀ node ∈ (blockEnds graph reason starts next parents).1, node.blockEnd? = none := by
    induction starts generalizing next parents with
    | nil => simp [blockEnds]
    | cons start rest ih =>
        rw [blockEnds]
        exact List.forall_mem_cons.2 ⟨rfl, ih (next + 1) [next]⟩
  unfold make
  split
  · simp
  · intro node inside
    rcases List.mem_append.1 inside with before | last
    · rcases List.mem_append.1 before with start | closing
      · split at start
        · rw [List.mem_singleton.1 start]
          rfl
        · cases start
      · exact ends _ _ _ node closing
    · rw [List.mem_singleton.1 last]
      rfl

/-- Nor does it bring such an action along. -/
theorem make_plain (graph : Graph) (reason : String) :
    ∀ node ∈ (make graph reason).nodes, ∀ action ∈ node.actions, action.kind ≠ .blockEnd := by
  intro node planned action inside kind
  have unnoted := make_notes_none graph reason node planned
  obtain ⟨closing, rfl⟩ := Action.eq_blockEnd_of_kind kind
  exact Node.blockEnd?_eq_none_iff.1 unnoted closing inside

end RepairPlan

/-! ## What a repair comes to -/

namespace Graph

open RepairPlan (make map_kind_make make_eq_concat exists_closing_iff make_closes_once
  make_notes_none)

variable {graph : Graph}

/-- A repair leaves a graph alone that has a flow end. -/
theorem repaired_eq_of_ended {id : Nat} (ended : graph.HasKind id .flowEnd) (reason : String) :
    graph.repaired reason = graph := by
  cases found : graph.endNode? with
  | none => exact absurd ended ((graph.endNode?_eq_none_iff_hasKind).1 found id)
  | some last =>
      rw [repaired, RepairPlan.make_of_ended found]
      rfl

/-- A repair gives out a number for each block that it closes, and for a flow start and a flow end. -/
theorem nextId_repaired_le (usable : graph.IsUsable) (reason : String) :
    (graph.repaired reason).nextId ≤ graph.nextId + graph.table.nodes.length + 2 := by
  by_cases running : ∀ id, ¬ graph.HasKind id .flowEnd
  · have notEnded := (graph.endNode?_eq_none_iff_hasKind).2 running
    have kinds := congrArg List.length (map_kind_make usable notEnded reason)
    have few := graph.length_openBlocks_le graph.heads
    rw [List.length_map] at kinds
    rw [(usable.extendsBy_repaired reason).nextId_eq, kinds]
    split
    · simp
    · simp only [List.length_append, List.length_map, List.length_singleton]
      omega
  · obtain ⟨id, ended⟩ := not_forall_not.1 running
    rw [repaired_eq_of_ended ended]
    omega

/-- Without a flow end, a repair adds one. -/
theorem endsFlow_repaired_of_running (usable : graph.IsUsable)
    (running : ∀ id, ¬ graph.HasKind id .flowEnd) (reason : String) :
    (graph.repaired reason).EndsFlow := by
  have extended := usable.extendsBy_repaired reason
  obtain ⟨before, last, planned, kind, others⟩ :=
    make_eq_concat usable ((graph.endNode?_eq_none_iff_hasKind).2 running) reason
  have heads := usable.heads_repaired (planned ▸ List.getLast?_concat)
  rw [planned] at extended
  refine ⟨last.id, heads, fun id => ?_⟩
  rw [extended.hasKind_iff usable]
  constructor
  · rintro (there | ⟨node, inside, rfl, same⟩)
    · exact absurd there (running id)
    · rcases List.mem_append.1 inside with early | late
      · exact absurd same (others node early)
      · rw [List.mem_singleton.1 late]
  · rintro rfl
    exact .inr ⟨last, by simp, rfl, kind⟩

/-- **A repaired graph ends in its flow end** exactly if it had none before, or ended in it. -/
theorem endsFlow_repaired_iff (usable : graph.IsUsable) (reason : String) :
    (graph.repaired reason).EndsFlow ↔ graph.EndsInOrder := by
  constructor
  · intro ends
    by_cases running : ∀ id, ¬ graph.HasKind id .flowEnd
    · exact .inl running
    · obtain ⟨id, ended⟩ := not_forall_not.1 running
      exact .inr (repaired_eq_of_ended ended reason ▸ ends)
  · rintro (running | ends)
    · exact endsFlow_repaired_of_running usable running reason
    · obtain ⟨last, -, only⟩ := id ends
      rwa [repaired_eq_of_ended ((only last).2 rfl)]

/-- A block is closed after the repair by a node that closed it before, or by a planned one. -/
theorem closes_repaired_iff (usable : graph.IsUsable) (reason : String) (closing start : Nat) :
    (graph.repaired reason).Closes closing start ↔ graph.Closes closing start ∨
      ∃ node ∈ (make graph reason).nodes, node.id = closing ∧ node.kind = .stepEnd start :=
  (usable.extendsBy_repaired reason).hasKind_iff usable closing _

/-- A planned node that closes a block is noted at its start. -/
theorem repaired_notes (usable : graph.IsUsable) (notEnded : graph.endNode? = none)
    {reason : String} {start : Nat} {node : Node} (inside : node ∈ (make graph reason).nodes)
    (names : node.kind = .stepEnd start) :
    ∃ opener, (graph.repaired reason).get? start = some opener ∧
      opener.blockEnd? = some node.id := by
  obtain ⟨old, -, -, there⟩ := (usable.extendsBy_repaired reason).get?_of_closed_once usable
    (make_closes_once usable notEnded reason) inside (by rw [names]; rfl)
  exact ⟨_, there, old.blockEnd?_attach_blockEnd node.id⟩

/-- A block that a planned node closes is paired if nothing else had named it. -/
theorem isPaired_repaired_of_closed (usable : graph.IsUsable) (notEnded : graph.endNode? = none)
    (reason : String) {start : Nat} (closed : start ∈ graph.openBlocks graph.heads) :
    (graph.repaired reason).IsPaired start ↔ graph.IsPaired start ∨ graph.IsLeftOpen start := by
  obtain ⟨node, inside, kind⟩ := (exists_closing_iff usable notEnded reason start).2 closed
  obtain ⟨isOpen, reached, -⟩ := (mem_openBlocks_iff graph _ start).1 closed
  obtain ⟨opener, stored, names⟩ := repaired_notes usable notEnded inside kind
  have closes_iff (closing : Nat) := closes_repaired_iff usable reason closing start
  constructor
  · rintro ⟨closing, only, -⟩
    have last : node.id = closing := (only _).1 ((closes_iff _).2 (.inr ⟨node, inside, rfl, kind⟩))
    have running := (graph.endNode?_eq_none_iff_hasKind).1 notEnded
    refine .inr ⟨running, isOpen, fun other closes => ?_, reached⟩
    obtain rfl : other = node.id := ((only _).1 ((closes_iff _).2 (.inl closes))).trans last.symm
    obtain ⟨old, there, -⟩ := closes
    have lower := usable.below _ (contains_of_get? there)
    have higher := (usable.extendsBy_repaired reason).nextId_le_id node inside
    omega
  · rintro (⟨closing, -, old, there, closes⟩ | left)
    · obtain ⟨other, found, -, unclosed⟩ := isOpen
      obtain rfl := Option.some.inj (there.symm.trans found)
      cases unclosed.symm.trans closes
    · refine ⟨node.id, fun id => ?_, opener, stored, names⟩
      rw [closes_iff]
      constructor
      · rintro (before | ⟨other, member, rfl, same⟩)
        · exact absurd before (left.unnamed id)
        · -- Each planned node that names the block is named by it, so there is only the one.
          obtain ⟨found, there, names'⟩ := repaired_notes usable notEnded member same
          obtain rfl := Option.some.inj (stored.symm.trans there)
          exact Option.some.inj (names'.symm.trans names)
      · rintro rfl
        exact .inr ⟨node, inside, rfl, kind⟩

/-- A block that no planned node closes stays as it is. -/
theorem isPaired_repaired_of_spared (usable : graph.IsUsable) (notEnded : graph.endNode? = none)
    (reason : String) {start : Nat} (spared : start ∉ graph.openBlocks graph.heads) :
    (graph.repaired reason).IsPaired start ↔ graph.IsPaired start := by
  have extended := usable.extendsBy_repaired reason
  have none (node : Node) (inside : node ∈ (make graph reason).nodes) :
      node.kind ≠ .stepEnd start :=
    fun kind => spared ((exists_closing_iff usable notEnded reason start).1 ⟨node, inside, kind⟩)
  have same (closing : Nat) :
      (graph.repaired reason).Closes closing start ↔ graph.Closes closing start := by
    rw [closes_repaired_iff usable]
    exact or_iff_left fun ⟨node, inside, _, kind⟩ => none node inside kind
  have stays {node : Node} (stored : graph.get? start = some node) :
      (graph.repaired reason).get? start = some node :=
    extended.get?_of_stored usable stored fun closing inside closes =>
      none closing inside (NodeKind.closes_eq_some_iff.1 closes)
  constructor
  · rintro ⟨closing, only, opener, stored, closes⟩
    refine ⟨closing, fun id => (same id).symm.trans (only id), ?_⟩
    rcases (extended.contains_iff usable start).1 (contains_of_get? stored) with old | new
    · obtain ⟨node, there⟩ := (graph.contains_iff start).1 old
      obtain rfl := Option.some.inj (stored.symm.trans (stays there))
      exact ⟨opener, there, closes⟩
    · obtain ⟨node, inside, rfl⟩ := new
      obtain rfl := Option.some.inj (stored.symm.trans (extended.stored usable node inside))
      cases (make_notes_none graph reason _ inside).symm.trans closes
  · rintro ⟨closing, only, opener, stored, closes⟩
    exact ⟨closing, fun id => (same id).trans (only id), opener, stays stored, closes⟩

/-- **A block is closed exactly once after a repair** exactly if it was before, or had been left
open. -/
theorem isPaired_repaired_iff (usable : graph.IsUsable) (reason : String) (start : Nat) :
    (graph.repaired reason).IsPaired start ↔ graph.IsPaired start ∨ graph.IsLeftOpen start := by
  by_cases running : ∀ id, ¬ graph.HasKind id .flowEnd
  case neg =>
    obtain ⟨id, ended⟩ := not_forall_not.1 running
    rw [repaired_eq_of_ended ended]
    exact ⟨.inl, fun either => either.resolve_right fun left => left.running id ended⟩
  have notEnded := (graph.endNode?_eq_none_iff_hasKind).2 running
  by_cases closed : start ∈ graph.openBlocks graph.heads
  · exact isPaired_repaired_of_closed usable notEnded reason closed
  · rw [isPaired_repaired_of_spared usable notEnded reason closed]
    exact (or_iff_left fun left => closed ((mem_openBlocks_iff graph _ start).2
      ⟨left.isOpen, left.reached, fun closing _ => left.unnamed closing⟩)).symm

end Graph
end DurableRuns
