/-
# DurableRuns.Proofs.Flow.WellFormed -- what holds of the graph of every run

A graph is well formed if its heads are stored, each once and at least one, and if the next
number goes on after the highest stored one.  A well-formed graph is known by its nodes and
its heads alone: `ofParts_eq` makes it again from them.  Of a graph whose nodes may be missing
`IsUsable` asks less: its heads are stored, and numbers go on above whatever is left.

An append is described once, by `Extends`: `append_extends_of_below` says all that it does, and
the other facts about growing follow from that.
-/
import DurableRuns.Flow.Repair
import DurableRuns.Proofs.Flow.Table
import DurableRuns.Proofs.Flow.Written

namespace DurableRuns

set_option autoImplicit false

namespace Graph

/-- The heads are stored, each once and at least one, and the next number goes on after the
highest one. -/
structure WellFormed (graph : Graph) : Prop where
  heads_ne_nil : graph.heads ≠ []
  heads_nodup : graph.heads.Nodup
  heads_stored : ∀ head ∈ graph.heads, graph.contains head = true
  below : ∀ id, graph.contains id = true → id < graph.nextId
  last : graph.contains (graph.nextId - 1) = true

/-- The heads are stored, each once, and at least one if there are nodes; numbers go on above all
that are stored.  Nodes may be missing. -/
structure IsUsable (graph : Graph) : Prop where
  heads_nodup : graph.heads.Nodup
  heads_stored : ∀ head ∈ graph.heads, graph.contains head = true
  heads_ne_nil : graph.isEmpty = false → graph.heads ≠ []
  below : ∀ id, graph.contains id = true → id < graph.nextId

/-- Every number that was given out has 64 bits. -/
def Fits (graph : Graph) : Prop := graph.nextId ≤ UInt64.size

instance (graph : Graph) : Decidable graph.Fits :=
  inferInstanceAs (Decidable (graph.nextId ≤ UInt64.size))

/-- The nodes can be written, as long as the numbers that were given out have 64 bits. -/
def Storable (graph : Graph) : Prop :=
  graph.Fits → ∀ id node, graph.get? id = some node → node.Storable

theorem contains_iff (graph : Graph) (id : Nat) :
    graph.contains id = true ↔ ∃ node, graph.get? id = some node :=
  graph.table.contains_iff id

theorem contains_of_get? {graph : Graph} {id : Nat} {node : Node}
    (stored : graph.get? id = some node) : graph.contains id = true :=
  (graph.contains_iff id).2 ⟨node, stored⟩

theorem contains_congr {before after : Graph} {id : Nat}
    (same : after.get? id = before.get? id) : after.contains id = before.contains id :=
  congrArg Option.isSome same

theorem not_contains_of_isEmpty {graph : Graph} (none : graph.isEmpty = true) (id : Nat) :
    ¬ graph.contains id = true := by
  rw [contains_iff]
  rintro ⟨node, stored⟩
  have inside : node ∈ graph.table.nodes := List.mem_of_find?_eq_some stored
  rw [isEmpty, List.isEmpty_iff] at none
  simp [none] at inside

namespace IsUsable

variable {graph : Graph}

theorem heads_lt (usable : graph.IsUsable) {head : Nat} (inside : head ∈ graph.heads) :
    head < graph.nextId :=
  usable.below head (usable.heads_stored head inside)

theorem heads_eq_nil (usable : graph.IsUsable) (none : graph.isEmpty = true) : graph.heads = [] :=
  List.eq_nil_iff_forall_not_mem.2 fun head inside =>
    not_contains_of_isEmpty none head (usable.heads_stored head inside)

/-- All heads that are there are the ones to go on from. -/
theorem usableHeads_eq (usable : graph.IsUsable) (some : graph.isEmpty = false) :
    graph.usableHeads = graph.heads := by
  have all : graph.heads.filter graph.contains = graph.heads :=
    List.filter_eq_self.2 usable.heads_stored
  have headed : graph.heads.isEmpty = false :=
    List.isEmpty_eq_false_iff.2 (usable.heads_ne_nil some)
  rw [usableHeads, all]
  simp [headed]

end IsUsable

namespace WellFormed

variable {graph : Graph}

theorem nextId_pos (well : graph.WellFormed) : 0 < graph.nextId := by
  have last := well.below _ well.last
  omega

theorem heads_lt (well : graph.WellFormed) {head : Nat} (inside : head ∈ graph.heads) :
    head < graph.nextId :=
  well.below head (well.heads_stored head inside)

theorem isEmpty_eq_false (well : graph.WellFormed) : graph.isEmpty = false := by
  obtain ⟨node, stored⟩ := (graph.contains_iff _).1 well.last
  have inside : node ∈ graph.table.nodes := List.mem_of_find?_eq_some stored
  rw [isEmpty, List.isEmpty_eq_false_iff]
  exact List.ne_nil_of_mem inside

theorem isUsable (well : graph.WellFormed) : graph.IsUsable :=
  ⟨well.heads_nodup, well.heads_stored, fun _ => well.heads_ne_nil, well.below⟩

/-- The heads of a well-formed graph can all be used. -/
theorem usableHeads_eq (well : graph.WellFormed) : graph.usableHeads = graph.heads :=
  well.isUsable.usableHeads_eq well.isEmpty_eq_false

/-- A well-formed graph is made again from its nodes and its heads. -/
theorem ofParts_eq (well : graph.WellFormed) : ofParts graph.nodes graph.heads = graph := by
  have positive := well.nextId_pos
  have top : graph.table.maxId? = some (graph.nextId - 1) := by
    apply NodeTable.maxId?_eq_some well.last
    intro id stored
    have lower := well.below id stored
    omega
  have highest : ((graph.nextId - 1) :: graph.heads).max? = some (graph.nextId - 1) := by
    rw [List.max?_eq_some_iff]
    refine ⟨List.mem_cons_self, ?_⟩
    intro id inside
    rcases List.mem_cons.1 inside with same | head
    · omega
    · have lower := well.heads_lt head
      omega
  have same : NodeTable.ofList graph.nodes = graph.table := NodeTable.ofList_nodes _
  simp only [ofParts, same, top, Option.toList_some, List.singleton_append, highest,
    Option.map_some, Option.getD_some, Numbering.next_checked, Nat.sub_add_cancel positive]

end WellFormed

/-! ## The heads after an append -/

theorem mem_headsAfter_self (id : Nat) (parents heads : List Nat) :
    id ∈ headsAfter id parents heads := by
  induction heads with
  | nil => simp [headsAfter]
  | cons head rest ih =>
      rw [headsAfter]
      split
      · exact List.mem_cons_self
      · split
        · exact ih
        · exact List.mem_cons_of_mem _ ih

theorem mem_of_mem_headsAfter {id other : Nat} {parents heads : List Nat}
    (inside : other ∈ headsAfter id parents heads) : other = id ∨ other ∈ heads := by
  induction heads with
  | nil => exact .inl (by simpa [headsAfter] using inside)
  | cons head rest ih =>
      rw [headsAfter] at inside
      split at inside
      · rcases List.mem_cons.1 inside with same | later
        · exact .inl same
        · exact .inr (List.mem_cons_of_mem _ (List.mem_of_mem_filter later))
      · split at inside
        · exact (ih inside).imp_right (List.mem_cons_of_mem _)
        · rcases List.mem_cons.1 inside with same | later
          · exact .inr (same ▸ List.mem_cons_self)
          · exact (ih later).imp_right (List.mem_cons_of_mem _)

theorem nodup_headsAfter {id : Nat} {parents heads : List Nat} (nodup : heads.Nodup)
    (fresh : id ∉ heads) : (headsAfter id parents heads).Nodup := by
  induction heads with
  | nil => simp [headsAfter]
  | cons head rest ih =>
      obtain ⟨alone, tail⟩ := List.nodup_cons.1 nodup
      obtain ⟨other, freshRest⟩ := List.ne_and_not_mem_of_not_mem_cons fresh
      rw [headsAfter]
      split
      · refine List.nodup_cons.2 ⟨?_, tail.filter _⟩
        intro inside
        exact freshRest (List.mem_of_mem_filter inside)
      · split
        · exact ih tail freshRest
        · refine List.nodup_cons.2 ⟨?_, ih tail freshRest⟩
          intro inside
          rcases mem_of_mem_headsAfter inside with same | later
          · exact other same.symm
          · exact alone later

/-! ## What an append does -/

/-- A node is appended, with actions of its own, and noted where it closes a block. -/
structure Extends (before after : Graph) (node : Node) : Prop where
  id_eq : node.id = before.nextId
  nextId_eq : after.nextId = before.nextId + 1
  heads_eq : after.heads = headsAfter node.id node.parents before.heads
  stored : after.get? node.id = some node
  parents_stored : ∀ parent ∈ node.parents, before.contains parent = true
  opened : ∀ start, node.kind.closes = some start →
    ∃ old, before.get? start = some old ∧ old.kind.opensBlock = true ∧
      after.get? start = some (old.attach (.blockEnd node.id))
  others : ∀ id, id ≠ node.id → node.kind.closes ≠ some id → after.get? id = before.get? id

theorem checkParents_eq_ok {graph : Graph} {earlier parents : List Nat} :
    graph.checkParents earlier parents = .ok () ↔
      (∀ parent ∈ parents, graph.contains parent = true ∧ parent ∉ earlier) ∧
        parents.Nodup := by
  induction parents generalizing earlier with
  | nil => simp [checkParents]
  | cons parent rest ih =>
      rw [checkParents, find, List.nodup_cons, List.forall_mem_cons, contains, NodeTable.contains]
      show _ ↔ (((graph.get? parent).isSome = true ∧ _) ∧ _) ∧ _
      cases found : graph.get? parent with
      | none => simp [bind, Except.bind]
      | some node =>
          by_cases twice : parent ∈ earlier
          · simp [bind, Except.bind, twice, throw, throwThe, MonadExceptOf.throw]
          · simp only [bind, Except.bind, twice, if_false, ih, List.mem_cons, not_or]
            constructor
            · rintro ⟨stored, nodup⟩
              refine ⟨⟨⟨rfl, not_false⟩, ?_⟩, ?_, nodup⟩
              · intro other inside
                exact ⟨(stored other inside).1, (stored other inside).2.2⟩
              · intro again
                exact (stored parent again).2.1 rfl
            · rintro ⟨⟨-, stored⟩, alone, nodup⟩
              refine ⟨?_, nodup⟩
              intro other inside
              refine ⟨(stored other inside).1, ?_, (stored other inside).2⟩
              rintro rfl
              exact alone inside

theorem checkOpen_eq_ok {graph : Graph} {start : Nat} :
    graph.checkOpen start = .ok () ↔
      ∃ node, graph.get? start = some node ∧ node.kind.opensBlock = true ∧
        node.blockEnd? = none := by
  rw [checkOpen, find]
  cases found : graph.get? start with
  | none => simp [bind, Except.bind]
  | some node =>
      cases opens : node.kind.opensBlock with
      | false => simp [bind, Except.bind, opens, throw, throwThe, MonadExceptOf.throw]
      | true =>
          cases closed : node.blockEnd? with
          | none => simp [bind, Except.bind, opens, closed, pure, Except.pure]
          | some closing =>
              simp [bind, Except.bind, opens, closed, throw, throwThe, MonadExceptOf.throw]

/-- What a graph that has a node must offer for an append. -/
structure Admits (graph : Graph) (kind : NodeKind) (parents : List Nat) : Prop where
  notStart : kind ≠ .flowStart
  notEnded : graph.endNode? = none
  parents_ne_nil : parents ≠ []
  parents_nodup : parents.Nodup
  parents_stored : ∀ parent ∈ parents, graph.contains parent = true
  opened : ∀ start, kind.closes = some start →
    ∃ node, graph.get? start = some node ∧ node.kind.opensBlock = true ∧ node.blockEnd? = none

theorem Admits.checkParents {graph : Graph} {kind : NodeKind} {parents : List Nat}
    (admits : graph.Admits kind parents) : graph.checkParents [] parents = .ok () :=
  checkParents_eq_ok.2 ⟨fun other inside => ⟨admits.parents_stored other inside, by simp⟩,
    admits.parents_nodup⟩

theorem checkGrowth_eq_ok_of_some {graph : Graph} (stored : graph.isEmpty = false)
    {kind : NodeKind} {parents : List Nat} :
    graph.checkGrowth kind parents = .ok () ↔ graph.Admits kind parents := by
  unfold checkGrowth
  by_cases first : kind = .flowStart
  · simp only [first, stored, if_true]
    exact iff_of_false nofun fun admits => admits.notStart rfl
  · rw [if_neg first]
    simp only [stored, bind, Except.bind]
    cases ended : graph.endNode? with
    | some last =>
        exact iff_of_false nofun fun admits => by cases ended.symm.trans admits.notEnded
    | none =>
        cases parents with
        | nil => exact iff_of_false nofun fun admits => admits.parents_ne_nil rfl
        | cons parent rest =>
            cases listed : graph.checkParents [] (parent :: rest) with
            | error fault =>
                refine iff_of_false nofun fun admits => ?_
                cases listed.symm.trans admits.checkParents
            | ok =>
                obtain ⟨known, nodup⟩ := checkParents_eq_ok.1 listed
                have admitted (opened : ∀ start, kind.closes = some start →
                    graph.checkOpen start = .ok ()) : graph.Admits kind (parent :: rest) :=
                  ⟨first, ended, by simp, nodup, fun other inside => (known other inside).1,
                    fun start closes => checkOpen_eq_ok.1 (opened start closes)⟩
                cases closes : kind.closes with
                | none => exact iff_of_true rfl (admitted (by simp [closes]))
                | some start =>
                    refine ⟨fun ok => admitted fun other same => ?_, fun admits =>
                      checkOpen_eq_ok.2 (admits.opened start closes)⟩
                    obtain rfl := Option.some.inj (closes.symm.trans same)
                    exact ok

/-- A graph without nodes takes a first node, and one that has nodes what it admits. -/
theorem checkGrowth_cases {graph : Graph} {kind : NodeKind} {parents : List Nat}
    (grows : graph.checkGrowth kind parents = .ok ()) :
    (graph.isEmpty = true ∧ kind = .flowStart ∧ parents = []) ∨
      (graph.isEmpty = false ∧ graph.Admits kind parents) := by
  cases none : graph.isEmpty with
  | false => exact .inr ⟨rfl, (checkGrowth_eq_ok_of_some none).1 grows⟩
  | true =>
      left
      unfold checkGrowth at grows
      by_cases first : kind = .flowStart
      · rw [if_pos first] at grows
        cases parents with
        | nil => exact ⟨rfl, first, rfl⟩
        | cons parent rest =>
            simp [none, bind, Except.bind, throw, throwThe, MonadExceptOf.throw] at grows
      · rw [if_neg first] at grows
        simp [none, bind, Except.bind, throw, throwThe, MonadExceptOf.throw] at grows

theorem Admits.checkGrowth {graph : Graph} {kind : NodeKind} {parents : List Nat}
    (admits : graph.Admits kind parents) : graph.checkGrowth kind parents = .ok () := by
  refine (checkGrowth_eq_ok_of_some ?_).2 admits
  cases none : graph.isEmpty with
  | false => rfl
  | true =>
      obtain ⟨parent, inside⟩ := List.exists_mem_of_ne_nil _ admits.parents_ne_nil
      exact absurd (admits.parents_stored parent inside) (not_contains_of_isEmpty none parent)

/-- What a graph takes follows nodes that are there, and closes only what is open. -/
theorem stored_of_checkGrowth {graph : Graph} {kind : NodeKind} {parents : List Nat}
    (grows : graph.checkGrowth kind parents = .ok ()) :
    (∀ parent ∈ parents, graph.contains parent = true) ∧ ∀ start, kind.closes = some start →
      ∃ node, graph.get? start = some node ∧ node.kind.opensBlock = true ∧
        node.blockEnd? = none := by
  rcases checkGrowth_cases grows with ⟨-, rfl, rfl⟩ | ⟨-, admits⟩
  · exact ⟨fun parent inside => (by cases inside), fun start closes => (by cases closes)⟩
  · exact ⟨admits.parents_stored, admits.opened⟩

/-- The node that an append makes. -/
def newNode (graph : Graph) (kind : NodeKind) (parents : List Nat) (name : String) : Node :=
  { id := graph.nextId, kind, name, parents }

/-- The table in which the end of a block is noted at its start. -/
def closedTable (graph : Graph) (kind : NodeKind) : NodeTable :=
  match kind.closes with
  | some start => attachIn graph.table start (.blockEnd graph.nextId)
  | none => graph.table

/-- A graph with a node appended has it under its next number, if it admits it. -/
theorem append_eq [Numbering] (graph : Graph) (kind : NodeKind) (parents : List Nat)
    (name : String) :
    graph.append kind parents name =
      (graph.checkGrowth kind parents).map fun _ =>
        (⟨(graph.closedTable kind).insert (graph.newNode kind parents name),
          headsAfter graph.nextId parents graph.heads, Numbering.next graph.nextId⟩,
          graph.newNode kind parents name) := by
  unfold append GraphM.on GraphM.append GraphM.ask closedTable
  simp only [bind, EStateM.bind]
  cases graph.checkGrowth kind parents with
  | error fault => rfl
  | ok => cases kind.closes <;> rfl

/-- **An append that is refused leaves the graph as it was.** -/
theorem append_step [Numbering] (graph : Graph) (kind : NodeKind) (parents : List Nat)
    (name : String) :
    GraphM.append kind parents name graph =
      match graph.append kind parents name with
      | .ok (grown, node) => .ok node grown
      | .error fault => .error fault graph := by
  unfold append GraphM.on GraphM.append GraphM.ask
  simp only [bind, EStateM.bind]
  cases graph.checkGrowth kind parents with
  | error fault => rfl
  | ok => cases kind.closes <;> rfl

theorem append_eq_ok {graph : Graph} {kind : NodeKind} {parents : List Nat} {name : String}
    {grown : Graph × Node} :
    graph.append kind parents name = .ok grown ↔
      graph.checkGrowth kind parents = .ok () ∧
        grown = (⟨(graph.closedTable kind).insert (graph.newNode kind parents name),
          headsAfter graph.nextId parents graph.heads, graph.nextId + 1⟩,
          graph.newNode kind parents name) := by
  rw [append_eq]
  cases graph.checkGrowth kind parents with
  | error fault => simp [Except.map]
  | ok =>
      simp only [Except.map, Numbering.next_checked, Except.ok.injEq, true_and]
      exact eq_comm

theorem get?_attachIn (table : NodeTable) (id other : Nat) (action : Action) :
    (attachIn table id action).get? other =
      if other = id then (table.get? id).map (·.attach action) else table.get? other := by
  unfold attachIn
  cases found : table.get? id with
  | none =>
      by_cases same : other = id
      · simp [same, found]
      · simp [same]
  | some node =>
      rw [NodeTable.get?_insert, Node.attach_id, NodeTable.get?_id found]
      rfl

theorem get?_closedTable_of_ne {graph : Graph} {kind : NodeKind} {id : Nat}
    (other : kind.closes ≠ some id) : (graph.closedTable kind).get? id = graph.get? id := by
  unfold closedTable
  cases closes : kind.closes with
  | none => rfl
  | some start =>
      have different : id ≠ start := by
        rintro rfl
        exact other closes
      show (attachIn _ _ _).get? id = _
      rw [get?_attachIn, if_neg different]
      rfl

/-- A node is appended to a graph, if the graph takes it. -/
theorem append_extends_of_below {before after : Graph} {kind : NodeKind} {parents : List Nat}
    {name : String} {node : Node} (below : ∀ id, before.contains id = true → id < before.nextId)
    (ok : before.append kind parents name = .ok (after, node)) :
    before.Extends after node ∧ node = before.newNode kind parents name := by
  obtain ⟨grown, same⟩ := append_eq_ok.1 ok
  obtain ⟨rfl, rfl⟩ := Prod.mk.inj same
  obtain ⟨known, openers⟩ := stored_of_checkGrowth grown
  refine ⟨?_, rfl⟩
  constructor
  case id_eq => rfl
  case nextId_eq => rfl
  case heads_eq => rfl
  case stored => simp [get?, NodeTable.get?_insert]
  case parents_stored => exact known
  case opened =>
    intro start closes
    obtain ⟨old, stored, opens, -⟩ := openers start closes
    refine ⟨old, stored, opens, ?_⟩
    have lower := below start (contains_of_get? stored)
    have different : start ≠ before.nextId := by omega
    have noted : (before.closedTable kind).get? start =
        some (old.attach (.blockEnd before.nextId)) := by
      have closing : kind.closes = some start := closes
      have found : before.table.get? start = some old := stored
      simp [closedTable, closing, get?_attachIn, found]
    simpa [get?, newNode, NodeTable.get?_insert, different] using noted
  case others =>
    intro id different open?
    have here : id ≠ before.nextId := different
    have elsewhere : (before.closedTable kind).get? id = before.get? id :=
      get?_closedTable_of_ne open?
    simpa [get?, newNode, NodeTable.get?_insert, here] using elsewhere

end Graph

/-! ## Actions -/

namespace Node

/-- The node with actions attached, one after the other. -/
def attachEach (node : Node) (actions : List Action) : Node := actions.foldl attach node

theorem attachEach_id (node : Node) (actions : List Action) :
    (node.attachEach actions).id = node.id := by
  induction actions generalizing node with
  | nil => rfl
  | cons action rest ih => exact (ih (node.attach action)).trans (node.attach_id action)

theorem attachEach_kind (node : Node) (actions : List Action) :
    (node.attachEach actions).kind = node.kind := by
  induction actions generalizing node with
  | nil => rfl
  | cons action rest ih => exact (ih (node.attach action)).trans (node.attach_kind action)

theorem attachEach_parents (node : Node) (actions : List Action) :
    (node.attachEach actions).parents = node.parents := by
  induction actions generalizing node with
  | nil => rfl
  | cons action rest ih => exact (ih (node.attach action)).trans (node.attach_parents action)

theorem mem_attachTo {action other : Action} {actions : List Action}
    (inside : other ∈ action.attachTo actions) : other = action ∨ other ∈ actions := by
  induction actions with
  | nil => exact .inl (by simpa [Action.attachTo] using inside)
  | cons first rest ih =>
      rw [Action.attachTo] at inside
      split at inside
      · exact (List.mem_cons.1 inside).imp_right (List.mem_cons_of_mem _)
      · rcases List.mem_cons.1 inside with same | later
        · exact .inr (same ▸ List.mem_cons_self)
        · exact (ih later).imp_right (List.mem_cons_of_mem _)

theorem Storable.attach {node : Node} (storable : node.Storable) {action : Action}
    (fits : action.Storable) : (node.attach action).Storable := by
  refine ⟨storable.id_lt, storable.kind, storable.parents, ?_⟩
  intro other inside
  rcases mem_attachTo inside with rfl | old
  · exact fits
  · exact storable.actions other old

theorem mem_attachEach {node : Node} {actions : List Action} {action : Action}
    (inside : action ∈ (node.attachEach actions).actions) :
    action ∈ actions ∨ action ∈ node.actions := by
  induction actions generalizing node with
  | nil => exact .inr inside
  | cons first rest ih =>
      rcases ih inside with later | now
      · exact .inl (List.mem_cons_of_mem _ later)
      · rcases mem_attachTo now with rfl | old
        · exact .inl List.mem_cons_self
        · exact .inr old

/-- The numbers under which a node and, if it closes a block, the start of this block stand. -/
def touched (node : Node) : List Nat := node.id :: node.kind.closes.toList

end Node

namespace Graph

open RepairPlan (attachAll)

/-- What attaching actions to a stored node comes to. -/
structure Attached (before after : Graph) (id : Nat) (node : Node) : Prop where
  heads_eq : after.heads = before.heads
  nextId_eq : after.nextId = before.nextId
  stored : after.get? id = some node
  others : ∀ other, other ≠ id → after.get? other = before.get? other

theorem attach_eq (graph : Graph) (id : Nat) (action : Action) :
    graph.attach id action =
      (graph.find id).map fun node =>
        ({ graph with table := graph.table.insert (node.attach action) }, node.attach action) := by
  unfold attach GraphM.on GraphM.attach GraphM.ask
  simp only [bind, EStateM.bind]
  cases graph.find id <;> rfl

/-- To attach an action to a node that is not there leaves the graph as it was. -/
theorem attach_step (graph : Graph) (id : Nat) (action : Action) :
    GraphM.attach id action graph =
      match graph.attach id action with
      | .ok (changed, node) => .ok node changed
      | .error fault => .error fault graph := by
  unfold attach GraphM.on GraphM.attach GraphM.ask
  simp only [bind, EStateM.bind]
  cases graph.find id <;> rfl

theorem attach_eq_ok {graph after : Graph} {id : Nat} {action : Action} {node : Node} :
    graph.attach id action = .ok (after, node) ↔
      ∃ old, graph.get? id = some old ∧ node = old.attach action ∧
        after = { graph with table := graph.table.insert node } := by
  rw [attach_eq]
  unfold find
  cases graph.get? id with
  | none => simp [Except.map]
  | some old =>
      simp only [Except.map, Except.ok.injEq, Prod.mk.injEq, Option.some.injEq, exists_eq_left']
      constructor
      · rintro ⟨rfl, rfl⟩
        exact ⟨rfl, rfl⟩
      · rintro ⟨rfl, rfl⟩
        exact ⟨rfl, rfl⟩

theorem attach_attached {graph after : Graph} {id : Nat} {action : Action} {node : Node}
    (ok : graph.attach id action = .ok (after, node)) : graph.Attached after id node := by
  obtain ⟨old, stored, rfl, rfl⟩ := attach_eq_ok.1 ok
  have number : old.id = id := NodeTable.get?_id stored
  constructor
  case heads_eq => rfl
  case nextId_eq => rfl
  case stored => simp [get?, NodeTable.get?_insert, Node.attach_id, number]
  case others =>
    intro other different
    simp [get?, NodeTable.get?_insert, Node.attach_id, number, different]

theorem attachAll_cons (graph : Graph) (id : Nat) (action : Action) (rest : List Action) :
    attachAll graph id (action :: rest) =
      match graph.attach id action with
      | .ok (changed, _) => attachAll changed id rest
      | .error _ => graph := by
  rw [attachAll]
  simp only [attach_step]
  cases graph.attach id action <;> rfl

theorem attachAll_attached {graph : Graph} {id : Nat} {node : Node}
    (stored : graph.get? id = some node) (actions : List Action) :
    graph.Attached (attachAll graph id actions) id (node.attachEach actions) := by
  induction actions generalizing graph node with
  | nil => exact ⟨rfl, rfl, stored, fun _ _ => rfl⟩
  | cons action rest ih =>
      have ok : graph.attach id action =
          .ok ({ graph with table := graph.table.insert (node.attach action) },
            node.attach action) := attach_eq_ok.2 ⟨node, stored, rfl, rfl⟩
      have first := attach_attached ok
      have later := ih first.stored
      rw [attachAll_cons, ok]
      refine ⟨later.heads_eq.trans first.heads_eq, later.nextId_eq.trans first.nextId_eq,
        later.stored, ?_⟩
      intro other different
      exact (later.others other different).trans (first.others other different)

theorem Extends.attached {before between after : Graph} {node : Node} {actions : List Action}
    (extended : before.Extends between node)
    (attached : between.Attached after node.id (node.attachEach actions))
    (below : ∀ id, before.contains id = true → id < before.nextId) :
    before.Extends after (node.attachEach actions) := by
  constructor
  case id_eq => exact (node.attachEach_id actions).trans extended.id_eq
  case nextId_eq => exact attached.nextId_eq.trans extended.nextId_eq
  case heads_eq =>
    rw [attached.heads_eq, extended.heads_eq, Node.attachEach_id, Node.attachEach_parents]
  case stored =>
    rw [Node.attachEach_id]
    exact attached.stored
  case parents_stored =>
    rw [Node.attachEach_parents]
    exact extended.parents_stored
  case opened =>
    rw [Node.attachEach_kind, Node.attachEach_id]
    intro start closes
    obtain ⟨old, stored, opens, noted⟩ := extended.opened start closes
    refine ⟨old, stored, opens, ?_⟩
    have lower := below start (contains_of_get? stored)
    have different : start ≠ node.id := by
      have number := extended.id_eq
      omega
    exact (attached.others start different).trans noted
  case others =>
    rw [Node.attachEach_kind, Node.attachEach_id]
    intro id different open?
    exact (attached.others id different).trans (extended.others id different open?)

/-! ## What growing preserves -/

namespace Extends

variable {before after : Graph} {node : Node}

theorem get?_of_not_mem_touched (extended : before.Extends after node) {id : Nat}
    (untouched : id ∉ node.touched) : after.get? id = before.get? id := by
  have apart : id ≠ node.id ∧ node.kind.closes ≠ some id := by
    simpa [Node.touched] using untouched
  exact extended.others id apart.1 apart.2

theorem contains_iff (extended : before.Extends after node) (id : Nat) :
    after.contains id = true ↔ id = node.id ∨ before.contains id = true := by
  by_cases new : id = node.id
  · subst new
    simp [contains_of_get? extended.stored]
  · by_cases closed : node.kind.closes = some id
    · obtain ⟨old, stored, -, noted⟩ := extended.opened id closed
      simp [contains_of_get? stored, contains_of_get? noted]
    · rw [contains_congr (extended.others id new closed)]
      simp [new]

/-- The block that the node closes is there. -/
theorem start_stored (extended : before.Extends after node) {start : Nat}
    (closes : node.kind.closes = some start) : after.contains start = true := by
  obtain ⟨old, -, -, noted⟩ := extended.opened start closes
  exact contains_of_get? noted

theorem nextId_le (extended : before.Extends after node) : before.nextId ≤ after.nextId := by
  rw [extended.nextId_eq]
  exact Nat.le_succ _

/-- Numbers still go on above all that are stored. -/
theorem lt_nextId (extended : before.Extends after node)
    (below : ∀ id, before.contains id = true → id < before.nextId) (id : Nat)
    (there : after.contains id = true) : id < after.nextId := by
  have number := extended.id_eq
  have next := extended.nextId_eq
  rcases (extended.contains_iff id).1 there with rfl | old
  · omega
  · have lower := below id old
    omega

theorem isUsable (extended : before.Extends after node) (usable : before.IsUsable) :
    after.IsUsable := by
  constructor
  case heads_nodup =>
    rw [extended.heads_eq]
    apply nodup_headsAfter usable.heads_nodup
    intro inside
    have lower := usable.heads_lt inside
    have number := extended.id_eq
    omega
  case heads_stored =>
    rw [extended.heads_eq]
    intro head inside
    rw [extended.contains_iff]
    exact (mem_of_mem_headsAfter inside).imp_right (usable.heads_stored head)
  case heads_ne_nil =>
    intro _
    rw [extended.heads_eq]
    exact List.ne_nil_of_mem (mem_headsAfter_self ..)
  case below => exact extended.lt_nextId usable.below

/-- Whatever was missing before, the new node has the highest number. -/
theorem wellFormed_of_isUsable (extended : before.Extends after node) (usable : before.IsUsable) :
    after.WellFormed := by
  have after_usable := extended.isUsable usable
  constructor
  case heads_ne_nil =>
    rw [extended.heads_eq]
    exact List.ne_nil_of_mem (mem_headsAfter_self ..)
  case heads_nodup => exact after_usable.heads_nodup
  case heads_stored => exact after_usable.heads_stored
  case below => exact after_usable.below
  case last =>
    have number := extended.id_eq
    have next := extended.nextId_eq
    rw [extended.contains_iff]
    left
    omega

theorem wellFormed (extended : before.Extends after node) (well : before.WellFormed) :
    after.WellFormed :=
  extended.wellFormed_of_isUsable well.isUsable

theorem storable (extended : before.Extends after node) (well : before.WellFormed)
    (storable : before.Storable) (actions : ∀ action ∈ node.actions, action.Storable) :
    after.Storable := by
  intro fits id stored found
  have next := extended.nextId_eq
  have bound : before.nextId + 1 ≤ UInt64.size := next ▸ fits
  have fitsBefore : before.Fits := by
    show before.nextId ≤ UInt64.size
    omega
  have small (other : Nat) (inside : before.contains other = true) : other < UInt64.size := by
    have lower := well.below other inside
    omega
  have number : node.id < UInt64.size := by
    rw [extended.id_eq]
    omega
  by_cases new : id = node.id
  · subst new
    obtain rfl := Option.some.inj (found.symm.trans extended.stored)
    refine ⟨number, ?_, fun parent inside => small parent (extended.parents_stored parent inside),
      actions⟩
    cases kind : stored.kind with
    | stepEnd start =>
        obtain ⟨old, there, -⟩ := extended.opened start (by rw [kind]; rfl)
        exact small start (contains_of_get? there)
    | _ => trivial
  · by_cases closed : node.kind.closes = some id
    · obtain ⟨old, there, -, noted⟩ := extended.opened id closed
      obtain rfl := Option.some.inj (found.symm.trans noted)
      exact (storable fitsBefore id old there).attach number
    · rw [extended.others id new closed] at found
      exact storable fitsBefore id stored found

end Extends

namespace Attached

variable {before after : Graph} {id : Nat} {node : Node}

theorem contains_iff (attached : before.Attached after id node) (there : before.contains id = true)
    (other : Nat) : after.contains other = before.contains other := by
  by_cases same : other = id
  · subst same
    rw [there, contains_of_get? attached.stored]
  · exact contains_congr (attached.others other same)

theorem lt_nextId (attached : before.Attached after id node) (there : before.contains id = true)
    (below : ∀ other, before.contains other = true → other < before.nextId) (other : Nat)
    (stored : after.contains other = true) : other < after.nextId := by
  rw [attached.contains_iff there] at stored
  rw [attached.nextId_eq]
  exact below other stored

theorem isUsable (attached : before.Attached after id node)
    (there : before.contains id = true) (usable : before.IsUsable) : after.IsUsable := by
  constructor
  case heads_nodup => exact attached.heads_eq ▸ usable.heads_nodup
  case heads_stored =>
    intro head inside
    rw [attached.contains_iff there]
    exact usable.heads_stored head (attached.heads_eq ▸ inside)
  case heads_ne_nil =>
    intro _
    rw [attached.heads_eq]
    refine usable.heads_ne_nil ?_
    cases none : before.isEmpty with
    | false => rfl
    | true => exact absurd there (not_contains_of_isEmpty none id)
  case below => exact attached.lt_nextId there usable.below

theorem wellFormed (attached : before.Attached after id node)
    (there : before.contains id = true) (well : before.WellFormed) : after.WellFormed := by
  have usable := attached.isUsable there well.isUsable
  constructor
  case heads_ne_nil => exact attached.heads_eq ▸ well.heads_ne_nil
  case heads_nodup => exact usable.heads_nodup
  case heads_stored => exact usable.heads_stored
  case below => exact usable.below
  case last =>
    rw [attached.contains_iff there, attached.nextId_eq]
    exact well.last

end Attached

theorem Storable.attach {graph after : Graph} {id : Nat} {action : Action} {node : Node}
    (storable : graph.Storable) (ok : graph.attach id action = .ok (after, node))
    (fits : action.Storable) : after.Storable := by
  have attached := attach_attached ok
  obtain ⟨old, stored, rfl, -⟩ := attach_eq_ok.1 ok
  intro bound other found there
  have before : graph.Fits := by
    show graph.nextId ≤ UInt64.size
    exact attached.nextId_eq ▸ bound
  by_cases same : other = id
  · subst same
    obtain rfl := Option.some.inj (there.symm.trans attached.stored)
    exact (storable before other old stored).attach fits
  · rw [attached.others other same] at there
    exact storable before other found there

/-! ## The first graph -/

/-- The first node of every run. -/
def firstNode : Node := { id := firstId, kind := .flowStart, name := flowStartName, parents := [] }

theorem firstNode_storable : firstNode.Storable :=
  ⟨by decide, trivial, by simp [firstNode], by simp [firstNode]⟩

/-- The graph of a run that has just started. -/
def first : Graph := ⟨NodeTable.empty.insert firstNode, [firstId], firstId + 1⟩

theorem append_empty [Numbering] :
    empty.append .flowStart [] flowStartName = .ok (first, firstNode) := by
  have second : Numbering.next firstId = firstId + 1 := Numbering.next_eq (by decide)
  rw [first, ← second]
  rfl

theorem ofParts_first [Numbering] : ofParts first.nodes first.heads = first := by
  have second : Numbering.next firstId = firstId + 1 := Numbering.next_eq (by decide)
  rw [first, ← second]
  rfl

theorem get?_first (id : Nat) : first.get? id = if id = firstId then some firstNode else none :=
  NodeTable.get?_insert ..

theorem contains_first (id : Nat) : first.contains id = true ↔ id = firstId := by
  rw [contains_iff, get?_first]
  by_cases same : id = firstId
  · simp [same]
  · simp [same]

theorem wellFormed_first : first.WellFormed := by
  constructor
  case heads_ne_nil => simp [first]
  case heads_nodup => simp [first]
  case heads_stored =>
    intro head inside
    exact (contains_first head).2 (List.mem_singleton.1 inside)
  case below =>
    intro id stored
    rw [(contains_first id).1 stored]
    exact Nat.lt_succ_self _
  case last => exact (contains_first _).2 rfl

theorem storable_first : first.Storable := by
  intro _ id node stored
  rw [get?_first] at stored
  split at stored
  · obtain rfl := Option.some.inj stored
    exact firstNode_storable
  · cases stored

end Graph
end DurableRuns
