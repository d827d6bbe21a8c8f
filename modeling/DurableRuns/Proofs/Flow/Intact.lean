/-
# DurableRuns.Proofs.Flow.Intact -- a graph of which nothing was lost

A graph is *intact* if nothing of it was lost and nothing was added behind its back
(`Graph.IsIntact`): its numbers have no gap, its heads are the nodes that no other node
follows, and a block start names the node that closes it.  The empty graph is intact, an
accepted append keeps a graph intact (`IsIntact.append`), and so does an action, unless it is
the note that closes a block (`IsIntact.attached`), which only an append may leave.
-/
import DurableRuns.Proofs.Flow.Orderly

namespace DurableRuns

set_option autoImplicit false

/-! ## Block ends among actions -/

theorem NodeKind.closes_eq_some_iff {kind : NodeKind} {start : Nat} :
    kind.closes = some start ↔ kind = .stepEnd start := by
  cases kind <;> simp [closes]

namespace Action

/-- Attaching an action takes the place of none of another kind. -/
theorem mem_attachTo_of_kind_ne {action other : Action} {actions : List Action}
    (different : action.kind ≠ other.kind) :
    other ∈ action.attachTo actions ↔ other ∈ actions := by
  have apart : other ≠ action := fun same => different (same ▸ rfl)
  induction actions with
  | nil => simp [attachTo, apart]
  | cons first rest ih =>
      rw [attachTo]
      split
      next same =>
        have replaced : other ≠ first := fun eq => different (eq ▸ same.symm)
        simp [apart, replaced]
      next => simp [ih]

/-- If there is no action of its kind, an attached action is added to the others. -/
theorem mem_attachTo_of_forall_ne {action other : Action} {actions : List Action}
    (none : ∀ first ∈ actions, first.kind ≠ action.kind) :
    other ∈ action.attachTo actions ↔ other = action ∨ other ∈ actions := by
  induction actions with
  | nil => simp [attachTo]
  | cons first rest ih =>
      obtain ⟨different, later⟩ := List.forall_mem_cons.1 none
      rw [attachTo, if_neg different, List.mem_cons, ih later, List.mem_cons]
      tauto

theorem eq_blockEnd_of_kind {action : Action} (kind : action.kind = .blockEnd) :
    ∃ closing, action = .blockEnd closing := by
  cases action with
  | blockEnd closing => exact ⟨closing, rfl⟩
  | _ => cases kind

end Action

namespace Node

theorem action?_blockEnd_eq_none_iff {node : Node} :
    node.action? .blockEnd = none ↔ ∀ closing, .blockEnd closing ∉ node.actions := by
  rw [action?, List.find?_eq_none]
  constructor
  · intro none closing inside
    exact none _ inside (by simp [Action.kind])
  · intro none action inside kind
    obtain ⟨closing, rfl⟩ := Action.eq_blockEnd_of_kind (by simpa using kind)
    exact none closing inside

/-- The closing node of a block is the one that its first note names. -/
theorem mem_of_blockEnd? {node : Node} {closing : Nat} (closed : node.blockEnd? = some closing) :
    .blockEnd closing ∈ node.actions := by
  rw [blockEnd?] at closed
  split at closed
  next found =>
    obtain rfl := Option.some.inj closed
    exact List.mem_of_find?_eq_some found
  next => cases closed

theorem blockEnd?_eq_none_iff {node : Node} :
    node.blockEnd? = none ↔ ∀ closing, .blockEnd closing ∉ node.actions := by
  rw [← action?_blockEnd_eq_none_iff, blockEnd?]
  cases found : node.action? .blockEnd with
  | none => simp
  | some action =>
      have kind : action.kind = .blockEnd := by simpa using List.find?_some found
      obtain ⟨closing, rfl⟩ := Action.eq_blockEnd_of_kind kind
      simp

/-- A node and what it is later: actions may have been attached, all else stays. -/
structure Stays (node later : Node) : Prop where
  id_eq : later.id = node.id
  kind_eq : later.kind = node.kind
  name_eq : later.name = node.name
  parents_eq : later.parents = node.parents

theorem Stays.refl (node : Node) : node.Stays node := ⟨rfl, rfl, rfl, rfl⟩

theorem Stays.trans {node later last : Node} (first : node.Stays later)
    (second : later.Stays last) : node.Stays last :=
  ⟨second.id_eq.trans first.id_eq, second.kind_eq.trans first.kind_eq,
    second.name_eq.trans first.name_eq, second.parents_eq.trans first.parents_eq⟩

theorem stays_attach (node : Node) (action : Action) : node.Stays (node.attach action) :=
  ⟨rfl, rfl, rfl, rfl⟩

end Node

namespace Graph

/-! ## What stays of a graph -/

/-- Every node of a graph is in the other one, with the kind, the name and the parents it had. -/
def GrowsTo (before after : Graph) : Prop :=
  ∀ id node, before.get? id = some node → ∃ later, after.get? id = some later ∧ node.Stays later

theorem GrowsTo.refl (graph : Graph) : graph.GrowsTo graph :=
  fun _ node stored => ⟨node, stored, .refl node⟩

theorem GrowsTo.trans {before between after : Graph} (first : before.GrowsTo between)
    (second : between.GrowsTo after) : before.GrowsTo after := by
  intro id node stored
  obtain ⟨later, found, stays⟩ := first id node stored
  obtain ⟨last, there, staysOn⟩ := second id later found
  exact ⟨last, there, stays.trans staysOn⟩

/-- What is stored after an append is the new node, the start of the block that it closes, or what
was stored before. -/
theorem Extends.cases {before after : Graph} {node : Node} (extended : before.Extends after node)
    {id : Nat} {found : Node} (stored : after.get? id = some found) :
    (id = node.id ∧ found = node) ∨ ∃ old, id ≠ node.id ∧ before.get? id = some old ∧
      old.Stays found ∧ (node.kind.closes = some id ∧ found = old.attach (.blockEnd node.id) ∨
        node.kind.closes ≠ some id ∧ found = old) := by
  by_cases new : id = node.id
  · subst new
    exact .inl ⟨rfl, Option.some.inj (stored.symm.trans extended.stored)⟩
  · right
    by_cases closed : node.kind.closes = some id
    · obtain ⟨old, there, -, noted⟩ := extended.opened id closed
      obtain rfl := Option.some.inj (stored.symm.trans noted)
      exact ⟨old, new, there, old.stays_attach _, .inl ⟨closed, rfl⟩⟩
    · rw [extended.others id new closed] at stored
      exact ⟨found, new, stored, .refl found, .inr ⟨closed, rfl⟩⟩

/-- There is a node of a kind under a number. -/
def HasKind (graph : Graph) (id : Nat) (kind : NodeKind) : Prop :=
  ∃ node, graph.get? id = some node ∧ node.kind = kind

/-- There is a node that closes a block. -/
abbrev Closes (graph : Graph) (closing start : Nat) : Prop := graph.HasKind closing (.stepEnd start)

theorem Extends.growsTo {before after : Graph} {node : Node} (extended : before.Extends after node)
    (below : ∀ id, before.contains id = true → id < before.nextId) : before.GrowsTo after := by
  intro id old stored
  have lower := below id (contains_of_get? stored)
  have number := extended.id_eq
  by_cases closed : node.kind.closes = some id
  · obtain ⟨opener, there, -, noted⟩ := extended.opened id closed
    obtain rfl := Option.some.inj (stored.symm.trans there)
    exact ⟨_, noted, old.stays_attach _⟩
  · exact ⟨old, (extended.others id (by omega) closed).trans stored, .refl old⟩

theorem GrowsTo.contains {before after : Graph} (grows : before.GrowsTo after) {id : Nat}
    (there : before.contains id = true) : after.contains id = true := by
  obtain ⟨node, stored⟩ := (before.contains_iff id).1 there
  obtain ⟨now, found, -⟩ := grows id node stored
  exact contains_of_get? found

theorem GrowsTo.hasKind {before after : Graph} (grows : before.GrowsTo after) {id : Nat}
    {kind : NodeKind} (there : before.HasKind id kind) : after.HasKind id kind := by
  obtain ⟨old, stored, same⟩ := there
  obtain ⟨later, found, stays⟩ := grows id old stored
  exact ⟨later, found, stays.kind_eq.trans same⟩

theorem Extends.hasKind_iff {before after : Graph} {node : Node}
    (extended : before.Extends after node)
    (below : ∀ id, before.contains id = true → id < before.nextId) (id : Nat) (kind : NodeKind) :
    after.HasKind id kind ↔ before.HasKind id kind ∨ id = node.id ∧ node.kind = kind := by
  constructor
  · rintro ⟨found, stored, same⟩
    rcases extended.cases stored with ⟨rfl, rfl⟩ | ⟨old, -, there, stays, -⟩
    · exact .inr ⟨rfl, same⟩
    · exact .inl ⟨old, there, stays.kind_eq ▸ same⟩
  · rintro (there | ⟨rfl, same⟩)
    · exact (extended.growsTo below).hasKind there
    · exact ⟨node, extended.stored, same⟩

theorem attach_growsTo {before after : Graph} {id : Nat} {action : Action} {node : Node}
    (ok : before.attach id action = .ok (after, node)) : before.GrowsTo after := by
  have attached := attach_attached ok
  obtain ⟨old, stored, rfl, -⟩ := attach_eq_ok.1 ok
  intro other found there
  by_cases same : other = id
  · subst same
    obtain rfl := Option.some.inj (stored.symm.trans there)
    exact ⟨_, attached.stored, old.stays_attach _⟩
  · exact ⟨found, (attached.others other same).trans there, .refl found⟩

/-- After an action was attached that is no note of a block end every node is what it was, but for
the other actions that one of them has. -/
theorem attach_cases {before after : Graph} {id : Nat} {action : Action} {node : Node}
    (ok : before.attach id action = .ok (after, node)) (plain : action.kind ≠ .blockEnd)
    {other : Nat} {found : Node} (there : after.get? other = some found) :
    ∃ old, before.get? other = some old ∧ old.Stays found ∧
      ∀ closing, .blockEnd closing ∈ found.actions ↔ .blockEnd closing ∈ old.actions := by
  have attached := attach_attached ok
  obtain ⟨old, stored, rfl, -⟩ := attach_eq_ok.1 ok
  by_cases same : other = id
  · subst same
    obtain rfl := Option.some.inj (there.symm.trans attached.stored)
    exact ⟨old, stored, old.stays_attach action, fun _ => Action.mem_attachTo_of_kind_ne plain⟩
  · exact ⟨found, (attached.others other same).symm.trans there, .refl found, fun _ => Iff.rfl⟩

/-- The heads after an append are the new node and the old heads that it does not follow. -/
theorem mem_headsAfter_iff {id other : Nat} {parents heads : List Nat} :
    other ∈ headsAfter id parents heads ↔ other = id ∨ other ∈ heads ∧ other ∉ parents := by
  induction heads with
  | nil => simp [headsAfter]
  | cons head rest ih =>
      rw [headsAfter]
      split
      next first =>
        have parent : head ∈ parents := List.mem_of_head? first.1
        rw [List.mem_cons, List.mem_filter, List.mem_cons, decide_eq_true_iff]
        constructor
        · rintro (same | ⟨later, none⟩)
          · exact .inl same
          · exact .inr ⟨.inr later, none⟩
        · rintro (same | ⟨rfl | later, none⟩)
          · exact .inl same
          · exact absurd parent none
          · exact .inr ⟨later, none⟩
      next =>
        split
        next parent =>
          rw [ih, List.mem_cons]
          constructor
          · exact Or.imp_right (And.imp_left .inr)
          · rintro (same | ⟨rfl | later, none⟩)
            · exact .inl same
            · exact absurd parent none
            · exact .inr ⟨later, none⟩
        next other? =>
          rw [List.mem_cons, ih, List.mem_cons]
          constructor
          · rintro (rfl | same | ⟨later, none⟩)
            · exact .inr ⟨.inl rfl, other?⟩
            · exact .inl same
            · exact .inr ⟨.inr later, none⟩
          · rintro (same | ⟨rfl | later, none⟩)
            · exact .inr (.inl same)
            · exact .inl rfl
            · exact .inr (.inr ⟨later, none⟩)

/-! ## Intact graphs -/

/-- A node that another one follows. -/
def HasChild (graph : Graph) (id : Nat) : Prop :=
  ∃ other child, graph.get? other = some child ∧ id ∈ child.parents


/-- Nothing of the graph was lost, and all of it was appended. -/
structure IsIntact (graph : Graph) : Prop where
  firstId_le : firstId ≤ graph.nextId
  /-- The numbers have no gap. -/
  contains_iff : ∀ id, graph.contains id = true ↔ firstId ≤ id ∧ id < graph.nextId
  start_iff : ∀ id node, graph.get? id = some node → (node.kind = .flowStart ↔ id = firstId)
  start_parents : ∀ id node, graph.get? id = some node → node.kind = .flowStart →
    node.parents = []
  parents : ∀ id node, graph.get? id = some node → node.kind ≠ .flowStart →
    node.parents ≠ [] ∧ node.parents.Nodup ∧
      ∀ parent ∈ node.parents, graph.contains parent = true ∧ parent < id
  /-- The flow end is the last node. -/
  ended : ∀ id node, graph.get? id = some node → node.kind = .flowEnd → id + 1 = graph.nextId
  heads_nodup : graph.heads.Nodup
  mem_heads_iff : ∀ id, id ∈ graph.heads ↔ graph.contains id = true ∧ ¬ graph.HasChild id
  /-- A node notes the one that closes it. -/
  noted : ∀ id node, graph.get? id = some node →
    ∀ closing, .blockEnd closing ∈ node.actions ↔ graph.Closes closing id
  opens : ∀ closing start, graph.Closes closing start →
    ∃ node, graph.get? start = some node ∧ node.kind.opensBlock = true
  single : ∀ start closing other, graph.Closes closing start → graph.Closes other start →
    closing = other

namespace IsIntact

variable {graph after : Graph} {node : Node}

theorem parent_lt (intact : graph.IsIntact) {id parent : Nat} {child : Node}
    (stored : graph.get? id = some child) (inside : parent ∈ child.parents) : parent < id := by
  by_cases start : child.kind = .flowStart
  · rw [intact.start_parents id child stored start] at inside
    cases inside
  · exact ((intact.parents id child stored start).2.2 parent inside).2

theorem lt_nextId (intact : graph.IsIntact) {id : Nat} {found : Node}
    (stored : graph.get? id = some found) : id < graph.nextId :=
  ((intact.contains_iff id).1 (contains_of_get? stored)).2

theorem below (intact : graph.IsIntact) (id : Nat) (there : graph.contains id = true) :
    id < graph.nextId :=
  ((intact.contains_iff id).1 there).2

theorem not_hasChild_of_nextId_le (intact : graph.IsIntact) {id : Nat}
    (high : graph.nextId ≤ id + 1) : ¬ graph.HasChild id := by
  rintro ⟨other, child, stored, inside⟩
  have above := intact.parent_lt stored inside
  have below := intact.lt_nextId stored
  omega

/-- The note of a block start names the node that closes it, and there is no other note. -/
theorem blockEnd?_eq_some_iff (intact : graph.IsIntact) {id closing : Nat} {found : Node}
    (stored : graph.get? id = some found) :
    found.blockEnd? = some closing ↔ graph.Closes closing id := by
  constructor
  · intro closed
    exact (intact.noted id found stored closing).1 (Node.mem_of_blockEnd? closed)
  · intro closes
    cases closed : found.blockEnd? with
    | none =>
        have inside := (intact.noted id found stored closing).2 closes
        exact absurd inside (Node.blockEnd?_eq_none_iff.1 closed closing)
    | some other =>
        have closesToo := (intact.noted id found stored other).1 (Node.mem_of_blockEnd? closed)
        rw [intact.single id closing other closes closesToo]

/-- The flow end is the last node and no other node follows it. -/
theorem flowEnd (intact : graph.IsIntact) {id : Nat} {last : Node}
    (stored : graph.get? id = some last) (kind : last.kind = .flowEnd) :
    (∀ other, graph.contains other = true → other ≤ id) ∧ ¬ graph.HasChild id := by
  have top := intact.ended id last stored kind
  refine ⟨fun other there => ?_, intact.not_hasChild_of_nextId_le (by omega)⟩
  have lower := ((intact.contains_iff other).1 there).2
  omega

/-- Without nodes an intact graph is the empty one. -/
theorem eq_empty (intact : graph.IsIntact) (none : graph.nextId ≤ firstId) : graph = empty := by
  have absent (id : Nat) : ¬ graph.contains id = true := by
    rw [intact.contains_iff]
    omega
  have noTable : graph.table = .empty := NodeTable.eq_of_get? fun id => by
    have nothing : graph.table.get? id = Option.none :=
      Option.eq_none_iff_forall_ne_some.2 fun node stored => absent id (contains_of_get? stored)
    rw [nothing, NodeTable.get?_empty]
  have noHeads : graph.heads = [] := List.eq_nil_iff_forall_not_mem.2 fun head inside =>
    absent head ((intact.mem_heads_iff head).1 inside).1
  have next : graph.nextId = firstId := Nat.le_antisymm none intact.firstId_le
  cases graph
  cases noTable
  cases noHeads
  cases next
  rfl

/-- An intact graph is well formed, or it has no node at all. -/
theorem isGrown (intact : graph.IsIntact) : graph.IsGrown := by
  by_cases some : firstId < graph.nextId
  · left
    have last : graph.contains (graph.nextId - 1) = true := by
      rw [intact.contains_iff]
      omega
    constructor
    case heads_ne_nil =>
      refine List.ne_nil_of_mem ((intact.mem_heads_iff (graph.nextId - 1)).2 ⟨last, ?_⟩)
      exact intact.not_hasChild_of_nextId_le (by omega)
    case heads_nodup => exact intact.heads_nodup
    case heads_stored => exact fun head inside => ((intact.mem_heads_iff head).1 inside).1
    case below => exact intact.below
    case last => exact last
  · exact .inr (intact.eq_empty (Nat.le_of_not_lt some))

/-! ### Growing -/

theorem empty : Graph.empty.IsIntact := by
  constructor
  case firstId_le => exact Nat.le_refl _
  case contains_iff =>
    intro id
    constructor
    · intro there
      cases there
    · rintro ⟨low, high⟩
      exact absurd high (Nat.not_lt_of_le low)
  case start_iff =>
    intro id node stored
    cases stored
  case start_parents =>
    intro id node stored
    cases stored
  case parents =>
    intro id node stored
    cases stored
  case ended =>
    intro id node stored
    cases stored
  case heads_nodup => exact List.nodup_nil
  case mem_heads_iff =>
    intro id
    constructor
    · intro inside
      cases inside
    · rintro ⟨there, -⟩
      cases there
  case noted =>
    intro id node stored
    cases stored
  case opens =>
    rintro closing start ⟨node, stored, -⟩
    cases stored
  case single =>
    rintro start closing other ⟨node, stored, -⟩
    cases stored

/-- The graph after its first append. -/
theorem begun (name : String) :
    IsIntact ⟨NodeTable.empty.insert { firstNode with name }, [firstId], firstId + 1⟩ := by
  let begun : Graph := ⟨NodeTable.empty.insert { firstNode with name }, [firstId], firstId + 1⟩
  have only {id : Nat} {node : Node} (stored : begun.get? id = some node) :
      id = firstId ∧ node = { firstNode with name } := by
    have found : (if id = firstId then some { firstNode with name } else none) = some node :=
      (NodeTable.get?_insert NodeTable.empty { firstNode with name } id).symm.trans stored
    split at found
    next same => exact ⟨same, (Option.some.inj found).symm⟩
    next => cases found
  have there : begun.get? firstId = some { firstNode with name } :=
    NodeTable.get?_insert NodeTable.empty { firstNode with name } firstId
  have nothingCloses (closing start : Nat) : ¬ begun.Closes closing start := by
    rintro ⟨node, stored, kind⟩
    obtain ⟨-, rfl⟩ := only stored
    cases kind
  have childless (id : Nat) : ¬ begun.HasChild id := by
    rintro ⟨other, child, stored, inside⟩
    obtain ⟨-, rfl⟩ := only stored
    cases inside
  have contains_iff (id : Nat) : begun.contains id = true ↔ id = firstId := by
    constructor
    · intro inside
      obtain ⟨node, stored⟩ := (begun.contains_iff id).1 inside
      exact (only stored).1
    · rintro rfl
      exact contains_of_get? there
  show begun.IsIntact
  constructor
  case firstId_le => exact Nat.le_succ _
  case contains_iff =>
    intro id
    rw [contains_iff]
    show id = firstId ↔ firstId ≤ id ∧ id < firstId + 1
    omega
  case start_iff =>
    intro id node stored
    obtain ⟨rfl, rfl⟩ := only stored
    exact ⟨fun _ => rfl, fun _ => rfl⟩
  case start_parents =>
    intro id node stored _
    obtain ⟨rfl, rfl⟩ := only stored
    rfl
  case parents =>
    intro id node stored kind
    obtain ⟨rfl, rfl⟩ := only stored
    exact absurd rfl kind
  case ended =>
    intro id node stored kind
    obtain ⟨rfl, rfl⟩ := only stored
    cases kind
  case heads_nodup => simp [begun]
  case mem_heads_iff =>
    intro id
    rw [contains_iff]
    exact ⟨fun inside => ⟨List.mem_singleton.1 inside, childless id⟩,
      fun ⟨same, _⟩ => List.mem_singleton.2 same⟩
  case noted =>
    intro id node stored closing
    obtain ⟨rfl, rfl⟩ := only stored
    exact ⟨fun inside => (by cases inside), fun closes => absurd closes (nothingCloses _ _)⟩
  case opens => exact fun closing start closes => absurd closes (nothingCloses _ _)
  case single => exact fun start closing _ closes => absurd closes (nothingCloses _ _)

/-- A block that a new node may close was closed by none before. -/
theorem not_closes_of_admits (intact : graph.IsIntact)
    (admits : graph.Admits node.kind node.parents) {start : Nat} (kind : node.kind = .stepEnd start)
    (closing : Nat) : ¬ graph.Closes closing start := by
  obtain ⟨opener, stored, -, open?⟩ :=
    admits.opened start (NodeKind.closes_eq_some_iff.2 kind)
  rw [← intact.noted start opener stored]
  exact Node.blockEnd?_eq_none_iff.1 open? closing

section Extended

variable (intact : graph.IsIntact) (extends_ : graph.Extends after node)

include intact extends_

theorem hasChild_iff (id : Nat) :
    after.HasChild id ↔ graph.HasChild id ∨ id ∈ node.parents := by
  constructor
  · rintro ⟨other, child, stored, inside⟩
    rcases extends_.cases stored with ⟨rfl, rfl⟩ | ⟨old, -, there, stays, -⟩
    · exact .inr inside
    · exact .inl ⟨other, old, there, stays.parents_eq ▸ inside⟩
  · rintro (⟨other, child, there, inside⟩ | inside)
    · obtain ⟨later, found, stays⟩ := extends_.growsTo intact.below other child there
      exact ⟨other, later, found, stays.parents_eq ▸ inside⟩
    · exact ⟨node.id, node, extends_.stored, inside⟩

/-- The heads are the nodes that no other follows, the new one among them. -/
theorem extended_mem_heads_iff (admits : graph.Admits node.kind node.parents) (id : Nat) :
    id ∈ after.heads ↔ after.contains id = true ∧ ¬ after.HasChild id := by
  have number := extends_.id_eq
  have parents_lt (parent : Nat) (inside : parent ∈ node.parents) : parent < graph.nextId :=
    intact.below parent (admits.parents_stored parent inside)
  rw [extends_.heads_eq, mem_headsAfter_iff, intact.mem_heads_iff, extends_.contains_iff,
    intact.hasChild_iff extends_]
  constructor
  · rintro (rfl | ⟨⟨there, childless⟩, other⟩)
    · refine ⟨.inl rfl, not_or.2 ⟨intact.not_hasChild_of_nextId_le (by omega), fun inside => ?_⟩⟩
      have lower := parents_lt _ inside
      omega
    · exact ⟨.inr there, not_or.2 ⟨childless, other⟩⟩
  · rintro ⟨rfl | there, childless⟩
    · exact .inl rfl
    · exact .inr ⟨⟨there, (not_or.1 childless).1⟩, (not_or.1 childless).2⟩

theorem extended_closes_iff (closing start : Nat) : after.Closes closing start ↔
    graph.Closes closing start ∨ closing = node.id ∧ node.kind = .stepEnd start :=
  extends_.hasKind_iff intact.below closing _

/-- The node that a new node closes notes it, and no other note is changed. -/
theorem extended_noted (admits : graph.Admits node.kind node.parents) (fresh : node.actions = [])
    {id : Nat} {found : Node} (stored : after.get? id = some found) (closing : Nat) :
    .blockEnd closing ∈ found.actions ↔ after.Closes closing id := by
  have number := extends_.id_eq
  rw [intact.extended_closes_iff extends_]
  rcases extends_.cases stored with ⟨rfl, rfl⟩ | ⟨old, -, there, stays, here | elsewhere⟩
  · -- The new node opens nothing that was closed before.
    rw [fresh]
    refine ⟨fun none => (by cases none), ?_⟩
    rintro (closes | ⟨-, kind⟩)
    · obtain ⟨opener, opened, -⟩ := intact.opens closing _ closes
      have lower := intact.lt_nextId opened
      omega
    · obtain ⟨opener, opened, -⟩ := admits.opened _ (NodeKind.closes_eq_some_iff.2 kind)
      have lower := intact.lt_nextId opened
      omega
  · obtain ⟨closed, rfl⟩ := here
    have kind := NodeKind.closes_eq_some_iff.1 closed
    have noNote : ∀ first ∈ old.actions, first.kind ≠ (Action.blockEnd node.id).kind := by
      intro first inside same
      obtain ⟨other, rfl⟩ := Action.eq_blockEnd_of_kind same
      exact intact.not_closes_of_admits admits kind other
        ((intact.noted id old there other).1 inside)
    show .blockEnd closing ∈ (Action.blockEnd node.id).attachTo old.actions ↔ _
    rw [Action.mem_attachTo_of_forall_ne noNote, intact.noted id old there closing]
    constructor
    · rintro (same | closes)
      · exact .inr ⟨Action.blockEnd.inj same, kind⟩
      · exact .inl closes
    · rintro (closes | ⟨rfl, -⟩)
      · exact .inr closes
      · exact .inl rfl
  · obtain ⟨other, rfl⟩ := elsewhere
    rw [intact.noted id found there closing]
    refine ⟨.inl, ?_⟩
    rintro (closes | ⟨-, kind⟩)
    · exact closes
    · exact absurd (NodeKind.closes_eq_some_iff.2 kind) other

theorem extended_opens (admits : graph.Admits node.kind node.parents) {closing start : Nat}
    (closes : after.Closes closing start) :
    ∃ opener, after.get? start = some opener ∧ opener.kind.opensBlock = true := by
  have opened : ∃ old, graph.get? start = .some old ∧ old.kind.opensBlock = true := by
    rcases (intact.extended_closes_iff extends_ closing start).1 closes with before | ⟨-, kind⟩
    · exact intact.opens closing start before
    · obtain ⟨old, stored, opens, -⟩ := admits.opened start (NodeKind.closes_eq_some_iff.2 kind)
      exact ⟨old, stored, opens⟩
  obtain ⟨old, stored, opens⟩ := opened
  obtain ⟨later, found, stays⟩ := extends_.growsTo intact.below start old stored
  exact ⟨later, found, stays.kind_eq ▸ opens⟩

theorem extended_single (admits : graph.Admits node.kind node.parents) {closing other start : Nat}
    (closes : after.Closes closing start) (closesToo : after.Closes other start) :
    closing = other := by
  have unclosed (kind : node.kind = .stepEnd start) := intact.not_closes_of_admits admits kind
  rw [intact.extended_closes_iff extends_] at closes closesToo
  rcases closes, closesToo with ⟨before | ⟨rfl, kind⟩, same | ⟨rfl, kindToo⟩⟩
  · exact intact.single start closing other before same
  · exact absurd before (unclosed kindToo closing)
  · exact absurd same (unclosed kind other)
  · rfl

/-- An append keeps a graph intact. -/
theorem extended (admits : graph.Admits node.kind node.parents) (fresh : node.actions = []) :
    after.IsIntact := by
  have number := extends_.id_eq
  have next := extends_.nextId_eq
  have low := intact.firstId_le
  have some : firstId < graph.nextId := by
    obtain ⟨parent, inside⟩ := List.exists_mem_of_ne_nil _ admits.parents_ne_nil
    have bounds := (intact.contains_iff parent).1 (admits.parents_stored parent inside)
    omega
  constructor
  case firstId_le => omega
  case contains_iff =>
    intro id
    rw [extends_.contains_iff, intact.contains_iff]
    omega
  case start_iff =>
    intro id found stored
    rcases extends_.cases stored with ⟨rfl, rfl⟩ | ⟨old, -, there, stays, -⟩
    · exact ⟨fun start => absurd start admits.notStart, fun first => by omega⟩
    · rw [stays.kind_eq]
      exact intact.start_iff id old there
  case start_parents =>
    intro id found stored start
    rcases extends_.cases stored with ⟨rfl, rfl⟩ | ⟨old, -, there, stays, -⟩
    · exact absurd start admits.notStart
    · rw [stays.parents_eq]
      exact intact.start_parents id old there (stays.kind_eq ▸ start)
  case parents =>
    intro id found stored other
    rcases extends_.cases stored with ⟨rfl, rfl⟩ | ⟨old, -, there, stays, -⟩
    · refine ⟨admits.parents_ne_nil, admits.parents_nodup, fun parent inside => ?_⟩
      have known := admits.parents_stored parent inside
      have lower := intact.below parent known
      exact ⟨(extends_.contains_iff parent).2 (.inr known), by omega⟩
    · rw [stays.parents_eq]
      obtain ⟨nonempty, nodup, all⟩ := intact.parents id old there (stays.kind_eq ▸ other)
      refine ⟨nonempty, nodup, fun parent inside => ?_⟩
      obtain ⟨known, lower⟩ := all parent inside
      exact ⟨(extends_.contains_iff parent).2 (.inr known), lower⟩
  case ended =>
    intro id found stored last
    rcases extends_.cases stored with ⟨rfl, rfl⟩ | ⟨old, -, there, stays, -⟩
    · omega
    · have running := (endNode?_eq_none_iff graph).1 admits.notEnded id old there
      exact absurd (stays.kind_eq ▸ last) running
  case heads_nodup =>
    rw [extends_.heads_eq]
    refine nodup_headsAfter intact.heads_nodup fun inside => ?_
    have lower := intact.below _ ((intact.mem_heads_iff _).1 inside).1
    omega
  case mem_heads_iff => exact intact.extended_mem_heads_iff extends_ admits
  case noted => exact fun _ _ stored => intact.extended_noted extends_ admits fresh stored
  case opens => exact fun _ _ => intact.extended_opens extends_ admits
  case single => exact fun _ _ _ => intact.extended_single extends_ admits

end Extended

/-- An action that is no note of a block end keeps a graph intact. -/
theorem attached (intact : graph.IsIntact) {id : Nat} {action : Action}
    (plain : action.kind ≠ .blockEnd) (ok : graph.attach id action = .ok (after, node)) :
    after.IsIntact := by
  have attached := attach_attached ok
  have grows := attach_growsTo ok
  obtain ⟨old, stored, -⟩ := attach_eq_ok.1 ok
  have back {other : Nat} {found : Node} (there : after.get? other = some found) :=
    attach_cases ok plain there
  have contains_eq (other : Nat) : after.contains other = graph.contains other :=
    attached.contains_iff (contains_of_get? stored) other
  have closes_iff (closing start : Nat) : after.Closes closing start ↔ graph.Closes closing start := by
    constructor
    · rintro ⟨found, there, kind⟩
      obtain ⟨before, was, stays, -⟩ := back there
      exact ⟨before, was, stays.kind_eq ▸ kind⟩
    · exact grows.hasKind
  have hasChild_iff (parent : Nat) : after.HasChild parent ↔ graph.HasChild parent := by
    constructor
    · rintro ⟨other, child, there, inside⟩
      obtain ⟨before, was, stays, -⟩ := back there
      exact ⟨other, before, was, stays.parents_eq ▸ inside⟩
    · rintro ⟨other, before, was, inside⟩
      obtain ⟨child, there, stays⟩ := grows other before was
      exact ⟨other, child, there, stays.parents_eq ▸ inside⟩
  constructor
  case firstId_le => exact attached.nextId_eq ▸ intact.firstId_le
  case contains_iff =>
    intro other
    rw [contains_eq, attached.nextId_eq]
    exact intact.contains_iff other
  case start_iff =>
    intro other found there
    obtain ⟨before, was, stays, -⟩ := back there
    rw [stays.kind_eq]
    exact intact.start_iff other before was
  case start_parents =>
    intro other found there start
    obtain ⟨before, was, stays, -⟩ := back there
    rw [stays.parents_eq]
    exact intact.start_parents other before was (stays.kind_eq ▸ start)
  case parents =>
    intro other found there later
    obtain ⟨before, was, stays, -⟩ := back there
    rw [stays.parents_eq]
    simp only [contains_eq]
    exact intact.parents other before was (stays.kind_eq ▸ later)
  case ended =>
    intro other found there last
    obtain ⟨before, was, stays, -⟩ := back there
    rw [attached.nextId_eq]
    exact intact.ended other before was (stays.kind_eq ▸ last)
  case heads_nodup => exact attached.heads_eq ▸ intact.heads_nodup
  case mem_heads_iff =>
    intro other
    rw [attached.heads_eq, contains_eq, hasChild_iff]
    exact intact.mem_heads_iff other
  case noted =>
    intro other found there closing
    obtain ⟨before, was, -, notes⟩ := back there
    rw [notes, closes_iff]
    exact intact.noted other before was closing
  case opens =>
    intro closing start closes
    obtain ⟨opener, was, opens⟩ := intact.opens closing start ((closes_iff closing start).1 closes)
    obtain ⟨found, there, stays⟩ := grows start opener was
    exact ⟨found, there, stays.kind_eq ▸ opens⟩
  case single =>
    intro start closing other closes closesToo
    exact intact.single start closing other ((closes_iff closing start).1 closes)
      ((closes_iff other start).1 closesToo)

/-- What an append makes of an intact graph. -/
theorem append (intact : graph.IsIntact) {kind : NodeKind} {parents : List Nat} {name : String}
    (ok : graph.append kind parents name = .ok (after, node)) :
    after.IsIntact ∧ graph.GrowsTo after ∧ node.id = graph.nextId ∧
      after.nextId = graph.nextId + 1 ∧ after.get? node.id = some node := by
  obtain ⟨extends_, same⟩ := append_extends_of_below intact.below ok
  refine ⟨?_, extends_.growsTo intact.below, extends_.id_eq, extends_.nextId_eq, extends_.stored⟩
  obtain ⟨grows, made⟩ := append_eq_ok.1 ok
  rcases checkGrowth_cases grows with ⟨none, rfl, rfl⟩ | ⟨-, admits⟩
  · -- Where nothing is stored there is nothing to go on from, and the node is the first one.
    have low : graph.nextId ≤ firstId := Nat.le_of_not_lt fun some =>
      not_contains_of_isEmpty none firstId ((intact.contains_iff firstId).2 ⟨Nat.le_refl _, some⟩)
    obtain rfl := intact.eq_empty low
    obtain ⟨rfl, rfl⟩ := Prod.mk.inj made
    exact begun name
  · subst same
    exact intact.extended extends_ admits rfl

end IsIntact

end Graph
end DurableRuns
