/-
# DurableRuns.Proofs.Flow.Refusal -- the steps that a graph refuses, and a graph that failed

A graph that goes on refuses a step for what is wrong with its parents, or with the start that it
names as ended, and for nothing else (`Graph.refuses_iff`); the fault tells what is wrong
(`Graph.Objects`).

A run whose graph refuses a step is closed as failed.  `Graph.Fails` says all that this makes of an
intact graph: each open block is closed by one new node, a flow end follows and is the only head,
and every other node stays as it was (`Graph.IsIntact.fails`).
-/
import DurableRuns.Proofs.Flow.Remnant
import Mathlib.Data.List.Duplicate

namespace DurableRuns

set_option autoImplicit false

/-- An action of a new kind goes last. -/
theorem Action.attachTo_of_forall_ne {action : Action} {actions : List Action}
    (none : ∀ first ∈ actions, first.kind ≠ action.kind) :
    action.attachTo actions = actions ++ [action] := by
  induction actions with
  | nil => rfl
  | cons first rest ih =>
      obtain ⟨different, later⟩ := List.forall_mem_cons.1 none
      rw [attachTo, if_neg different, ih later]
      rfl

namespace Graph

variable {graph : Graph}

/-! ## What is wrong with a step -/

/-- What is wrong with a node of a kind that is to follow some parents, and the fault that tells
it. -/
inductive Objects (graph : Graph) (kind : NodeKind) (parents : List Nat) : GraphFault → Prop
  | noParents (none : parents = []) : Objects graph kind parents (.noParents kind)
  | missing {parent : Nat} (named : parent ∈ parents) (absent : graph.contains parent = false) :
      Objects graph kind parents (.missing parent)
  | twice {parent : Nat} (again : parents.Duplicate parent) :
      Objects graph kind parents (.parentTwice parent)
  | noStart {start : Nat} (ends : kind = .stepEnd start) (absent : graph.contains start = false) :
      Objects graph kind parents (.missing start)
  | notABlock {start : Nat} {opener : Node} (ends : kind = .stepEnd start)
      (stored : graph.get? start = some opener) (plain : opener.kind.opensBlock = false) :
      Objects graph kind parents (.notABlock start)
  | alreadyClosed {start closing : Nat} {opener : Node} (ends : kind = .stepEnd start)
      (stored : graph.get? start = some opener) (closed : opener.blockEnd? = some closing) :
      Objects graph kind parents (.alreadyClosed start closing)

theorem contains_eq_false_of_get? {id : Nat} (absent : graph.get? id = none) :
    graph.contains id = false := by
  cases there : graph.contains id with
  | false => rfl
  | true =>
      obtain ⟨node, stored⟩ := (graph.contains_iff id).1 there
      cases absent.symm.trans stored

/-- Parents are refused if one of them is missing, or is named a second time. -/
theorem checkParents_refuses {earlier parents : List Nat} {fault : GraphFault}
    (refused : graph.checkParents earlier parents = .error fault) :
    (∃ parent ∈ parents, graph.contains parent = false ∧ fault = .missing parent) ∨
      ∃ parent ∈ parents, (parent ∈ earlier ∨ parents.Duplicate parent) ∧
        fault = .parentTwice parent := by
  induction parents generalizing earlier with
  | nil => cases refused
  | cons parent rest ih =>
      rw [checkParents, find] at refused
      cases found : graph.get? parent with
      | none =>
          rw [found] at refused
          cases refused
          exact .inl ⟨parent, List.mem_cons_self, contains_eq_false_of_get? found, rfl⟩
      | some node =>
          rw [found] at refused
          by_cases again : parent ∈ earlier
          · simp only [bind, Except.bind, again, if_true] at refused
            cases refused
            exact .inr ⟨parent, List.mem_cons_self, .inl again, rfl⟩
          · simp only [bind, Except.bind, again, if_false] at refused
            rcases ih refused with ⟨other, named, absent, same⟩ | ⟨other, named, seen, same⟩
            · exact .inl ⟨other, List.mem_cons_of_mem _ named, absent, same⟩
            · refine .inr ⟨other, List.mem_cons_of_mem _ named, ?_, same⟩
              rcases seen with before | twice
              · rcases List.mem_cons.1 before with rfl | before
                · exact .inr (.cons_mem named)
                · exact .inl before
              · exact .inr (.cons_duplicate twice)

/-- The end of a block is refused if the start is missing, opens none or is closed. -/
theorem checkOpen_refuses {kind : NodeKind} {parents : List Nat} {start : Nat} {fault : GraphFault}
    (ends : kind = .stepEnd start) (refused : graph.checkOpen start = .error fault) :
    graph.Objects kind parents fault := by
  rw [checkOpen, find] at refused
  cases stored : graph.get? start with
  | none =>
      rw [stored] at refused
      cases refused
      exact .noStart ends (contains_eq_false_of_get? stored)
  | some opener =>
      rw [stored] at refused
      cases opens : opener.kind.opensBlock with
      | false =>
          simp only [bind, Except.bind, opens, Bool.not_false, if_true] at refused
          cases refused
          exact .notABlock ends stored opens
      | true =>
          simp only [bind, Except.bind, opens, Bool.not_true, Bool.false_eq_true, if_false]
            at refused
          cases closed : opener.blockEnd? with
          | none =>
              rw [closed] at refused
              cases refused
          | some closing =>
              rw [closed] at refused
              cases refused
              exact .alreadyClosed ends stored closed

section Step

variable {kind : NodeKind} {parents : List Nat} {name : String} {fault : GraphFault}
  (stored : graph.isEmpty = false) (running : graph.endNode? = none)

include stored running

/-- The fault for which a node other than a flow start is refused tells what is wrong with it. -/
theorem objects_of_refused [Numbering] (inner : kind ≠ .flowStart)
    (refused : graph.append kind parents name = .error fault) :
    graph.Objects kind parents fault := by
  have checked : graph.checkGrowth kind parents = .error fault := by
    rw [append_eq] at refused
    cases growth : graph.checkGrowth kind parents with
    | ok =>
        rw [growth] at refused
        cases refused
    | error other =>
        rw [growth] at refused
        cases refused
        rfl
  rw [checkGrowth, if_neg inner] at checked
  simp only [stored, running, bind, Except.bind, Option.isSome_none, Bool.false_eq_true, if_false]
    at checked
  by_cases none : parents = []
  · subst none
    cases checked
    exact .noParents rfl
  · have some : parents.isEmpty = false := List.isEmpty_eq_false_iff.2 none
    simp only [some, Bool.false_eq_true, if_false] at checked
    cases listed : graph.checkParents [] parents with
    | error other =>
        rw [listed] at checked
        cases checked
        rcases checkParents_refuses listed with ⟨_, given, absent, rfl⟩ | ⟨_, -, again, rfl⟩
        · exact .missing given absent
        · exact .twice (again.resolve_left List.not_mem_nil)
    | ok =>
        rw [listed] at checked
        cases closes : kind.closes with
        | none =>
            rw [closes] at checked
            cases checked
        | some start =>
            rw [closes] at checked
            exact checkOpen_refuses (NodeKind.closes_eq_some_iff.1 closes) checked

variable (step : kind.isStep = true)

include step

theorem objects_of_append (refused : graph.append kind parents name = .error fault) :
    graph.Objects kind parents fault := by
  refine objects_of_refused stored running ?_ refused
  rintro rfl
  cases step

/-- A graph that goes on refuses a step exactly if something is wrong with its parents, or with the
start that it names as ended. -/
theorem refuses_iff : (∃ fault, graph.append kind parents name = .error fault) ↔
    ∃ fault, graph.Objects kind parents fault := by
  constructor
  · rintro ⟨fault, refused⟩
    exact ⟨fault, objects_of_append stored running step refused⟩
  · rintro ⟨fault, objects⟩
    cases answer : graph.append kind parents name with
    | error other => exact ⟨other, rfl⟩
    | ok grown =>
        have admits := (checkGrowth_eq_ok_of_some stored).1 (append_eq_ok.1 answer).1
        have opened {start : Nat} (ends : kind = .stepEnd start) :=
          admits.opened start (NodeKind.closes_eq_some_iff.2 ends)
        cases objects with
        | noParents none => exact absurd none admits.parents_ne_nil
        | missing given absent => cases absent.symm.trans (admits.parents_stored _ given)
        | twice again => exact absurd admits.parents_nodup again.not_nodup
        | noStart ends absent =>
            obtain ⟨opener, found, -⟩ := opened ends
            cases absent.symm.trans (contains_of_get? found)
        | notABlock ends found plain =>
            obtain ⟨opener, there, opens, -⟩ := opened ends
            obtain rfl := Option.some.inj (found.symm.trans there)
            cases plain.symm.trans opens
        | alreadyClosed ends found closed =>
            obtain ⟨opener, there, -, unclosed⟩ := opened ends
            obtain rfl := Option.some.inj (found.symm.trans there)
            cases closed.symm.trans unclosed

end Step

/-! ## A graph that failed -/

instance (graph : Graph) (start : Nat) : Decidable (graph.IsOpen start) :=
  decidable_of_iff
    ((graph.get? start).any (fun node => node.kind.opensBlock && node.blockEnd?.isNone) = true)
    (by simp [IsOpen, Option.any_eq_true])

/-- What a graph is after its run was closed as failed for a reason. -/
structure Fails (graph : Graph) (reason : String) (after : Graph) : Prop where
  intact : after.IsIntact
  /-- An open block notes the one node that closes it, and this node is new. -/
  closed : ∀ start opener, graph.get? start = some opener → graph.IsOpen start →
    ∃ closing, graph.contains closing = false ∧ (∀ id, after.Closes id start ↔ id = closing) ∧
      after.get? start = some { opener with actions := opener.actions ++ [.blockEnd closing] }
  kept : ∀ id node, graph.get? id = some node → ¬ graph.IsOpen id → after.get? id = some node
  /-- What is new closes an open block, or it is the only head. -/
  added : ∀ id node, graph.contains id = false → after.get? id = some node →
    (∃ start opener, graph.IsOpen start ∧ graph.get? start = some opener ∧
        node.kind = .stepEnd start ∧ node.name = opener.name ∧
        node.actions = [.abnormalClosure reason]) ∨ after.heads = [id]
  /-- The only head is a flow end that tells the reason. -/
  ended : ∃ last, after.heads = [last.id] ∧ after.get? last.id = some last ∧
    graph.contains last.id = false ∧ last.kind = .flowEnd ∧
    last.actions = [.error reason, .abnormalClosure reason]

/-- A repair keeps a graph intact. -/
theorem IsIntact.repaired (intact : graph.IsIntact) (reason : String) :
    (graph.repaired reason).IsIntact :=
  intact.applyNodes (RepairPlan.make_plain graph reason)
    (intact.isGrown.isUsable.apply_make reason)

/-- Every planned node has a number that is new. -/
theorem Plans.contains_eq_false {reason : String} {repair : Repair} (intact : graph.IsIntact)
    (plans : graph.Plans reason repair) {node : Node} (inside : node ∈ repair.nodes) :
    graph.contains node.id = false := by
  have number : node.id ∈ repair.nodes.map (·.id) := List.mem_map_of_mem inside
  rw [plans.numbers, List.mem_range'_1] at number
  refine Bool.eq_false_iff.2 fun there => ?_
  have below := intact.below _ there
  omega

/-- Among the planned nodes of a graph that has some, each but the last closes a block. -/
theorem Plans.cases {reason : String} {repair : Repair} (plans : graph.Plans reason repair)
    (stored : graph.isEmpty = false) {node : Node} (inside : node ∈ repair.nodes) :
    (∃ start ∈ repair.starts, RepairPlan.ClosesAsFailed graph reason start node) ∨
      node = repair.last := by
  have begun : repair.begun = [] := by
    rw [plans.begun_eq, stored]
    rfl
  rw [Repair.nodes, begun, List.nil_append, List.mem_append, List.mem_singleton] at inside
  refine inside.imp_left fun closing => ?_
  have closes := plans.closes
  generalize repair.starts = starts, repair.ends = ends at closes closing
  induction closes with
  | nil => cases closing
  | @cons start first starts ends closesFirst _ ih =>
      rcases List.mem_cons.1 closing with rfl | later
      · exact ⟨start, List.mem_cons_self, closesFirst⟩
      · obtain ⟨other, among, closesOther⟩ := ih later
        exact ⟨other, List.mem_cons_of_mem _ among, closesOther⟩

/-- In an intact graph a repair closes exactly the blocks that are open. -/
theorem Plans.mem_starts_iff_isOpen {reason : String} {repair : Repair} (intact : graph.IsIntact)
    (stored : graph.isEmpty = false) (plans : graph.Plans reason repair) (start : Nat) :
    start ∈ repair.starts ↔ graph.IsOpen start := by
  have usable : graph.usableHeads = graph.heads := intact.isGrown.isUsable.usableHeads_eq stored
  rw [plans.mem_starts_iff, usable]
  refine ⟨And.left, fun isOpen => ⟨isOpen, ?_⟩⟩
  obtain ⟨opener, found, -, unclosed⟩ := isOpen
  refine ⟨intact.reaches (contains_of_get? found), fun closing _ closes => ?_⟩
  cases unclosed.symm.trans ((intact.blockEnd?_eq_some_iff found).2 closes)

/-- **A graph that failed**: where a run is closed as failed, each open block of its intact graph is
closed by one new node, a flow end follows, and all else stays. -/
theorem IsIntact.fails (intact : graph.IsIntact) (stored : graph.isEmpty = false)
    (running : graph.endNode? = none) (reason : String) :
    graph.Fails reason (graph.repaired reason) := by
  have whole : ofParts graph.nodes graph.heads = graph := intact.ofParts_eq fun _ => Iff.rfl
  have remnant : graph.IsRemnant :=
    whole ▸ intact.isRemnant_ofParts (fun _ => id) intact.heads_nodup
  obtain ⟨repair, plans⟩ := remnant.plans running reason
  obtain ⟨after, applied, repairs⟩ := remnant.repairs running plans
  obtain rfl : graph.repaired reason = after := by rw [Graph.repaired, applied]
  have intactNow := intact.repaired reason
  have starts := plans.mem_starts_iff_isOpen intact stored
  have heads : (graph.repaired reason).heads = [repair.last.id] := by
    rw [← repairs.heads]
    refine (List.filter_eq_self.2 fun head inside => ?_).symm
    exact ((intactNow.mem_heads_iff head).1 inside).1
  have last : repair.last ∈ repair.nodes := List.mem_append_right _ List.mem_cons_self
  constructor
  case intact => exact intactNow
  case closed =>
    intro start opener found isOpen
    obtain ⟨_, closing, there, only, noted⟩ := repairs.noted start ((starts start).2 isOpen)
    obtain rfl := Option.some.inj (found.symm.trans there)
    obtain ⟨inside, kind⟩ := (only closing).2 rfl
    have closes : (graph.repaired reason).Closes closing.id start :=
      ⟨closing, repairs.stored closing inside, kind⟩
    refine ⟨closing.id, plans.contains_eq_false intact inside, fun id => ⟨fun other =>
      intactNow.single start id closing.id other closes, ?_⟩, ?_⟩
    · rintro rfl
      exact closes
    · obtain ⟨_, same, -, unclosed⟩ := isOpen
      obtain rfl := Option.some.inj (found.symm.trans same)
      rw [noted, Node.attach, Action.attachTo_of_forall_ne]
      intro first among kind
      obtain ⟨other, rfl⟩ := Action.eq_blockEnd_of_kind kind
      exact Node.blockEnd?_eq_none_iff.1 unclosed other among
  case kept =>
    intro id node found shut
    rw [repairs.others id (contains_of_get? found) fun inside => shut ((starts id).1 inside)]
    exact found
  case added =>
    intro id node new found
    rcases (repairs.contains_iff id).1 (contains_of_get? found) with old | ⟨planned, inside, rfl⟩
    · cases new.symm.trans old
    · obtain rfl := Option.some.inj ((repairs.stored planned inside).symm.trans found)
      rcases plans.cases stored inside with ⟨start, among, closes⟩ | rfl
      · obtain ⟨opener, there, name⟩ := closes.name_eq
        exact .inl ⟨start, opener, (starts start).1 among, there, closes.kind_eq, name,
          closes.actions_eq⟩
      · exact .inr heads
  case ended =>
    exact ⟨repair.last, heads, repairs.stored _ last, plans.contains_eq_false intact last,
      plans.last_kind, plans.last_actions⟩

end Graph
end DurableRuns
