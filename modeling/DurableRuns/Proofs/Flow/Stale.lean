/-
# DurableRuns.Proofs.Flow.Stale -- a plan fits no graph but the one it was made for

A plan foresees the numbers that its nodes will get.  A graph that has *gone on* since
(`Graph.GoesOnTo`) gives out higher ones, so what it does with the first planned node decides.  It
may refuse it: what a graph admits, a later one admits as well, unless the flow has ended or the
block was closed (`Graph.Admits.of_grown`).  If it takes it, it does so under a number that was not
foreseen.  Either way the plan fails before its second node, and `Graph.Misfit` tells what fails and
what is left of the graph (`RepairPlan.misfit_of_goesOnTo`).

To apply a plan is to make calls, so a graph to which a plan was applied has gone on, be it the same
plan or another one (`RepairPlan.goesOnTo_of_applied`).

Main statement: `Graph.stale_plan_fails`.
-/
import DurableRuns.Proofs.Flow.Numbering
import DurableRuns.Proofs.Flow.Refusal
import DurableRuns.Proofs.Flow.Traceable

namespace DurableRuns

set_option autoImplicit false

namespace Graph

variable {graph between later : Graph} {kind : NodeKind} {parents : List Nat} {name : String}

/-! ## Graphs that have gone on -/

/-- The later graph came of calls on the first one, and at least one of them appended a node. -/
def GoesOnTo [Numbering] (graph later : Graph) : Prop :=
  ∃ calls, graph.appendedBy calls ≠ [] ∧ graph.afterAll calls = later

theorem GoesOnTo.of_append [Numbering] {node : Node}
    (ok : graph.append kind parents name = .ok (between, node)) (calls : List GraphCall) :
    graph.GoesOnTo (between.afterAll calls) := by
  refine ⟨.append kind parents name :: calls, ?_, ?_⟩
  · simp [appendedBy, GraphCall.appended, ok]
  · have here : (GraphCall.append kind parents name).after graph = between :=
      GraphCall.after_of_ok ok
    show ((GraphCall.append kind parents name).after graph).afterAll calls = _
    rw [here]

/-- A graph whose numbers lasted has gone on as where the arithmetic is checked. -/
theorem GoesOnTo.agrees [Numbering] (goesOn : graph.GoesOnTo later) (room : later.HasRoom) :
    @GoesOnTo Numbering.checked graph later := by
  obtain ⟨calls, some, rfl⟩ := goesOn
  obtain ⟨same, appended⟩ := afterAll_agrees room
  exact ⟨calls, appended ▸ some, same.symm⟩

/-- A graph that has gone on has all nodes that it had, and others, and gives out higher numbers. -/
theorem GoesOnTo.grows (below : ∀ id, graph.contains id = true → id < graph.nextId)
    (goesOn : graph.GoesOnTo later) :
    graph.GrowsTo later ∧ later.isEmpty = false ∧ graph.nextId < later.nextId := by
  obtain ⟨calls, some, rfl⟩ := goesOn
  obtain ⟨grows, next, -, stays⟩ := appendedBy_spec below calls
  refine ⟨grows, ?_, ?_⟩
  · obtain ⟨node, inside⟩ := List.exists_mem_of_ne_nil _ some
    obtain ⟨now, stored, -⟩ := stays node inside
    exact Bool.eq_false_iff.2 fun none =>
      not_contains_of_isEmpty none node.id (contains_of_get? stored)
  · have positive := List.length_pos_iff.2 some
    omega

/-! ## What a later graph takes -/

theorem append_of_refused [Numbering] {fault : GraphFault}
    (refused : graph.checkGrowth kind parents = .error fault) :
    graph.append kind parents name = .error fault := by
  rw [append_eq, refused]
  rfl

/-- A flow is not begun a second time. -/
theorem append_flowStart_of_stored [Numbering] (stored : graph.isEmpty = false) :
    graph.append .flowStart parents name = .error .startNotFirst := by
  refine append_of_refused ?_
  rw [checkGrowth, if_pos rfl, stored]
  rfl

/-- A flow that has ended goes on with nothing. -/
theorem append_of_ended [Numbering] {last : Node} (stored : graph.isEmpty = false)
    (ended : graph.endNode? = some last) (inner : kind ≠ .flowStart) :
    graph.append kind parents name = .error .alreadyEnded := by
  refine append_of_refused ?_
  rw [checkGrowth, if_neg inner, stored, ended]
  rfl

/-- What a graph admits, a graph to which it has grown takes, unless the flow has ended or the block
was closed. -/
theorem Admits.of_grown [Numbering]
    (admits : graph.Admits kind parents) (grows : graph.GrowsTo later)
    (name : String) :
    (later.endNode?.isSome = true ∧ later.append kind parents name = .error .alreadyEnded) ∨
      (∃ start opener closing, graph.IsOpen start ∧ later.get? start = some opener ∧
        opener.blockEnd? = some closing ∧
        later.append kind parents name = .error (.alreadyClosed start closing)) ∨
      later.endNode? = none ∧ ∃ grown, later.append kind parents name = .ok grown := by
  have known (parent : Nat) (inside : parent ∈ parents) : later.contains parent = true :=
    grows.contains (admits.parents_stored parent inside)
  have stored : later.isEmpty = false := by
    obtain ⟨parent, inside⟩ := List.exists_mem_of_ne_nil _ admits.parents_ne_nil
    exact Bool.eq_false_iff.2 fun none => not_contains_of_isEmpty none parent (known parent inside)
  have opened (start : Nat) (ends : kind = .stepEnd start) : graph.IsOpen start ∧
      ∃ now, later.get? start = some now ∧ now.kind.opensBlock = true := by
    have isOpen := admits.opened start (NodeKind.closes_eq_some_iff.2 ends)
    obtain ⟨opener, there, opens, -⟩ := id isOpen
    obtain ⟨now, found, stays⟩ := grows start opener there
    exact ⟨isOpen, now, found, stays.kind_eq ▸ opens⟩
  cases ended : later.endNode? with
  | some last => exact .inl ⟨rfl, append_of_ended stored ended admits.notStart⟩
  | none =>
      cases answer : later.append kind parents name with
      | ok grown => exact .inr (.inr ⟨rfl, grown, rfl⟩)
      | error fault =>
          -- Of all that a graph can object to, only a block that was closed is left.
          cases objects_of_refused stored ended admits.notStart answer with
          | noParents none => exact absurd none admits.parents_ne_nil
          | missing named absent => cases absent.symm.trans (known _ named)
          | twice again => exact absurd admits.parents_nodup again.not_nodup
          | noStart ends absent =>
              obtain ⟨-, now, found, -⟩ := opened _ ends
              cases absent.symm.trans (contains_of_get? found)
          | notABlock ends found plain =>
              obtain ⟨-, now, there, opens⟩ := opened _ ends
              obtain rfl := Option.some.inj (found.symm.trans there)
              cases plain.symm.trans opens
          | alreadyClosed ends found closed =>
              exact .inr (.inl ⟨_, _, _, (opened _ ends).1, found, closed, rfl⟩)

/-- Why planned nodes that a graph would take do not fit a later one, and what is left of this
one. -/
inductive Misfit [Numbering] (graph later : Graph) : Graph → GraphFault → Prop
  /-- The flow was to be begun, and has begun. -/
  | begun (none : graph.isEmpty = true) : Misfit graph later later .startNotFirst
  | ended (last : later.endNode?.isSome = true) : Misfit graph later later .alreadyEnded
  /-- The block was open, and is closed. -/
  | closed {start closing : Nat} {opener : Node} (isOpen : graph.IsOpen start)
      (stored : later.get? start = some opener) (closed : opener.blockEnd? = some closing) :
      Misfit graph later later (.alreadyClosed start closing)
  /-- One node is appended, under another number. -/
  | renumbered {left : Graph} (node : Node) (running : later.endNode? = none)
      (ok : later.append node.kind node.parents node.name = .ok (left, node))
      (number : node.id = later.nextId) :
      Misfit graph later left (.outOfPlan graph.nextId later.nextId)

end Graph

/-! ## Plans -/

namespace RepairPlan

open DurableRuns.Graph

variable {graph done later : Graph} {planned stored : List Node}

/-- Where planned nodes are applied, the graph goes on. -/
theorem goesOnTo_of_applied [Numbering] (some : planned ≠ [])
    (applied : applyNodes planned graph = (done, .ok stored)) : graph.GoesOnTo done := by
  cases planned with
  | nil => exact absurd rfl some
  | cons first rest =>
      obtain ⟨between, node, -, ok, number, -⟩ := applyNodes_cons_eq_ok.1 applied
      have same := fst_applyNodes_cons graph first rest
      obtain ⟨attaches, attached, -⟩ := exists_calls_attachAll between node.id first.actions
      obtain ⟨calls, called, -⟩ :=
        exists_calls_applyNodes rest (attachAll between node.id first.actions)
      rw [applied, ok] at same
      simp only [number, if_true] at same
      rw [same, ← number, ← called, ← attached, ← afterAll_append]
      exact .of_append ok (attaches ++ calls)

/-- **Planned nodes that a graph takes fit no graph to which it has gone on.** -/
theorem misfit_of_goesOnTo [Numbering]
    (below : ∀ id, graph.contains id = true → id < graph.nextId) (some : planned ≠ [])
    (applied : @applyNodes Numbering.checked planned graph = (done, .ok stored))
    (goesOn : @GoesOnTo Numbering.checked graph later) :
    ∃ left fault, applyNodes planned later = (left, .error fault) ∧
      graph.Misfit later left fault := by
  obtain ⟨grows, stands, higher⟩ := goesOn.grows below
  cases planned with
  | nil => exact absurd rfl some
  | cons first rest =>
      obtain ⟨between, node, -, ok, number, -⟩ :=
        (@applyNodes_cons_eq_ok Numbering.checked ..).1 applied
      obtain ⟨grew, rfl, -⟩ := @admitted_of_append Numbering.checked _ _ _ _ _ _ ok
      have foreseen : first.id = graph.nextId := number.symm
      -- A later graph that refuses the first node is left as it is.
      have refused {fault : GraphFault}
          (refuses : later.append first.kind first.parents first.name = .error fault)
          (misfit : graph.Misfit later later fault) :
          ∃ left fault, applyNodes (first :: rest) later = (left, .error fault) ∧
            graph.Misfit later left fault :=
        ⟨later, fault, by rw [applyNodes_eq, refuses], misfit⟩
      rcases checkGrowth_cases grew with ⟨none, start, -⟩ | ⟨-, admits⟩
      · exact refused (start ▸ append_flowStart_of_stored stands) (.begun none)
      · rcases admits.of_grown grows first.name with
          ⟨last, refuses⟩ | ⟨start, opener, closing, isOpen, found, closed, refuses⟩ |
            ⟨running, ⟨left, made⟩, takes⟩
        · exact refused refuses (.ended last)
        · exact refused refuses (.closed isOpen found closed)
        · obtain ⟨-, rfl, -⟩ := admitted_of_append takes
          have other : later.nextId ≠ graph.nextId := by omega
          refine ⟨left, .outOfPlan graph.nextId later.nextId, ?_,
            .renumbered (later.newNode first.kind first.parents first.name) running takes rfl⟩
          rw [applyNodes_eq, takes]
          simp only [newNode, foreseen, ne_eq, other, not_false_eq_true, if_true]

end RepairPlan

namespace Graph

open RepairPlan (make nodes_make_eq_nil_iff goesOnTo_of_applied misfit_of_goesOnTo)

variable {graph later left : Graph} {fault : GraphFault}

/-- What does not fit is a failure of integrity: no node is wanting. -/
theorem Misfit.message_eq [Numbering] (misfit : graph.Misfit later left fault) :
    fault.message = "graph integrity failure: " ++ fault.detail := by
  cases misfit <;> rfl

/-- A graph in which the flow has ended is left as it is. -/
theorem Misfit.left_eq [Numbering] (misfit : graph.Misfit later left fault)
    (ended : later.endNode?.isSome = true) : left = later := by
  cases misfit with
  | renumbered _ running =>
      rw [running] at ended
      cases ended
  | _ => rfl

/-- What is left of a graph has room for the next number if that graph had, and if there was one for
a node that it might take. -/
theorem Misfit.hasRoom [Numbering] (misfit : graph.Misfit later left fault) (room : later.HasRoom)
    (next : later.endNode? = none → later.nextId + 1 < UInt64.size) : left.HasRoom := by
  cases misfit with
  | renumbered node running ok number =>
      refine hasRoom_iff.2 fun id there => ?_
      rcases ((admitted_of_append ok).2.2 id).1 there with rfl | old
      · exact number ▸ next running
      · exact hasRoom_iff.1 room id old
  | _ => exact room

/-- A plan applies in full to what is left of a graph, and the flow has ended then. -/
theorem IsRemnant.plan_applies (remnant : graph.IsRemnant) (running : graph.endNode? = none)
    (reason : String) : ∃ done,
      (make graph reason).apply graph = (done, .ok (make graph reason).nodes) ∧
        done.endNode?.isSome = true := by
  obtain ⟨repair, plans⟩ := remnant.plans running reason
  obtain ⟨done, applied, repairs⟩ := remnant.repairs running plans
  have ended : done.endNode? ≠ none := fun goesOn =>
    (done.endNode?_eq_none_iff_hasKind).1 goesOn repair.last.id ((repairs.flowEnd_iff _).2 rfl)
  rw [plans.planned]
  exact ⟨done, applied, Option.isSome_iff_ne_none.2 ended⟩

/-- A plan for what is left of a graph fits no graph to which it has gone on. -/
theorem IsRemnant.plan_misfits [Numbering] {reason : String} (remnant : graph.IsRemnant)
    (some : (make graph reason).nodes ≠ [])
    (planRoom : ∀ node ∈ (make graph reason).nodes.dropLast, node.id + 1 < UInt64.size)
    (goesOn : @GoesOnTo Numbering.checked graph later) :
    ∃ left fault, (make graph reason).apply later = (left, .error fault) ∧
      graph.Misfit later left fault := by
  have running : ¬ graph.endNode?.isSome = true := mt (nodes_make_eq_nil_iff graph reason).2 some
  obtain ⟨done, applied, -⟩ :=
    remnant.plan_applies (Option.not_isSome_iff_eq_none.1 running) reason
  rw [← RepairPlan.make_agrees planRoom] at applied
  exact misfit_of_goesOnTo remnant.usable.below some applied goesOn

/-- **A stale plan never succeeds.**  Take any graph that calls made, keep any of its nodes, and
record any heads, each once; let the plan for what is left not be empty.  A plan for it, for this
reason or another, applies in full, and the graph has then gone on and has ended.  On every graph to
which it has gone on, be it by such a plan or by calls of which one or more append, the plan fails,
and with a failure of integrity: `Misfit` tells all ways in which it can.  If the flow has ended
there, the graph is left as it is.

Each number that is counted on from must have another one of 64 bits after it: those of the nodes
and heads, those of the plan but its last, and those in what applying a plan leaves.  It does not
matter then how a program would go on after the last one. -/
theorem stale_plan_fails [Numbering] (calls : List GraphCall) (kept : List Node)
    (subset : ∀ node ∈ kept, node ∈ (empty.afterAll calls).nodes) (heads : List Nat)
    (nodup : heads.Nodup) (reason : String)
    (some : (make (ofParts kept heads) reason).nodes ≠ [])
    (room : (empty.afterAll calls).HasRoom) (headRoom : ∀ head ∈ heads, head + 1 < UInt64.size)
    (planRoom : ∀ node ∈ (make (ofParts kept heads) reason).nodes.dropLast,
      node.id + 1 < UInt64.size) :
    (∀ other, (∀ node ∈ (make (ofParts kept heads) other).nodes, node.id + 1 < UInt64.size) →
      ∃ done, (make (ofParts kept heads) other).apply (ofParts kept heads) =
          (done, .ok (make (ofParts kept heads) other).nodes) ∧
        done.endNode?.isSome = true ∧ (ofParts kept heads).GoesOnTo done ∧
        ((make (ofParts kept heads) reason).apply done).1.HasRoom) ∧
    ∀ later, (ofParts kept heads).GoesOnTo later →
        ((make (ofParts kept heads) reason).apply later).1.HasRoom → ∃ left fault,
      (make (ofParts kept heads) reason).apply later = (left, .error fault) ∧
      fault.message = "graph integrity failure: " ++ fault.detail ∧
      (later.endNode?.isSome = true → left = later) ∧
      (ofParts kept heads).Misfit later left fault := by
  have keptRoom : ∀ node ∈ kept, node.id + 1 < UInt64.size :=
    fun node inside => room node (subset node inside)
  have graphRoom : (ofParts kept heads).HasRoom := hasRoom_ofParts keptRoom heads
  have remnant : (ofParts kept heads).IsRemnant := by
    rw [ofParts_agrees keptRoom headRoom]
    rw [(afterAll_agrees room).1] at subset
    exact (IsTraceable.empty.afterAll calls).pointsBack.isRemnant_ofParts subset nodup
  generalize ofParts kept heads = graph at remnant graphRoom some planRoom ⊢
  have running : ¬ graph.endNode?.isSome = true := mt (nodes_make_eq_nil_iff graph reason).2 some
  constructor
  · intro other room
    have planned : (make graph other).nodes ≠ [] := mt (nodes_make_eq_nil_iff graph other).1 running
    obtain ⟨done, applied, ended⟩ :=
      remnant.plan_applies (Option.not_isSome_iff_eq_none.1 running) other
    rw [← RepairPlan.make_agrees fun node inside => room node (List.dropLast_subset _ inside)]
      at applied
    have applied' := RepairPlan.applyNodes_agrees room applied
    have doneRoom : done.HasRoom := RepairPlan.hasRoom_of_applied room graphRoom applied'
    have goesOn : graph.GoesOnTo done := goesOnTo_of_applied planned applied'
    obtain ⟨left, fault, fails, misfit⟩ :=
      remnant.plan_misfits some planRoom (goesOn.agrees doneRoom)
    refine ⟨done, applied', ended, goesOn, ?_⟩
    rw [fails, misfit.left_eq ended]
    exact doneRoom
  · intro later goesOn room
    obtain ⟨calls, called, -⟩ := RepairPlan.exists_calls_applyNodes (make graph reason).nodes later
    have laterRoom : later.HasRoom := HasRoom.of_afterAll (called ▸ room)
    obtain ⟨left, fault, fails, misfit⟩ :=
      remnant.plan_misfits some planRoom (goesOn.agrees laterRoom)
    exact ⟨left, fault, fails, misfit.message_eq, misfit.left_eq, misfit⟩

/-- A plan for damaged blocks: after one more node its first node would get another number, and
after a plan for another reason the flow has ended. -/
theorem stale_plan_of_nestedBlocks :
    let kept := (empty.afterAll nestedBlocks).nodes.filter fun node => node.id ∈ [2, 4, 5]
    let graph := ofParts kept [9, 5, 3]
    let later := graph.afterAll [.append .atom [5] "late"]
    (∀ node ∈ kept, node ∈ (empty.afterAll nestedBlocks).nodes) ∧ [9, 5, 3].Nodup ∧
      (make graph "lost").nodes ≠ [] ∧ graph.GoesOnTo later ∧
      (∃ left, (make graph "lost").apply later = (left, .error (.outOfPlan 10 11))) ∧
      ∃ done, (make graph "other").apply graph = (done, .ok (make graph "other").nodes) ∧
        ∃ fault, (make graph "lost").apply done = (done, .error fault) := by
  intro kept graph later
  have subset : ∀ node ∈ kept, node ∈ (empty.afterAll nestedBlocks).nodes := by decide
  have planned : (make graph "lost").nodes ≠ [] :=
    mt (nodes_make_eq_nil_iff graph "lost").1 (by decide)
  have goesOn : graph.GoesOnTo later := ⟨[.append .atom [5] "late"], by decide, rfl⟩
  have planRoom (reason : String) : ∀ node ∈ (make graph reason).nodes,
      node.id + 1 < UInt64.size := by
    have few : graph.nextId + graph.size + 2 < UInt64.size := by decide +kernel
    intro node inside
    have low := RepairPlan.id_le_of_planned inside
    omega
  have leftRoom : ((make graph "lost").apply later).1.HasRoom := by
    have remnant : graph.IsRemnant :=
      (IsTraceable.empty.afterAll nestedBlocks).pointsBack.isRemnant_ofParts subset (by decide)
    obtain ⟨left, fault, fails, misfit⟩ := remnant.plan_misfits planned
      (fun node inside => planRoom "lost" node (List.dropLast_subset _ inside)) goesOn
    rw [fails]
    exact misfit.hasRoom (by decide +kernel) fun _ => by decide +kernel
  obtain ⟨applies, stale⟩ :=
    stale_plan_fails nestedBlocks kept subset [9, 5, 3] (by decide) "lost" planned
      (by decide +kernel) (by decide +kernel)
      fun node inside => planRoom "lost" node (List.dropLast_subset _ inside)
  refine ⟨subset, by decide, planned, goesOn, ?_, ?_⟩
  · obtain ⟨left, fault, fails, -, -, misfit⟩ := stale later goesOn leftRoom
    have running : later.endNode? = none := by decide
    cases misfit with
    | begun none => exact absurd none (by decide)
    | ended last =>
        rw [running] at last
        cases last
    | closed _ stored closed =>
        have inside := List.mem_of_find?_eq_some stored
        have unclosed : ∀ node ∈ later.nodes, node.blockEnd? = none := by decide
        cases (unclosed _ inside).symm.trans closed
    | renumbered => exact ⟨left, fails⟩
  · obtain ⟨done, applied, ended, after, room⟩ := applies "other" (planRoom "other")
    obtain ⟨left, fault, fails, -, stays, -⟩ := stale done after room
    obtain rfl := stays ended
    exact ⟨left, applied, fault, fails⟩

end Graph
end DurableRuns
