/-
# DurableRuns.Proofs.Flow.Traceable -- every node leads back to the flow start

An intact graph asks that block ends are noted by appends alone.  That a node can be traced back
asks for less.  Whatever is attached to it, a graph that calls made from the empty one is
*traceable* (`Graph.IsTraceable.afterAll`): each node follows stored nodes of smaller numbers, and
only the flow start, which is the first node, follows none.
-/
import DurableRuns.Proofs.Flow.AppendOnly

namespace DurableRuns.Graph

set_option autoImplicit false

/-- Every node follows stored nodes of smaller numbers, but for the flow start, which is the first
node. -/
structure IsTraceable (graph : Graph) : Prop where
  usable : graph.IsUsable
  fresh : graph.isEmpty = true → graph.nextId = firstId
  parents : ∀ id node, graph.get? id = some node → ∀ parent ∈ node.parents,
    graph.contains parent = true ∧ parent < id
  begins : ∀ id node, graph.get? id = some node → node.parents = [] → node.kind = .flowStart
  first : ∀ id node, graph.get? id = some node → node.kind = .flowStart → id = firstId

namespace IsTraceable

variable {graph grown : Graph} {node : Node}

theorem empty : Graph.empty.IsTraceable := by
  constructor
  case usable => exact isUsable_empty
  case fresh => exact fun _ => rfl
  case parents =>
    intro id node stored
    cases stored
  case begins =>
    intro id node stored
    cases stored
  case first =>
    intro id node stored
    cases stored

theorem pointsBack (traceable : graph.IsTraceable) : graph.PointsBack :=
  fun node inside parent above =>
    (traceable.parents node.id node ((graph.mem_nodes_iff node).1 inside) parent above).2

theorem append (traceable : graph.IsTraceable) {kind : NodeKind} {parents : List Nat}
    {name : String} (ok : graph.append kind parents name = .ok (grown, node)) :
    grown.IsTraceable := by
  obtain ⟨extended, new⟩ := append_extends_of_below traceable.usable.below ok
  have grows := checkGrowth_cases (append_eq_ok.1 ok).1
  have kept (id : Nat) (there : graph.contains id = true) : grown.contains id = true :=
    (extended.contains_iff id).2 (.inr there)
  constructor
  case usable => exact extended.isUsable traceable.usable
  case fresh =>
    intro none
    exact absurd (contains_of_get? extended.stored) (not_contains_of_isEmpty none node.id)
  case parents =>
    intro id found stored parent above
    rcases extended.cases stored with ⟨rfl, rfl⟩ | ⟨old, -, there, stays, -⟩
    · have known := extended.parents_stored parent above
      exact ⟨kept parent known, extended.id_eq ▸ traceable.usable.below parent known⟩
    · obtain ⟨known, lower⟩ := traceable.parents id old there parent (stays.parents_eq ▸ above)
      exact ⟨kept parent known, lower⟩
  case begins =>
    intro id found stored none
    rcases extended.cases stored with ⟨-, rfl⟩ | ⟨old, -, there, stays, -⟩
    · rcases grows with ⟨-, start, -⟩ | ⟨-, admits⟩
      · rw [new]
        exact start
      · rw [new] at none
        exact absurd none admits.parents_ne_nil
    · rw [stays.kind_eq]
      exact traceable.begins id old there (stays.parents_eq ▸ none)
  case first =>
    intro id found stored start
    rcases extended.cases stored with ⟨rfl, rfl⟩ | ⟨old, -, there, stays, -⟩
    · rcases grows with ⟨none, -, -⟩ | ⟨-, admits⟩
      · exact extended.id_eq.trans (traceable.fresh none)
      · rw [new] at start
        exact absurd start admits.notStart
    · exact traceable.first id old there (stays.kind_eq ▸ start)

theorem attach (traceable : graph.IsTraceable) {id : Nat} {action : Action}
    (ok : graph.attach id action = .ok (grown, node)) : grown.IsTraceable := by
  have attached := attach_attached ok
  obtain ⟨changed, known, rfl, -⟩ := attach_eq_ok.1 ok
  have there := contains_of_get? known
  have same := attached.contains_iff there
  -- Every node was there before, with the kind and the parents that it has.
  have was {other : Nat} {found : Node} (stored : grown.get? other = some found) :
      ∃ old, graph.get? other = some old ∧ old.Stays found := by
    by_cases here : other = id
    · subst here
      obtain rfl := Option.some.inj (stored.symm.trans attached.stored)
      exact ⟨changed, known, changed.stays_attach action⟩
    · rw [attached.others other here] at stored
      exact ⟨found, stored, .refl found⟩
  constructor
  case usable => exact attached.isUsable there traceable.usable
  case fresh =>
    intro none
    exact absurd (contains_of_get? attached.stored) (not_contains_of_isEmpty none id)
  case parents =>
    intro other found stored parent above
    obtain ⟨old, before, stays⟩ := was stored
    rw [same]
    exact traceable.parents other old before parent (stays.parents_eq ▸ above)
  case begins =>
    intro other found stored none
    obtain ⟨old, before, stays⟩ := was stored
    rw [stays.kind_eq]
    exact traceable.begins other old before (stays.parents_eq ▸ none)
  case first =>
    intro other found stored start
    obtain ⟨old, before, stays⟩ := was stored
    exact traceable.first other old before (stays.kind_eq ▸ start)

theorem after (traceable : graph.IsTraceable) (call : GraphCall) :
    (call.after graph).IsTraceable := by
  cases answer : call.perform graph with
  | error fault =>
      rw [GraphCall.after_of_error answer]
      exact traceable
  | ok made =>
      obtain ⟨next, node⟩ := made
      rw [GraphCall.after_of_ok answer]
      cases call with
      | append kind parents name => exact traceable.append answer
      | attach id action => exact traceable.attach answer

/-- Whatever is called, every node can be traced back. -/
theorem afterAll (traceable : graph.IsTraceable) (calls : List GraphCall) :
    (graph.afterAll calls).IsTraceable := by
  induction calls generalizing graph with
  | nil => exact traceable
  | cons call rest ih => exact ih (traceable.after call)

end IsTraceable
end DurableRuns.Graph
