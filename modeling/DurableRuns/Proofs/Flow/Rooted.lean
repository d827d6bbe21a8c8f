/-
# DurableRuns.Proofs.Flow.Rooted -- graphs read from whatever a directory holds

Nodes and heads that are read from a damaged directory need not make a graph that can be used: a
head may be recorded twice, a node may have a number below those of its parents.  Yet the heads
that a run goes on from are stored, and numbers go on above all that is stored
(`Graph.isRooted_regain`).  A repair keeps it so, however far it comes, and the blocks that it
closes are there (`Graph.IsRooted.applyNodes`).
-/
import DurableRuns.Proofs.Flow.Orderly

namespace DurableRuns.Graph

set_option autoImplicit false

/-- The heads are stored, and numbers go on above all that is stored. -/
structure IsRooted (graph : Graph) : Prop where
  heads_stored : ∀ head ∈ graph.heads, graph.contains head = true
  below : ∀ id, graph.contains id = true → id < graph.nextId

variable {graph before after : Graph} {node : Node}

theorem IsRooted.heads_lt (rooted : graph.IsRooted) {head : Nat} (inside : head ∈ graph.heads) :
    head < graph.nextId :=
  rooted.below head (rooted.heads_stored head inside)

/-- Whatever nodes and heads are read, what is regained from them is rooted. -/
theorem isRooted_regain (table : NodeTable) (heads : List Nat) : (regain table heads).IsRooted := by
  have same (id : Nat) : (regain table heads).contains id = table.contains id := by
    rw [contains, table_regain]
  constructor
  case below => exact fun id there => contains_lt_nextId_regain ((same id).symm.trans there)
  case heads_stored =>
    intro head inside
    rw [same]
    rw [heads_regain] at inside
    split at inside
    · obtain ⟨node, member, rfl⟩ := List.mem_map.1 (List.mem_of_mem_filter inside)
      exact (table.contains_iff _).2 ⟨node, (table.mem_nodes_iff node).1 member⟩
    · exact (List.mem_filter.1 inside).2

theorem Extends.isRooted (extended : before.Extends after node) (rooted : before.IsRooted) :
    after.IsRooted := by
  constructor
  case heads_stored =>
    rw [extended.heads_eq]
    intro head inside
    rw [extended.contains_iff]
    exact (mem_of_mem_headsAfter inside).imp_right (rooted.heads_stored head)
  case below => exact extended.lt_nextId rooted.below

theorem Attached.isRooted {id : Nat} (attached : before.Attached after id node)
    (there : before.contains id = true) (rooted : before.IsRooted) : after.IsRooted := by
  constructor
  case heads_stored =>
    intro head inside
    rw [attached.contains_iff there]
    exact rooted.heads_stored head (attached.heads_eq ▸ inside)
  case below => exact attached.lt_nextId there rooted.below

/-- What nodes that are appended keep and bring along. -/
structure IsRooted.Grows (before after : Graph) (applied : Except GraphFault (List Node)) :
    Prop where
  rooted : after.IsRooted
  kept : ∀ id, before.contains id = true → after.contains id = true
  opened : ∀ nodes, applied = .ok nodes → ∀ node ∈ nodes, ∀ start,
    node.kind.closes = some start → after.contains start = true

/-- The nodes of a plan are appended as far as the graph admits them. -/
theorem IsRooted.applyNodes (rooted : graph.IsRooted) {planned : List Node}
    {applied : Except GraphFault (List Node)}
    (done : RepairPlan.applyNodes planned graph = (after, applied)) :
    IsRooted.Grows graph after applied := by
  -- A plan may stop at any of its nodes, and what was admitted before then stays.
  induction planned generalizing graph applied with
  | nil =>
      cases done
      refine ⟨rooted, fun _ => id, ?_⟩
      intro nodes same node inside
      cases same
      cases inside
  | cons first rest ih =>
      rw [RepairPlan.applyNodes_eq] at done
      cases appended : graph.append first.kind first.parents first.name with
      | error fault =>
          rw [appended] at done
          cases done
          exact ⟨rooted, fun _ => id, fun _ none => by cases none⟩
      | ok grown =>
          obtain ⟨between, node⟩ := grown
          obtain ⟨extended, -⟩ := append_extends_of_below rooted.below appended
          have rootedNow := extended.isRooted rooted
          have kept (id : Nat) (there : graph.contains id = true) : between.contains id = true :=
            (extended.contains_iff id).2 (.inr there)
          rw [appended] at done
          dsimp only at done
          split at done
          · cases done
            exact ⟨rootedNow, kept, fun _ none => by cases none⟩
          · have here := contains_of_get? extended.stored
            have attached := attachAll_attached extended.stored first.actions
            have still := attached.contains_iff here
            rw [attached.stored] at done
            split at done
            next left later applies =>
              cases done
              have grows := ih (attached.isRooted here rootedNow) applies
              have stays (id : Nat) (there : between.contains id = true) :
                  after.contains id = true :=
                grows.kept id ((still id).trans there)
              refine ⟨grows.rooted, fun id there => stays id (kept id there), ?_⟩
              rintro nodes same other inside start closes
              obtain rfl := Except.ok.inj same
              rcases List.mem_cons.1 inside with rfl | more
              · rw [Option.getD_some, Node.attachEach_kind] at closes
                exact stays start (extended.start_stored closes)
              · exact grows.opened later rfl other more start closes
            next left fault applies =>
              cases done
              have grows := ih (attached.isRooted here rootedNow) applies
              exact ⟨grows.rooted, fun id there => grows.kept id ((still id).trans (kept id there)),
                fun _ none => by cases none⟩

end DurableRuns.Graph
