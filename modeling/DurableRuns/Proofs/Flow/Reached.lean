/-
# DurableRuns.Proofs.Flow.Reached -- which nodes a depth-first scan visits

A number is *reached* from heads if it is one of them or a parent of a stored node that is
reached.  A scan passes over numbers under which nothing is stored, so it goes no further
there.

Main statement: `Scan.mem_depthFirst_iff`, a scan visits the stored nodes that are reached and
no others.  It holds of every table, also of a damaged one.
-/
import DurableRuns.Proofs.Flow.RepairPlan

namespace DurableRuns.Scan

set_option autoImplicit false

/-- A number that a walk from the heads back along parents comes to. -/
inductive Reaches (table : NodeTable) (heads : List Nat) : Nat → Prop where
  | head {id : Nat} (inside : id ∈ heads) : Reaches table heads id
  | parent {id : Nat} {node : Node} {parent : Nat} (child : Reaches table heads id)
      (stored : table.get? id = some node) (inside : parent ∈ node.parents) :
      Reaches table heads parent

variable {table : NodeTable}

/-- What a scan visits is reached from its stack. -/
theorem reaches_of_mem_fromStack {heads stack seen : List Nat}
    (all : ∀ id ∈ stack, Reaches table heads id) :
    ∀ node ∈ fromStack table stack seen, Reaches table heads node.id := by
  induction stack, seen using fromStack.induct table with
  | case1 seen => simp
  | case2 id stack seen old ih =>
      rw [fromStack_of_old old]
      exact ih (List.forall_mem_cons.1 all).2
  | case3 id stack seen new absent ih =>
      rw [fromStack_of_absent new absent]
      exact ih (List.forall_mem_cons.1 all).2
  | case4 id stack seen new node stored ih =>
      rw [fromStack_of_new new stored]
      obtain ⟨here, later⟩ := List.forall_mem_cons.1 all
      refine List.forall_mem_cons.2 ⟨NodeTable.get?_id stored ▸ here, ih ?_⟩
      intro other inside
      rcases List.mem_append.1 inside with parent | waiting
      · exact here.parent stored parent
      · exact later other waiting

/-- A scan visits every stored node of its stack, and every stored parent of a node it visits,
but for what had been seen before. -/
theorem fromStack_closed (table : NodeTable) (stack seen : List Nat) :
    (∀ node, node.id ∈ stack → node.id ∉ seen → table.get? node.id = some node →
      node ∈ fromStack table stack seen) ∧
    ∀ child ∈ fromStack table stack seen, ∀ node, node.id ∈ child.parents → node.id ∉ seen →
      table.get? node.id = some node → node ∈ fromStack table stack seen := by
  induction stack, seen using fromStack.induct table with
  | case1 seen => simp
  | case2 id stack seen old ih =>
      rw [fromStack_of_old old]
      refine ⟨fun node inside new stored => ?_, ih.2⟩
      rcases List.mem_cons.1 inside with rfl | waiting
      · exact absurd old new
      · exact ih.1 node waiting new stored
  | case3 id stack seen new absent ih =>
      rw [fromStack_of_absent new absent]
      have other {node : Node} (unseen : node.id ∉ seen)
          (stored : table.get? node.id = some node) : node.id ∉ id :: seen := by
        intro again
        rcases List.mem_cons.1 again with same | earlier
        · cases absent.symm.trans (same ▸ stored)
        · exact unseen earlier
      refine ⟨fun node inside unseen stored => ?_, fun child visited node parent unseen stored =>
        ih.2 child visited node parent (other unseen stored) stored⟩
      have elsewhere := other unseen stored
      rcases List.mem_cons.1 inside with same | waiting
      · exact absurd (same ▸ List.mem_cons_self) elsewhere
      · exact ih.1 node waiting elsewhere stored
  | case4 id stack seen new node stored ih =>
      rw [fromStack_of_new new stored]
      -- The node itself is visited here, and what comes later has not been seen either.
      have visit {other : Node} (unseen : other.id ∉ seen)
          (there : table.get? other.id = some other)
          (later : other.id ∉ id :: seen →
            other ∈ fromStack table (node.parents ++ stack) (id :: seen)) :
          other ∈ node :: fromStack table (node.parents ++ stack) (id :: seen) := by
        by_cases this : other.id = id
        · rw [this] at there
          exact Option.some.inj (stored.symm.trans there) ▸ List.mem_cons_self
        · exact List.mem_cons_of_mem _ (later (by simp [this, unseen]))
      constructor
      · intro other inside unseen there
        refine visit unseen there fun elsewhere => ih.1 other ?_ elsewhere there
        rcases List.mem_cons.1 inside with same | waiting
        · exact absurd (same ▸ List.mem_cons_self) elsewhere
        · exact List.mem_append_right _ waiting
      · intro child visited other parent unseen there
        refine visit unseen there fun elsewhere => ?_
        rcases List.mem_cons.1 visited with rfl | later
        · exact ih.1 other (List.mem_append_left _ parent) elsewhere there
        · exact ih.2 child later other parent elsewhere there

/-- A depth-first scan visits the stored nodes that are reached from the heads. -/
theorem mem_depthFirst_iff {heads : List Nat} {node : Node} :
    node ∈ depthFirst table heads ↔
      table.get? node.id = some node ∧ Reaches table heads node.id := by
  obtain ⟨onStack, onPath⟩ := fromStack_closed table heads []
  constructor
  · intro visited
    exact ⟨((fromStack_spec table heads []).2 node visited).1,
      reaches_of_mem_fromStack (fun _ inside => .head inside) node visited⟩
  · rintro ⟨stored, reached⟩
    generalize number : node.id = id at reached
    induction reached generalizing node with
    | head inside => exact onStack node (number ▸ inside) (by simp) stored
    | parent _ found inside ih =>
        obtain rfl := NodeTable.get?_id found
        exact onPath _ (ih found rfl) node (number ▸ inside) (by simp) stored

theorem nodup_depthFirst (table : NodeTable) (heads : List Nat) :
    (depthFirst table heads).Nodup :=
  (List.pairwise_map.1 (fromStack_spec table heads []).1).imp
    fun different same => different (congrArg Node.id same)

end DurableRuns.Scan
