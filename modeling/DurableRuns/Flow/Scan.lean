/-
# DurableRuns.Flow.Scan -- walking a graph back from its heads

`depthFirst` visits every node that can be reached from given heads, each once, parents in
their order.  It works with a stack of numbers and a list of the numbers seen; a number under
which nothing is stored is passed over.  It ends on every table, also on a damaged one with
cycles: each step either sees a stored node for the first time or shortens the stack.

`linear` follows first parents only, from the first head.  On a damaged table it might go
round for ever, so it takes the largest number of nodes that is wanted.
-/
import DurableRuns.Flow.Graph

namespace DurableRuns

set_option autoImplicit false

namespace Scan

/-- The node has not been seen. -/
def isNew (seen : List Nat) (node : Node) : Bool := node.id ∉ seen

/-- The number of stored nodes that have not been seen. -/
def unseen (table : NodeTable) (seen : List Nat) : Nat := table.nodes.countP (isNew seen)

theorem isNew_of_isNew_cons {id : Nat} {seen : List Nat} {node : Node}
    (new : isNew (id :: seen) node = true) : isNew seen node = true := by
  simp [isNew] at new ⊢
  exact new.2

theorem countP_isNew_cons_le (nodes : List Node) (id : Nat) (seen : List Nat) :
    nodes.countP (isNew (id :: seen)) ≤ nodes.countP (isNew seen) :=
  List.countP_mono_left fun _ _ new => isNew_of_isNew_cons new

theorem countP_isNew_cons_lt {nodes : List Node} {node : Node} {seen : List Nat}
    (inside : node ∈ nodes) (new : isNew seen node = true) :
    nodes.countP (isNew (node.id :: seen)) < nodes.countP (isNew seen) := by
  induction nodes with
  | nil => cases inside
  | cons first rest ih =>
      rcases List.mem_cons.1 inside with same | later
      · subst same
        have seenNow : ¬ isNew (node.id :: seen) node = true := by simp [isNew]
        rw [List.countP_cons_of_neg seenNow, List.countP_cons_of_pos new]
        exact Nat.lt_succ_of_le (countP_isNew_cons_le rest node.id seen)
      · have step := ih later
        by_cases newFirst : isNew (node.id :: seen) first = true
        · rw [List.countP_cons_of_pos newFirst,
            List.countP_cons_of_pos (isNew_of_isNew_cons newFirst)]
          exact Nat.succ_lt_succ step
        · rw [List.countP_cons_of_neg newFirst, List.countP_cons]
          exact Nat.lt_of_lt_of_le step (Nat.le_add_right _ _)

theorem unseen_cons_le (table : NodeTable) (id : Nat) (seen : List Nat) :
    unseen table (id :: seen) ≤ unseen table seen :=
  countP_isNew_cons_le table.nodes id seen

theorem unseen_cons_lt {table : NodeTable} {id : Nat} {node : Node} {seen : List Nat}
    (stored : table.get? id = some node) (new : id ∉ seen) :
    unseen table (id :: seen) < unseen table seen := by
  have same := NodeTable.get?_id stored
  have inside : node ∈ table.nodes := List.mem_of_find?_eq_some stored
  subst same
  exact countP_isNew_cons_lt inside (by simpa [isNew] using new)

/-- The nodes reached from a stack of numbers, given the numbers seen before. -/
def fromStack (table : NodeTable) : (stack : List Nat) → (seen : List Nat) → List Node
  | [], _ => []
  | id :: stack, seen =>
      if id ∈ seen then fromStack table stack seen
      else
        match _stored : table.get? id with
        | none => fromStack table stack (id :: seen)
        | some node => node :: fromStack table (node.parents ++ stack) (id :: seen)
  termination_by stack seen => (unseen table seen, stack.length)
  decreasing_by
    · exact Prod.Lex.right _ (by simp)
    · rcases Nat.lt_or_eq_of_le (unseen_cons_le table id seen) with less | same
      · exact Prod.Lex.left _ _ less
      · rw [same]; exact Prod.Lex.right _ (by simp)
    · exact Prod.Lex.left _ _ (unseen_cons_lt _stored (by assumption))

/-- Every node that can be reached from the heads, depth first. -/
def depthFirst (table : NodeTable) (heads : List Nat) : List Node :=
  fromStack table heads []

/-- At most `limit` nodes along first parents, from a number on. -/
def along (table : NodeTable) : (limit : Nat) → Option Nat → List Node
  | 0, _ => []
  | _, none => []
  | limit + 1, some id =>
      match table.get? id with
      | none => []
      | some node => node :: along table limit node.parents.head?

/-- At most `limit` nodes along first parents, from the first head. -/
def linear (table : NodeTable) (heads : List Nat) (limit : Nat) : List Node :=
  along table limit heads.head?

end Scan

namespace Graph

/-- Every node that can be reached from the heads, depth first. -/
def reachable (graph : Graph) : List Node := Scan.depthFirst graph.table graph.heads

/-- At most `limit` nodes along first parents, from the first head. -/
def linear (graph : Graph) (limit : Nat) : List Node :=
  Scan.linear graph.table graph.heads limit

end Graph
end DurableRuns
