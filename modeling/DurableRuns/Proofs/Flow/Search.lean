/-
# DurableRuns.Proofs.Flow.Search -- a depth-first scan is a depth-first search

`search` is the depth-first search as it is told by recursion: it takes numbers in order, passes
over those under which nothing is stored and those of nodes that it has visited, and for any other
goes on with the parents of the node before it takes the next number.  The nodes that it has
visited are all that it remembers.

A scan keeps a stack instead, in which a number may wait several times, and marks a number when it
takes it from there.  What waits on the stack is what the search has yet to take, so the two visit
the same nodes in the same order (`search_eq`).

A scan is asked for one node after the other (`next?`).  Main statement: `isDepthFirstSearch`.
-/
import DurableRuns.Proofs.Flow.Reached

namespace DurableRuns.Scan

set_option autoImplicit false

/-! ## The search -/

/-- The number of stored nodes that a search has not visited. -/
def unvisited (table : NodeTable) (visited : List Node) : Nat :=
  table.nodes.countP (· ∉ visited)

theorem unvisited_le (table : NodeTable) {before after : List Node} (grown : before <+: after) :
    unvisited table after ≤ unvisited table before := by
  refine List.countP_mono_left fun node _ new => ?_
  simp only [decide_not, Bool.not_eq_true', decide_eq_false_iff_not] at new ⊢
  exact fun old => new (grown.subset old)

theorem unvisited_concat_lt {table : NodeTable} {visited : List Node} {node : Node} {id : Nat}
    (stored : table.get? id = some node) (new : node ∉ visited) :
    unvisited table (visited ++ [node]) < unvisited table visited := by
  have inside : node ∈ table.nodes := List.mem_of_find?_eq_some stored
  obtain ⟨front, back, whole⟩ := List.append_of_mem inside
  have less (part : List Node) :
      part.countP (· ∉ visited ++ [node]) ≤ part.countP (· ∉ visited) :=
    List.countP_mono_left fun other _ => by simp +contextual
  have front_le := less front
  have back_le := less back
  simp only [unvisited, whole, List.countP_append, List.countP_cons]
  simp only [List.mem_append, List.mem_singleton, or_true, not_true, decide_false, new,
    not_false_eq_true, decide_true, if_true, Bool.false_eq_true, if_false] at *
  omega

/-- The depth-first search from numbers in order, with the nodes that were visited before; it gives
these with the nodes that it visits, in order. -/
def search (table : NodeTable) :
    (visited : List Node) → List Nat → { after : List Node // visited <+: after }
  | visited, [] => ⟨visited, List.prefix_refl _⟩
  | visited, id :: ids =>
      match _stored : table.get? id with
      | none => search table visited ids
      | some node =>
          if _old : node ∈ visited then search table visited ids
          else
            let below := search table (visited ++ [node]) node.parents
            let later := search table below.1 ids
            ⟨later.1, (List.prefix_append ..).trans (below.2.trans later.2)⟩
  termination_by visited ids => (unvisited table visited, ids.length)
  decreasing_by
    · exact Prod.Lex.right _ (by simp)
    · exact Prod.Lex.right _ (by simp)
    · exact Prod.Lex.left _ _ (unvisited_concat_lt _stored _old)
    · have grown := (List.prefix_append visited [node]).trans below.2
      rcases Nat.lt_or_eq_of_le (unvisited_le table grown) with less | same
      · exact Prod.Lex.left _ _ less
      · rw [same]; exact Prod.Lex.right _ (by simp)

section Equations

variable {table : NodeTable} {visited : List Node} {id : Nat} {ids : List Nat} {node : Node}

@[simp]
theorem search_nil : (search table visited []).1 = visited := by
  rw [search]

theorem search_of_absent (absent : table.get? id = none) :
    (search table visited (id :: ids)).1 = (search table visited ids).1 := by
  rw [search]
  split
  · rfl
  next found => cases absent.symm.trans found

theorem search_of_old (stored : table.get? id = some node) (old : node ∈ visited) :
    (search table visited (id :: ids)).1 = (search table visited ids).1 := by
  rw [search]
  split
  · rfl
  next other found =>
    obtain rfl := Option.some.inj (stored.symm.trans found)
    rw [dif_pos old]

theorem search_of_new (stored : table.get? id = some node) (new : node ∉ visited) :
    (search table visited (id :: ids)).1 =
      (search table (search table (visited ++ [node]) node.parents).1 ids).1 := by
  rw [search]
  split
  next absent => cases stored.symm.trans absent
  next other found =>
    obtain rfl := Option.some.inj (stored.symm.trans found)
    rw [dif_neg new]

/-- To search from numbers and then from others is to search from all of them in order. -/
theorem search_append (table : NodeTable) (visited : List Node) (ids others : List Nat) :
    (search table visited (ids ++ others)).1 =
      (search table (search table visited ids).1 others).1 := by
  induction ids generalizing visited with
  | nil => rw [List.nil_append, search_nil]
  | cons id rest ih =>
      rw [List.cons_append]
      cases stored : table.get? id with
      | none => rw [search_of_absent stored, search_of_absent stored, ih]
      | some node =>
          by_cases old : node ∈ visited
          · rw [search_of_old stored old, search_of_old stored old, ih]
          · rw [search_of_new stored old, search_of_new stored old, ih]

end Equations

/-- The nodes that a depth-first search visits from the heads, in order. -/
def preorder (table : NodeTable) (heads : List Nat) : List Node := (search table [] heads).1

/-! ## The stack of a scan -/

/-- A scan has seen the numbers of the nodes that a search has visited, and besides them at most
numbers under which nothing is stored. -/
def Marks (table : NodeTable) (visited : List Node) (seen : List Nat) : Prop :=
  ∀ id node, table.get? id = some node → (id ∈ seen ↔ node ∈ visited)

section Marks

variable {table : NodeTable} {visited : List Node} {seen : List Nat} {id : Nat}

theorem Marks.of_absent (marks : Marks table visited seen) (absent : table.get? id = none) :
    Marks table visited (id :: seen) := by
  intro other node stored
  have different : other ≠ id := by
    rintro rfl
    cases absent.symm.trans stored
  rw [List.mem_cons, or_iff_right different]
  exact marks other node stored

theorem Marks.visit (marks : Marks table visited seen) {node : Node}
    (stored : table.get? id = some node) : Marks table (visited ++ [node]) (id :: seen) := by
  intro other found there
  have same : other = id ↔ found = node := by
    constructor
    · rintro rfl
      exact Option.some.inj (there.symm.trans stored)
    · rintro rfl
      exact (NodeTable.get?_id there).symm.trans (NodeTable.get?_id stored)
  rw [List.mem_cons, List.mem_append, List.mem_singleton, marks other found there, same, or_comm]

/-- What waits on the stack of a scan is what the search has yet to take. -/
theorem search_eq (table : NodeTable) (stack seen : List Nat) {visited : List Node}
    (marks : Marks table visited seen) :
    (search table visited stack).1 = visited ++ fromStack table stack seen := by
  induction stack, seen using fromStack.induct table generalizing visited with
  | case1 seen => rw [search_nil, fromStack_nil, List.append_nil]
  | case2 id stack seen old ih =>
      rw [fromStack_of_old old, ← ih marks]
      cases stored : table.get? id with
      | none => exact search_of_absent stored
      | some node => exact search_of_old stored ((marks id node stored).1 old)
  | case3 id stack seen new absent ih =>
      rw [fromStack_of_absent new absent, search_of_absent absent, ih (marks.of_absent absent)]
  | case4 id stack seen new node stored ih =>
      have unvisited : node ∉ visited := fun old => new ((marks id node stored).2 old)
      rw [fromStack_of_new new stored, search_of_new stored unvisited, ← search_append,
        ih (marks.visit stored), List.append_assoc, List.singleton_append]

end Marks

/-- A depth-first scan visits what a depth-first search does, in the same order. -/
theorem depthFirst_eq_preorder (table : NodeTable) (heads : List Nat) :
    depthFirst table heads = preorder table heads := by
  have marks : Marks table [] [] := fun id node _ => by simp
  rw [preorder, search_eq table heads [] marks, List.nil_append]
  rfl

/-! ## One node after the other -/

/-- The next node of a scan, with the stack and the numbers seen after it; `none` if the stack has
run out. -/
def next? (table : NodeTable) :
    (stack : List Nat) → (seen : List Nat) → Option (Node × List Nat × List Nat)
  | [], _ => none
  | id :: stack, seen =>
      if id ∈ seen then next? table stack seen
      else
        match table.get? id with
        | none => next? table stack (id :: seen)
        | some node => some (node, node.parents ++ stack, id :: seen)

/-- A scan that is asked for one node after the other gives these nodes, and then no more. -/
inductive Gives (table : NodeTable) : (stack seen : List Nat) → List Node → Prop where
  | ends {stack seen : List Nat} (none : next? table stack seen = none) : Gives table stack seen []
  | node {stack seen stack' seen' : List Nat} {node : Node} {later : List Node}
      (here : next? table stack seen = some (node, stack', seen'))
      (rest : Gives table stack' seen' later) : Gives table stack seen (node :: later)

section Gives

variable {table : NodeTable} {stack seen : List Nat} {nodes others : List Node}

/-- A scan that is asked for its nodes comes to an end. -/
theorem gives_fromStack (table : NodeTable) (stack seen : List Nat) :
    Gives table stack seen (fromStack table stack seen) := by
  -- What goes on with another stack and gives the same node next gives the same nodes.
  have skips {stack seen stack' seen' : List Nat} {nodes : List Node}
      (same : next? table stack seen = next? table stack' seen')
      (gives : Gives table stack' seen' nodes) : Gives table stack seen nodes := by
    cases gives with
    | ends none => exact .ends (same.trans none)
    | node here rest => exact .node (same.trans here) rest
  induction stack, seen using fromStack.induct table with
  | case1 seen =>
      rw [fromStack_nil]
      exact .ends rfl
  | case2 id stack seen old ih =>
      rw [fromStack_of_old old]
      exact skips (by rw [next?, if_pos old]) ih
  | case3 id stack seen new absent ih =>
      rw [fromStack_of_absent new absent]
      exact skips (by rw [next?, if_neg new, absent]) ih
  | case4 id stack seen new node stored ih =>
      rw [fromStack_of_new new stored]
      exact .node (by rw [next?, if_neg new, stored]) ih

theorem Gives.unique (gives : Gives table stack seen nodes) (also : Gives table stack seen others) :
    others = nodes := by
  induction gives generalizing others with
  | ends none =>
      cases also with
      | ends => rfl
      | node here => cases none.symm.trans here
  | node here _ ih =>
      cases also with
      | ends none => cases none.symm.trans here
      | node there rest =>
          cases here.symm.trans there
          rw [ih rest]

end Gives

/-- **A depth-first scan is a depth-first search.**  On every table of nodes and from every list of
heads a scan that is asked for one node after the other comes to an end; the nodes that it gives are
those that the recursive search visits, in the same order.  They are the stored nodes that the heads
lead to through stored nodes, each once. -/
theorem isDepthFirstSearch (table : NodeTable) (heads : List Nat) :
    (∀ nodes, Gives table heads [] nodes ↔ nodes = preorder table heads) ∧
      depthFirst table heads = preorder table heads ∧
      ((preorder table heads).map (·.id)).Nodup ∧
      ∀ node, node ∈ preorder table heads ↔
        table.get? node.id = some node ∧ Reaches table heads node.id := by
  have same := depthFirst_eq_preorder table heads
  have gives : Gives table heads [] (preorder table heads) :=
    same ▸ gives_fromStack table heads []
  refine ⟨fun nodes => ⟨gives.unique, ?_⟩, same, ?_, fun node => ?_⟩
  · rintro rfl
    exact gives
  · rw [← same]
    exact (fromStack_spec table heads []).1
  · rw [← same]
    exact mem_depthFirst_iff

end DurableRuns.Scan
