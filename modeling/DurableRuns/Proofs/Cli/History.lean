/-
# DurableRuns.Proofs.Cli.History -- the history of the demonstration program

The demonstration program appends two nodes for each step, the start and the end of a block, and at
last the end of the flow.  `history` is the graph after some of the steps, and `wholeHistory` the
one after all of them, node by node.  What the program does with a run leads from one such graph to
the next (`view_start`, `view_log`, `view_end`, `view_finish`), whatever phase the run is in that
takes commands.

All steps are done at one time here.  What is said of a run elsewhere is said of its times aside.
-/
import DurableRuns.Cli.Demo
import DurableRuns.Proofs.Run.Alike

namespace DurableRuns

set_option autoImplicit false

/-- Of two nodes of one number that are inserted, the later counts. -/
theorem NodeTable.insert_insert (table : NodeTable) {old new : Node} (same : old.id = new.id) :
    (table.insert old).insert new = table.insert new := by
  apply eq_of_get?
  intro id
  rw [get?_insert, get?_insert, get?_insert]
  split
  · rfl
  next other => rw [if_neg (same ▸ other)]

/-- What was inserted last is found. -/
theorem NodeTable.get?_inserted (table : NodeTable) (node : Node) :
    (table.insert node).get? node.id = some node := by
  rw [get?_insert, if_pos rfl]

namespace Graph

/-- The heads after the only one was followed. -/
theorem headsAfter_only (id head : Nat) : headsAfter id [head] [head] = [id] := by
  simp [headsAfter]

variable (table : NodeTable) (heads : List Nat) (nextId : Nat) (node : Node)

/-- An action is attached to the node that was inserted last. -/
theorem attach_inserted (action : Action) :
    (⟨table.insert node, heads, nextId⟩ : Graph).attach node.id action =
      .ok (⟨table.insert (node.attach action), heads, nextId⟩, node.attach action) := by
  refine attach_eq_ok.2 ⟨node, table.get?_inserted node, rfl, ?_⟩
  have once := table.insert_insert (node.attach_id action).symm
  exact congrArg (fun table : NodeTable => (⟨table, heads, nextId⟩ : Graph)) once.symm

theorem attachIn_inserted (action : Action) :
    attachIn (table.insert node) node.id action = table.insert (node.attach action) := by
  rw [attachIn, table.get?_inserted]
  exact table.insert_insert (node.attach_id action).symm

/-- So are several. -/
theorem attachAll_inserted (actions : List Action) :
    RepairPlan.attachAll ⟨table.insert node, heads, nextId⟩ node.id actions =
      ⟨table.insert (node.attachEach actions), heads, nextId⟩ := by
  induction actions generalizing node with
  | nil => rfl
  | cons action rest ih =>
      rw [attachAll_cons, attach_inserted]
      exact ih (node.attach action)

end Graph

namespace Sight

variable {sight : Sight} {parents heads : List Nat} {table : NodeTable} {nextId : Nat} {node : Node}

/-- What is seen after a node was appended with actions. -/
theorem grown_inserted {kind : NodeKind} {name : String} (actions : List Action)
    (appends : sight.graph.append kind parents name =
      .ok (⟨table.insert node, heads, nextId⟩, node)) :
    sight.grown kind parents name actions =
      (.ok (node.attachEach actions),
        { sight with graph := ⟨table.insert (node.attachEach actions), heads, nextId⟩ }) := by
  rw [grown, appends]
  simp only [Graph.attachAll_inserted]
  have stored : (⟨table.insert (node.attachEach actions), heads, nextId⟩ : Graph).get? node.id =
      some (node.attachEach actions) := by
    rw [← node.attachEach_id actions]
    exact table.get?_inserted _
  rw [stored]
  rfl

theorem view_append (draft : NodeDraft) (now : Instant) (running : sight.phase.isComplete = false)
    (inner : draft.kind.isBoundary = false)
    (appends : sight.graph.append draft.kind (draft.parents.getD sight.graph.heads) draft.name =
      .ok (⟨table.insert node, heads, nextId⟩, node)) :
    sight.view now (.append draft) =
      .ofNode (.ok (node.attachEach (Run.actionsOf draft.kind draft.actions now)),
        { sight with graph :=
            ⟨table.insert (node.attachEach (Run.actionsOf draft.kind draft.actions now)), heads,
              nextId⟩ }) := by
  rw [view, appended, inner, if_neg Bool.false_ne_true, whileLive, running,
    if_neg Bool.false_ne_true, grown_inserted _ appends]

end Sight

namespace Cli.Demo

variable {now : Instant} {step steps : Nat}

/-! ## The nodes -/

/-- What a step is told with. -/
def stepArguments (step : Nat) : Action := .arguments (.ofList [("index", toString step)])

/-- Where the log of a step is. -/
def stepLog (step : Nat) : Action := .log (stepName step ++ ".log")

/-- The node that begins a step, with the actions that it has by then. -/
def startNode (step : Nat) (actions : List Action) : Node :=
  { id := 2 * step + 2, kind := .stepStart true, name := stepName step,
    parents := [2 * step + 1], actions }

/-- The node that ends a step. -/
def endNode (now : Instant) (step : Nat) : Node :=
  { id := 2 * step + 3, kind := .stepEnd (2 * step + 2), name := stepName step,
    parents := [2 * step + 2], actions := [.timing now] }

/-- The node that ends the flow after a number of steps. -/
def lastNode (steps : Nat) : Node :=
  { id := 2 * steps + 2, kind := .flowEnd, name := flowEndName, parents := [2 * steps + 1] }

/-- The graph after a number of steps. -/
def history (now : Instant) : Nat → Graph
  | 0 => .first
  | step + 1 =>
      let start := startNode step
        [.timing now, stepArguments step, stepLog step, .blockEnd (2 * step + 3)]
      ⟨((history now step).table.insert start).insert (endNode now step), [2 * step + 3],
        2 * step + 4⟩

/-- The graph in the midst of a step. -/
def midHistory (now : Instant) (step : Nat) (actions : List Action) : Graph :=
  ⟨(history now step).table.insert (startNode step actions), [2 * step + 2], 2 * step + 3⟩

/-- The graph after all steps. -/
def wholeHistory (now : Instant) (steps : Nat) : Graph :=
  ⟨(history now steps).table.insert (lastNode steps), [2 * steps + 2], 2 * steps + 3⟩

@[simp]
theorem heads_history (now : Instant) (step : Nat) : (history now step).heads = [2 * step + 1] := by
  cases step with
  | zero => rfl
  | succ step => rfl

@[simp]
theorem nextId_history (now : Instant) (step : Nat) : (history now step).nextId = 2 * step + 2 := by
  cases step with
  | zero => rfl
  | succ step => rfl

theorem get?_history_succ (id : Nat) :
    (history now (step + 1)).get? id =
      if id = 2 * step + 3 then some (endNode now step)
      else if id = 2 * step + 2 then some (startNode step
        [.timing now, stepArguments step, stepLog step, .blockEnd (2 * step + 3)])
      else (history now step).get? id := by
  show ((_ : NodeTable).insert _).get? id = _
  rw [NodeTable.get?_insert, NodeTable.get?_insert]
  rfl

theorem contains_head_history (now : Instant) (step : Nat) :
    (history now step).contains (2 * step + 1) = true := by
  rw [Graph.contains_iff]
  cases step with
  | zero => exact ⟨_, (Graph.get?_first _).trans (if_pos rfl)⟩
  | succ step => exact ⟨_, (get?_history_succ _).trans (if_pos rfl)⟩

/-- The flow has not ended. -/
theorem kind_history_ne_flowEnd {id : Nat} {node : Node}
    (stored : (history now step).get? id = some node) : node.kind ≠ .flowEnd := by
  induction step with
  | zero =>
      change Graph.first.get? id = some node at stored
      rw [Graph.get?_first] at stored
      split at stored
      · obtain rfl := Option.some.inj stored
        nofun
      · cases stored
  | succ step ih =>
      rw [get?_history_succ] at stored
      split at stored
      · obtain rfl := Option.some.inj stored
        nofun
      · split at stored
        · obtain rfl := Option.some.inj stored
          nofun
        · exact ih stored

/-! ## From node to node -/

/-- The graph after some steps takes whatever follows its only head and closes nothing. -/
theorem append_history (kind : NodeKind) (name : String) (inner : kind ≠ .flowStart)
    (closes : kind.closes = none) :
    (history now step).append kind (history now step).heads name =
      .ok (⟨(history now step).table.insert
          { id := 2 * step + 2, kind, name, parents := [2 * step + 1] },
        [2 * step + 2], 2 * step + 3⟩,
        { id := 2 * step + 2, kind, name, parents := [2 * step + 1] }) := by
  rw [heads_history]
  have admits : (history now step).Admits kind [2 * step + 1] := by
    constructor
    case notStart => exact inner
    case notEnded => exact (Graph.endNode?_eq_none_iff _).2 fun _ _ => kind_history_ne_flowEnd
    case parents_ne_nil => exact List.cons_ne_nil _ _
    case parents_nodup => simp
    case parents_stored => simp [contains_head_history]
    case opened => simp [closes]
  refine Graph.append_eq_ok.2 ⟨admits.checkGrowth, ?_⟩
  simp only [Graph.closedTable, closes, Graph.newNode, nextId_history, heads_history,
    Graph.headsAfter_only]

/-- In the midst of a step its block is open, and its end can follow. -/
theorem append_midHistory {actions : List Action}
    (opened : (startNode step actions).blockEnd? = none) :
    (midHistory now step actions).append (.stepEnd (2 * step + 2)) [2 * step + 2]
        (stepName step) =
      .ok (⟨((history now step).table.insert
          ((startNode step actions).attach (.blockEnd (2 * step + 3)))).insert
            { endNode now step with actions := [] },
          [2 * step + 3], 2 * step + 4⟩,
        { endNode now step with actions := [] }) := by
  have stored : (midHistory now step actions).get? (2 * step + 2) =
      some (startNode step actions) := NodeTable.get?_inserted ..
  have admits : (midHistory now step actions).Admits (.stepEnd (2 * step + 2))
      [2 * step + 2] := by
    constructor
    case notStart => nofun
    case notEnded =>
      refine (Graph.endNode?_eq_none_iff _).2 fun id node found => ?_
      change ((history now step).table.insert _).get? id = some node at found
      rw [NodeTable.get?_insert] at found
      split at found
      · obtain rfl := Option.some.inj found
        nofun
      · exact kind_history_ne_flowEnd found
    case parents_ne_nil => exact List.cons_ne_nil _ _
    case parents_nodup => simp
    case parents_stored => simpa using Graph.contains_of_get? stored
    case opened =>
      rintro start ⟨⟩
      exact ⟨_, stored, rfl, opened⟩
  have closed : (midHistory now step actions).closedTable (.stepEnd (2 * step + 2)) =
      (history now step).table.insert
        ((startNode step actions).attach (.blockEnd (2 * step + 3))) :=
    Graph.attachIn_inserted (history now step).table (startNode step actions) _
  have heads : (midHistory now step actions).heads = [2 * step + 2] := rfl
  refine Graph.append_eq_ok.2 ⟨admits.checkGrowth, ?_⟩
  rw [closed, heads, Graph.headsAfter_only]
  rfl

/-! ## What the program makes of what is seen -/

/-- The actions of a node that has begun a step. -/
def begun (now : Instant) (step : Nat) : List Action := [.timing now, stepArguments step]

/-- The actions of a node that has begun a step, once its log is known. -/
def logged (now : Instant) (step : Nat) : List Action := begun now step ++ [stepLog step]

variable {sight : Sight}

/-- What the program asks for to begin a step. -/
def startDraft (step : Nat) : NodeDraft :=
  { kind := .stepStart true, name := stepName step, actions := [stepArguments step] }

/-- What the program asks for to end a step. -/
def endDraft (step : Nat) : NodeDraft := { kind := .stepEnd (2 * step + 2), name := stepName step }

/-- A step is begun. -/
theorem view_start (running : sight.phase.isComplete = false)
    (graph : sight.graph = history now step) :
    sight.view now (.append (startDraft step)) =
      ⟨some (.ok (.node (startNode step (begun now step)))),
        { sight with graph := midHistory now step (begun now step) }⟩ := by
  obtain ⟨phase, status, result, _, checkpoint⟩ := sight
  cases graph
  exact Sight.view_append (startDraft step) now running rfl
    (append_history (.stepStart true) _ (by decide) rfl)

/-- Its log becomes known. -/
theorem view_log (running : sight.phase.isComplete = false)
    (graph : sight.graph = midHistory now step (begun now step)) :
    sight.view now (.attach (2 * step + 2) (stepLog step)) =
      ⟨some (.ok (.node (startNode step (logged now step)))),
        { sight with graph := midHistory now step (logged now step) }⟩ := by
  have attaches : (midHistory now step (begun now step)).attach (2 * step + 2) (stepLog step) =
      .ok (midHistory now step (logged now step), startNode step (logged now step)) :=
    Graph.attach_inserted (history now step).table _ _ (startNode step (begun now step)) _
  rw [Sight.view, Sight.attached, Sight.whileLive, running, if_neg Bool.false_ne_true, graph,
    attaches]
  rfl

/-- It ends. -/
theorem view_end (running : sight.phase.isComplete = false)
    (graph : sight.graph = midHistory now step (logged now step)) :
    sight.view now (.append (endDraft step)) =
      ⟨some (.ok (.node (endNode now step))),
        { sight with graph := history now (step + 1) }⟩ := by
  obtain ⟨phase, status, result, _, checkpoint⟩ := sight
  cases graph
  exact Sight.view_append (endDraft step) now running rfl (append_midHistory rfl)

/-- After all steps the flow ends. -/
theorem view_finish (running : sight.phase.isComplete = false)
    (graph : sight.graph = history now steps) :
    sight.view now (.finish .ok) =
      ⟨some (.ok (.node (lastNode steps))),
        { sight with graph := wholeHistory now steps }.ended .success⟩ := by
  obtain ⟨phase, status, result, _, checkpoint⟩ := sight
  cases graph
  have running : phase.isComplete = false := running
  rw [Sight.view, Sight.finished, Sight.whileLive, running, if_neg Bool.false_ne_true,
    Sight.grown_inserted _ (append_history .flowEnd _ (by decide) rfl)]
  rfl

end Cli.Demo
end DurableRuns
