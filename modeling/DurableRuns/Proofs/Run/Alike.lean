/-
# DurableRuns.Proofs.Run.Alike -- a program cannot see how durable its run is

A `Call` is what the program that drives a run does with it, and a `Sight` is what it can see of
the run.  What a call makes of a sight, and what it answers, is told by `Sight.view`, which knows
of no disk: every run follows it, whatever its hint and whatever writes are refused
(`Call.perform_view`), because each operation changes the run in memory before it writes, and
answers with what is in memory.  Only how a continuation that was handed over came out depends on
the disk, and so it is not part of a `View`.

So two runs that were started show their programs the same (`starts_show_the_same`), however
different their hints and their disks are, and however often they are flushed in between.  Their
clocks may differ too: the times are compared as a map shows them, and nothing else that a call
does depends on them (`Sight.view_retime`).
-/
import DurableRuns.Proofs.Flow.Timeless
import DurableRuns.Proofs.Run.Development

namespace DurableRuns

set_option autoImplicit false

open Run RunM

variable {clock : Instant → Instant}

/-! ## What a program sees of its run -/

/-- What can be seen of a run. -/
structure Sight where
  phase : Phase
  status : RecordStatus
  result : RunResult
  graph : Graph
  checkpoint : Option Checkpoint
deriving DecidableEq, Repr

/-- What can be seen of a run in memory. -/
def Run.sight (run : Run) : Sight :=
  { phase := run.phase, status := run.record.status, result := run.record.result
    graph := run.graph, checkpoint := run.checkpoint }

/-- What the program that drives a run does with it. -/
inductive Call where
  | append (draft : NodeDraft)
  | attach (id : Nat) (action : Action)
  | checkpoint (blob : Bytes)
  | finish (outcome : Outcome)
deriving DecidableEq, Repr

namespace Call

/-- The call as a command. -/
def command : Call → Command
  | append draft => .append draft
  | attach id action => .attach id action
  | checkpoint blob => .checkpoint blob
  | finish outcome => .finish outcome

/-- How a call came out, as far as it does not depend on the disk. -/
def answer : Call → Except Error Reply → Option (Except Error Reply)
  | checkpoint _, _ => none
  | _, outcome => some outcome

end Call

/-- What a call shows: how it came out, and what can be seen of the run after it. -/
structure View where
  answer : Option (Except Error Reply)
  sight : Sight
deriving DecidableEq, Repr

/-- The view of a call that gives a node. -/
def View.ofNode (made : Except Error Node × Sight) : View := ⟨some (made.1.map .node), made.2⟩

/-! ## What a call makes of what is seen -/

namespace Sight

/-- The run has ended. -/
def ended (sight : Sight) (result : RunResult) : Sight :=
  { sight with phase := .complete result, status := .complete, result, checkpoint := none }

/-- The run has been closed as failed. -/
def failed (sight : Sight) (reason : String) : Sight :=
  { sight with graph := sight.graph.repaired reason }.ended .failure

/-- A node is appended with actions; if the graph does not admit it the run is closed as
failed. -/
def grown (sight : Sight) (kind : NodeKind) (parents : List Nat) (name : String)
    (actions : List Action) : Except Error Node × Sight :=
  match sight.graph.append kind parents name with
  | .error fault => (.error (.graph fault), sight.failed (Error.graph fault).message)
  | .ok (graph, node) =>
      let graph := RepairPlan.attachAll graph node.id actions
      (.ok ((graph.get? node.id).getD node), { sight with graph })

/-- Nothing is done on a run that has ended. -/
def whileLive (sight : Sight) (operation : Operation) (done : Except Error Node × Sight) :
    Except Error Node × Sight :=
  if sight.phase.isComplete then (.error (.invalidState sight.phase operation), sight) else done

/-- A step is appended at a point in time. -/
def appended (sight : Sight) (now : Instant) (draft : NodeDraft) : Except Error Node × Sight :=
  if draft.kind.isBoundary then (.error (.invalidState sight.phase .appendBoundary), sight)
  else
    sight.whileLive .append <| sight.grown draft.kind (draft.parents.getD sight.graph.heads)
      draft.name (actionsOf draft.kind draft.actions now)

/-- An action is attached to a node. -/
def attached (sight : Sight) (id : Nat) (action : Action) : Except Error Node × Sight :=
  sight.whileLive .attach <|
    match sight.graph.attach id action with
    | .error fault => (.error (.graph fault), sight)
    | .ok (graph, node) => (.ok node, { sight with graph })

/-- A continuation is handed over at a point in time. -/
def holding (sight : Sight) (now : Instant) (blob : Bytes) : Sight :=
  if sight.phase.isComplete then sight
  else { sight with checkpoint := some { heads := sight.graph.heads, blob, takenAt := now } }

/-- The flow ends after every head. -/
def finished (sight : Sight) (outcome : Outcome) : Except Error Node × Sight :=
  sight.whileLive .finish <|
    match sight.grown .flowEnd sight.graph.heads flowEndName outcome.actions with
    | (.error error, after) => (.error error, after)
    | (.ok node, after) => (.ok node, after.ended outcome.result)

/-- What a call shows that is made at a point in time, given what was seen before it. -/
def view (sight : Sight) (now : Instant) : Call → View
  | .append draft => .ofNode (sight.appended now draft)
  | .attach id action => .ofNode (sight.attached id action)
  | .checkpoint blob => ⟨none, sight.holding now blob⟩
  | .finish outcome => .ofNode (sight.finished outcome)

/-- What calls show, one after the other. -/
def views (sight : Sight) : List (Instant × Call) → List View
  | [] => []
  | (now, call) :: rest => sight.view now call :: (sight.view now call).sight.views rest

end Sight

/-! ## Every run follows -/

/-- What is as it was in memory looks as it did. -/
theorem Run.sight_congr {run other : Run} (same : other.snapshot = run.snapshot) :
    other.sight = run.sight :=
  congrArg (fun snapshot : Snapshot =>
    { phase := snapshot.phase, status := snapshot.status, result := snapshot.result
      graph := snapshot.graph, checkpoint := snapshot.checkpoint : Sight }) same

namespace Run

variable {live : LiveRun}

/-- A run that is concluded has ended, and that it has cannot fail. -/
theorem conclude_sight (nodes : List Node) (result : RunResult) (live : LiveRun) :
    Ends (conclude nodes result) live
      (fun _ after => after.run.sight = live.run.sight.ended result) fun _ _ => False := by
  have looks {after : LiveRun} (same : after.run.graph = live.run.graph) :
      (after.run.ended result).sight = live.run.sight.ended result :=
    congrArg (fun graph => { live.run.sight with graph }.ended result) same
  refine .bind (.noted ((persistEnd_graph nodes result live).mono ?_ ?_))
  · exact fun _ _ same => .bind (.update (looks same))
  · exact fun _ _ same => .bind (.update (looks same))

theorem endAsFailed_sight (reason : String) (live : LiveRun) :
    Ends (endAsFailed reason) live
      (fun _ after => after.run.sight = live.run.sight.failed reason) fun _ _ => False :=
  .bind (.current (.bind (.update (conclude_sight _ _ _))))

theorem growOrClose_sight (kind : NodeKind) (parents : List Nat) (name : String)
    (actions : List Action) (live : LiveRun) :
    EndsAs (growOrClose kind parents name actions) live fun outcome after =>
      live.run.sight.grown kind parents name (actionsOf kind actions live.machine.now) =
        (outcome, after.run.sight) := by
  have graph : live.run.sight.graph = live.run.graph := rfl
  rw [growOrClose, grow_eq]
  refine .bind (.attempt (.bind (.get ?_)))
  rw [Sight.grown, graph]
  cases live.run.graph.append kind parents name with
  | error fault =>
      refine .throw (.bind ((endAsFailed_sight _ live).mono ?_ fun _ _ => False.elim))
      exact fun _ _ same => .throw (congrArg (Prod.mk _) same.symm)
  | ok grown => exact .bind (.update (.pure (.pure rfl)))

variable (live : LiveRun)

/-- An operation that a run must be live for is refused, or done. -/
theorem whileLive_sight {operation : Operation} {step : RunM Node}
    {done : Except Error Node × Sight}
    (goes : EndsAs step live fun outcome after => done = (outcome, after.run.sight)) :
    EndsAs (do requireLive operation; step) live fun outcome after =>
      live.run.sight.whileLive operation done = (outcome, after.run.sight) := by
  have phase : live.run.sight.phase = live.run.phase := rfl
  rw [Sight.whileLive, phase]
  refine .requireLive (fun ended => if_pos ended) fun running => ?_
  rw [running, if_neg Bool.false_ne_true]
  exact goes

theorem append_sight (draft : NodeDraft) :
    EndsAs (append draft) live fun outcome after =>
      live.run.sight.appended live.machine.now draft = (outcome, after.run.sight) := by
  rw [append_eq]
  cases boundary : draft.kind.isBoundary with
  | true => exact .bind (.current (.bind (.throw (if_pos boundary))))
  | false =>
      rw [Sight.appended, boundary, if_neg Bool.false_ne_true]
      refine whileLive_sight live (.bind (.current ?_))
      refine .bind ((growOrClose_sight draft.kind _ draft.name draft.actions live).mono ?_
        fun _ _ => id)
      intro node grown made
      refine (storing_spares (storeStep_spares node) fun stored =>
        wrapUp_spares node _ stored).mono ?_ fun _ _ => id
      rintro _ after ⟨rfl, same⟩
      exact made.trans (congrArg (Prod.mk _) (sight_congr same).symm)

theorem attach_sight (id : Nat) (action : Action) :
    EndsAs (attach id action) live fun outcome after =>
      live.run.sight.attached id action = (outcome, after.run.sight) := by
  have graph : live.run.sight.graph = live.run.graph := rfl
  rw [attach_eq, Sight.attached, graph]
  refine whileLive_sight live (.bind (.current ?_))
  cases live.run.graph.attach id action with
  | error fault => exact .throw rfl
  | ok made =>
      obtain ⟨graph, node⟩ := made
      refine .bind (.update ?_)
      refine (storing_spares (storeNode_spares node) fun stored =>
        .bind (.current (wrapUp_spares node _ stored))).mono ?_ fun _ _ same => same
      rintro _ after ⟨rfl, same⟩
      exact congrArg (Prod.mk _) (sight_congr same).symm

theorem takeCheckpoint_sight (blob : Bytes) :
    EndsIn (takeCheckpoint blob) live fun after =>
      live.run.sight.holding live.machine.now blob = after.run.sight := by
  refine (takeCheckpoint_makes blob live).mono ?_ ?_
  all_goals
    rintro _ after (⟨ended, rfl⟩ | ⟨running, same⟩)
    · exact if_pos ended
    · rw [sight_congr same]
      exact if_neg (Bool.eq_false_iff.1 running)

theorem finish_sight (outcome : Outcome) :
    EndsAs (finish outcome) live fun reply after =>
      live.run.sight.finished outcome = (reply, after.run.sight) := by
  rw [finish, Sight.finished]
  refine whileLive_sight live (.bind (.current ?_))
  -- The end of a flow is no step, and so it does not tell when it began.
  have grown : EndsAs (growOrClose .flowEnd live.run.graph.heads flowEndName outcome.actions) live
      fun reply after => live.run.sight.grown .flowEnd live.run.sight.graph.heads flowEndName
        outcome.actions = (reply, after.run.sight) := growOrClose_sight ..
  refine .bind (grown.mono ?_ ?_)
  · intro node ending made
    rw [made]
    refine .bind ((conclude_sight [node] outcome.result ending).mono ?_ fun _ _ => False.elim)
    exact fun _ after same => .pure (congrArg (Prod.mk _) same.symm)
  · intro error after made
    rw [made]

end Run

namespace Call

variable {live : LiveRun}

/-- What a call shows does not depend on the hint of the run, nor on the disk. -/
theorem perform_view (free : live.run.phase.holdsAppends = false) (call : Call) :
    EndsAs call.command.perform live fun outcome after =>
      live.run.sight.view live.machine.now call = ⟨call.answer outcome, after.run.sight⟩ := by
  have reaches : call.command.mustWait live.run.phase = false := by
    cases call with
    | append draft => simp [command, Command.mustWait, free]
    | finish outcome => exact free
    | _ => rfl
  refine .bind (.current ?_)
  rw [reaches, if_neg Bool.false_ne_true]
  have given {step : RunM Node} {made : Except Error Node × Sight}
      (ends : EndsAs step live fun outcome after => made = (outcome, after.run.sight)) :
      EndsAs (do return .node (← step)) live fun outcome after =>
        View.ofNode made = ⟨some outcome, after.run.sight⟩ :=
    Command.reply_ends (ends.mono (fun _ _ same => congrArg View.ofNode same)
      fun _ _ same => congrArg View.ofNode same)
  cases call with
  | append draft => exact given (append_sight live draft)
  | attach id action => exact given (attach_sight live id action)
  | checkpoint blob =>
      exact Command.reply_ends ((takeCheckpoint_sight live blob).mono
        (fun _ _ same => congrArg (View.mk none) same) fun _ _ same => congrArg (View.mk none) same)
  | finish outcome => exact given (finish_sight live outcome)

end Call

/-- A call pauses no run. -/
theorem Sight.holdsAppends_view {sight : Sight} (free : sight.phase.holdsAppends = false)
    (now : Instant) (call : Call) : (sight.view now call).sight.phase.holdsAppends = false := by
  have whileLive {operation : Operation} {done : Except Error Node × Sight}
      (goes : done.2.phase.holdsAppends = false) :
      (sight.whileLive operation done).2.phase.holdsAppends = false := by
    rw [Sight.whileLive]
    split
    · exact free
    · exact goes
  have grown (kind : NodeKind) (parents : List Nat) (name : String) (actions : List Action) :
      (sight.grown kind parents name actions).2.phase.holdsAppends = false := by
    rw [Sight.grown]
    split
    · rfl
    · exact free
  cases call with
  | append draft =>
      show (sight.appended now draft).2.phase.holdsAppends = false
      rw [appended]
      split
      · exact free
      · exact whileLive (grown ..)
  | attach id action =>
      refine whileLive ?_
      split
      · exact free
      · exact free
  | checkpoint blob =>
      show (sight.holding now blob).phase.holdsAppends = false
      rw [holding]
      split
      · exact free
      · exact free
  | finish outcome =>
      refine whileLive ?_
      have ends := grown .flowEnd sight.graph.heads flowEndName outcome.actions
      split
      next refused =>
        rw [refused] at ends
        exact ends
      next => rfl

/-! ## Runs in use -/

/-- What happens to a run: its program calls, or it is flushed in the background. -/
inductive Happening where
  | call (call : Call)
  | flush
deriving DecidableEq, Repr

/-- The calls among what happens to a run. -/
def calls (happenings : List (Instant × Happening)) : List (Instant × Call) :=
  happenings.filterMap fun
    | (now, .call call) => some (now, call)
    | (_, .flush) => none

namespace LiveRun

/-- What a call shows of a run at a point in time. -/
def view (live : LiveRun) (now : Instant) (call : Call) : View :=
  match attempt call.command.perform (live.atTime now) with
  | .ok outcome after => ⟨call.answer outcome, after.run.sight⟩
  | .error error after => ⟨some (.error error), after.run.sight⟩

/-- What the calls of a program show it of its run, one after the other. -/
def views (live : LiveRun) : List (Instant × Happening) → List View
  | [] => []
  | (now, .call call) :: rest => live.view now call :: (live.after now call.command).views rest
  | (now, .flush) :: rest => (live.after now .flush).views rest

/-- Every call shows what is told of it without a look at the disk. -/
theorem view_eq {live : LiveRun} (free : live.run.phase.holdsAppends = false) (now : Instant)
    (call : Call) :
    live.view now call = live.run.sight.view now call ∧
      (live.after now call.command).run.sight = (live.run.sight.view now call).sight := by
  obtain ⟨outcome, left, done⟩ := attempt_returns call.command.perform (live.atTime now)
  have free : (live.atTime now).run.phase.holdsAppends = false := free
  have shows : live.run.sight.view now call = ⟨call.answer outcome, left.run.sight⟩ :=
    (Call.perform_view free call).of_attempt done
  rw [view, after, done, shows]
  exact ⟨rfl, rfl⟩

/-- A flush leaves all that can be seen as it was. -/
theorem sight_after_flush (live : LiveRun) (now : Instant) :
    (live.after now .flush).run.sight = live.run.sight := by
  have ends : EndsIn Command.flush.perform (live.atTime now) fun after =>
      after.run.sight = live.run.sight :=
    .bind (.current (Command.reply_ends ((flush_spares _).mono (fun _ _ => sight_congr)
      fun _ _ => sight_congr)))
  exact after_of_ends ends

theorem views_eq {live : LiveRun} (free : live.run.phase.holdsAppends = false)
    (happenings : List (Instant × Happening)) :
    live.views happenings = live.run.sight.views (calls happenings) := by
  induction happenings generalizing live with
  | nil => rfl
  | cons given rest ih =>
      have goesOn {after : LiveRun} {sight : Sight} (looks : after.run.sight = sight)
          (still : sight.phase.holdsAppends = false) :
          after.views rest = sight.views (calls rest) := by
        have free : after.run.sight.phase.holdsAppends = false := looks ▸ still
        rw [← looks]
        exact ih free
      obtain ⟨now, call | _⟩ := given
      · obtain ⟨same, left⟩ := view_eq free now call
        rw [views, same, goesOn left (Sight.holdsAppends_view free now call)]
        rfl
      · exact goesOn (live.sight_after_flush now) free

end LiveRun

/-! ## Times aside -/

/-- A draft with its times changed by a map. -/
def NodeDraft.retime (clock : Instant → Instant) (draft : NodeDraft) : NodeDraft :=
  { draft with actions := draft.actions.map (Action.retime clock) }

/-- A continuation with the time at which it was taken changed by a map. -/
def Checkpoint.retime (clock : Instant → Instant) (checkpoint : Checkpoint) : Checkpoint :=
  { checkpoint with takenAt := clock checkpoint.takenAt }

/-- A call with its times changed by a map. -/
def Call.retime (clock : Instant → Instant) : Call → Call
  | .append draft => .append (draft.retime clock)
  | .attach id action => .attach id (action.retime clock)
  | call => call

/-- A call at a point in time, all its times changed by a map. -/
def Call.retimeAt (clock : Instant → Instant) (given : Instant × Call) : Instant × Call :=
  (clock given.1, given.2.retime clock)

/-- A reply with the times of its node changed by a map. -/
def Reply.retime (clock : Instant → Instant) : Reply → Reply
  | .node given => .node (given.retime clock)
  | other => other

/-- What is seen of a run with all times changed by a map. -/
def Sight.retime (clock : Instant → Instant) (sight : Sight) : Sight :=
  { sight with
    graph := sight.graph.retime clock
    checkpoint := sight.checkpoint.map (Checkpoint.retime clock) }

/-- What a call shows with all times changed by a map. -/
def View.retime (clock : Instant → Instant) (view : View) : View :=
  ⟨view.answer.map (·.map (Reply.retime clock)), view.sight.retime clock⟩

namespace Sight

/-- What an operation makes of a sight, with all times changed by a map. -/
def retimeMade (clock : Instant → Instant) (made : Except Error Node × Sight) :
    Except Error Node × Sight :=
  (made.1.map (Node.retime clock), made.2.retime clock)

variable (sight : Sight)

theorem actionsOf_retime (kind : NodeKind) (actions : List Action) (now : Instant) :
    actionsOf kind (actions.map (Action.retime clock)) (clock now) =
      (actionsOf kind actions now).map (Action.retime clock) := by
  have timed : (actions.map (Action.retime clock)).any (·.kind = .timing) =
      actions.any (·.kind = .timing) := by
    rw [List.any_map]
    exact congrArg actions.any (funext fun action => by simp)
  rw [actionsOf, actionsOf, timed]
  split <;> rfl

theorem failed_retime (reason : String) :
    (sight.retime clock).failed reason = (sight.failed reason).retime clock :=
  congrArg (fun graph => { sight with graph }.ended .failure)
    (sight.graph.repaired_retime reason)

theorem grown_retime (kind : NodeKind) (parents : List Nat) (name : String)
    (actions : List Action) :
    (sight.retime clock).grown kind parents name (actions.map (Action.retime clock)) =
      retimeMade clock (sight.grown kind parents name actions) := by
  have appended : (sight.retime clock).graph.append kind parents name =
      (sight.graph.append kind parents name).map (Graph.retimeGrown clock) :=
    sight.graph.append_retime ..
  rw [grown, grown, appended]
  cases sight.graph.append kind parents name with
  | error fault => exact congrArg (Prod.mk _) (sight.failed_retime _)
  | ok made =>
      obtain ⟨graph, node⟩ := made
      have attached : RepairPlan.attachAll (graph.retime clock) node.id
          (actions.map (Action.retime clock)) =
            (RepairPlan.attachAll graph node.id actions).retime clock :=
        RepairPlan.attachAll_retime ..
      simp only [Except.map, Graph.retimeGrown, Node.id_retime, attached, Graph.get?_retime,
        retimeMade]
      refine congrArg₂ Prod.mk (congrArg Except.ok ?_) rfl
      cases (RepairPlan.attachAll graph node.id actions).get? node.id <;> rfl

theorem whileLive_retime (operation : Operation) {done done' : Except Error Node × Sight}
    (same : done' = retimeMade clock done) :
    (sight.retime clock).whileLive operation done' =
      retimeMade clock (sight.whileLive operation done) := by
  have phase : (sight.retime clock).phase = sight.phase := rfl
  rw [whileLive, whileLive, phase, same]
  split <;> rfl

theorem appended_retime (now : Instant) (draft : NodeDraft) :
    (sight.retime clock).appended (clock now) (draft.retime clock) =
      retimeMade clock (sight.appended now draft) := by
  have kind : (draft.retime clock).kind = draft.kind := rfl
  rw [appended, appended, kind]
  split
  · rfl
  · refine sight.whileLive_retime .append ?_
    exact (congrArg _ (actionsOf_retime draft.kind draft.actions now)).trans
      (sight.grown_retime ..)

theorem attached_retime (id : Nat) (action : Action) :
    (sight.retime clock).attached id (action.retime clock) =
      retimeMade clock (sight.attached id action) := by
  refine sight.whileLive_retime .attach ?_
  have attaches : (sight.retime clock).graph.attach id (action.retime clock) =
      (sight.graph.attach id action).map (Graph.retimeGrown clock) :=
    sight.graph.attach_retime ..
  rw [attaches]
  cases sight.graph.attach id action <;> rfl

theorem holding_retime (now : Instant) (blob : Bytes) :
    (sight.retime clock).holding (clock now) blob = (sight.holding now blob).retime clock := by
  have phase : (sight.retime clock).phase = sight.phase := rfl
  rw [holding, holding, phase]
  split <;> rfl

theorem finished_retime (outcome : Outcome) :
    (sight.retime clock).finished outcome = retimeMade clock (sight.finished outcome) := by
  have timeless : outcome.actions.map (Action.retime clock) = outcome.actions := by
    cases outcome <;> rfl
  have grows : (sight.retime clock).grown .flowEnd sight.graph.heads flowEndName outcome.actions =
      retimeMade clock (sight.grown .flowEnd sight.graph.heads flowEndName outcome.actions) := by
    rw [← sight.grown_retime, timeless]
  refine sight.whileLive_retime .finish ?_
  have heads : (sight.retime clock).graph.heads = sight.graph.heads := rfl
  rw [heads, grows]
  rcases sight.grown .flowEnd sight.graph.heads flowEndName outcome.actions with ⟨_ | _, after⟩
  all_goals rfl

/-- What a call shows depends on the times, its own among them, only where it tells them. -/
theorem view_retime (now : Instant) (call : Call) :
    (sight.retime clock).view (clock now) (call.retime clock) =
      (sight.view now call).retime clock := by
  have given {made made' : Except Error Node × Sight} (same : made' = retimeMade clock made) :
      View.ofNode made' = (View.ofNode made).retime clock := by
    rw [same]
    rcases made with ⟨_ | _, after⟩
    all_goals rfl
  cases call with
  | append draft => exact given (sight.appended_retime now draft)
  | attach id action => exact given (sight.attached_retime id action)
  | checkpoint blob => exact congrArg (View.mk none) (sight.holding_retime now blob)
  | finish outcome => exact given (sight.finished_retime outcome)

theorem views_retime (calls : List (Instant × Call)) :
    (sight.retime clock).views (calls.map (Call.retimeAt clock)) =
      (sight.views calls).map (View.retime clock) := by
  induction calls generalizing sight with
  | nil => rfl
  | cons given rest ih =>
      obtain ⟨now, call⟩ := given
      have shows : (sight.retime clock).view (clock now) (call.retime clock) =
          (sight.view now call).retime clock := sight.view_retime now call
      rw [List.map_cons, views, Call.retimeAt, views, shows, List.map_cons, ← ih]
      rfl

end Sight

/-! ## Runs that were started -/

/-- What is seen of a run that was started. -/
def Sight.first : Sight :=
  { phase := .running, status := .running, result := .pending, graph := .first, checkpoint := none }

/-- Whatever it is called and wherever it is, a run that is started looks the same. -/
theorem Run.start_sight {place : Place} {runId : String} {asked : Option Hint} {config : Config}
    {machine started : Machine} {run : Run}
    (begins : start place runId asked config machine = .ok run started) :
    run.sight = .first := by
  obtain ⟨reached, -, done⟩ := of_start_eq_ok begins
  have ends := beginning_spares
    { run := begun reached place runId (config.hintFor asked), machine := reached }
  rw [EndsIn, Ends, done] at ends
  exact sight_congr ends

section Started

variable {place place' : Place} {runId runId' : String} {asked asked' : Option Hint}
  {config config' : Config} {machine machine' started started' : Machine} {run run' : Run}

/-- **A program cannot see how durable its run is.**  Two runs were started, in whatever
directories, with whatever hints.  From then on the machines beneath them may differ in everything,
the refused writes included, and each run may be flushed in the background at any times.  If the
calls of their programs are the same, but for the times, then all calls show the same, but for the
times: each node and each error that is returned, how a continuation that was handed over came out
excepted, and after each call the phase, the result, the graph and the continuation in memory.

Times are compared as a map shows them.  With the identity all of them count, with a constant none
do. -/
theorem starts_show_the_same
    (begins : start place runId asked config machine = .ok run started)
    (begins' : start place' runId' asked' config' machine' = .ok run' started')
    (beneath beneath' : Machine) {happenings happenings' : List (Instant × Happening)}
    (same : (calls happenings).map (Call.retimeAt clock) =
      (calls happenings').map (Call.retimeAt clock)) :
    (LiveRun.views { run, machine := beneath } happenings).map (View.retime clock) =
      (LiveRun.views { run := run', machine := beneath' } happenings').map (View.retime clock) := by
  have told {place : Place} {runId : String} {asked : Option Hint} {config : Config}
      {machine started : Machine} {run : Run}
      (begins : start place runId asked config machine = .ok run started) (beneath : Machine)
      (happenings : List (Instant × Happening)) :
      (LiveRun.views { run, machine := beneath } happenings).map (View.retime clock) =
        (Sight.first.retime clock).views ((calls happenings).map (Call.retimeAt clock)) := by
    have first : run.sight = .first := start_sight begins
    have free : run.sight.phase.holdsAppends = false := first ▸ rfl
    rw [LiveRun.views_eq free, first, Sight.views_retime]
  rw [told begins, told begins', same]

end Started

/-- A step is begun, a continuation is handed over, and the flow ends. -/
def beginAndFinish (now : Instant) : List (Instant × Happening) :=
  [(now, .call (.append { kind := .stepStart true, name := "step" })),
    (now, .call (.checkpoint [7])), (now, .call (.finish .ok))]

/-- The evening of the first day of 2024. -/
def Instant.evening : Instant :=
  { Instant.sample with minute := 1200, minute_lt := by decide }

/-- A run that writes every step, and of which two writes are refused, and a run that writes at its
safe points, in the evening, and is flushed at first. -/
theorem same_despite_refusals : ∃ run started run' started',
    start .sample "sample" none .default .refusing = .ok run started ∧
      start .sample "other" (some .performanceOptimized) .default .blank = .ok run' started' ∧
      (LiveRun.views { run, machine := started } (beginAndFinish .sample)).map
          (View.retime fun _ => .sample) =
        (LiveRun.views { run := run', machine := started' }
          ((.evening, .flush) :: beginAndFinish .evening)).map (View.retime fun _ => .sample) := by
  have passed : Run.passes (fun _ _ => true)
      (start .sample "sample" none .default .refusing) = true := by decide +kernel
  have passed' : Run.passes (fun _ _ => true)
      (start .sample "other" (some .performanceOptimized) .default .blank) = true := by
    decide +kernel
  obtain ⟨run, started, begins, -⟩ := Run.of_passes passed
  obtain ⟨run', started', begins', -⟩ := Run.of_passes passed'
  exact ⟨run, started, run', started', begins, begins',
    starts_show_the_same begins begins' started started' rfl⟩

end DurableRuns
