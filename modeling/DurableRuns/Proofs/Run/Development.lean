/-
# DurableRuns.Proofs.Run.Development -- what one command makes of the graph of a run

A command leaves the graph as it is, attaches an action, or appends one node; or the graph does
not admit the node, and is repaired.  The run has ended afterwards exactly if it had before, if
the node ends the flow, or if there was a repair (`Run.Develops`).  This does not depend on the
writes: it is told without a look at the disk.

From this inversion whatever is kept by each of the ways is kept by all commands
(`Command.perform_develops`).  So it is kept that a flow goes on, or that its last node ends it,
and that it does not where it did not before (`Run.KeepsOrder`).
-/
import DurableRuns.Proofs.Flow.Repaired
import DurableRuns.Proofs.Run.Faults

namespace DurableRuns

set_option autoImplicit false

open Run RunM
open RepairPlan (attachAll)

/-- What a command may make of a run. -/
inductive Run.Develops (before after : Run) : Prop
  | still (graph : after.graph = before.graph)
      (phase : after.phase.isComplete = before.phase.isComplete)
  | attached {id : Nat} {action : Action} {node : Node}
      (attaches : before.graph.attach id action = .ok (after.graph, node))
      (phase : after.phase.isComplete = before.phase.isComplete)
  | grown {kind : NodeKind} {parents : List Nat} {name : String} {actions : List Action}
      {between : Graph} {node : Node}
      (appends : before.graph.append kind parents name = .ok (between, node))
      (graph : after.graph = attachAll between node.id actions)
      (last : kind = .flowEnd → parents = before.graph.heads)
      (phase : after.phase.isComplete = true ↔ kind = .flowEnd)
  | repaired {reason : String}
      (graph : after.graph = before.graph.repaired reason)
      (phase : after.phase.isComplete = true)

section Development

variable {live : LiveRun}

namespace Run

/-- A step that spares what a run is in memory develops nothing. -/
theorem Develops.of_snapshot {before after : Run} {status : RecordStatus}
    {checkpoint : Option Checkpoint}
    (same : after.snapshot = { before.snapshot with status, checkpoint }) : before.Develops after :=
  .still (congrArg Snapshot.graph same)
    (congrArg (fun snapshot : Snapshot => snapshot.phase.isComplete) same)

/-! ## The end -/

/-- Where a run ends, its graph is written and not changed. -/
theorem persistEnd_graph (nodes : List Node) (result : RunResult) :
    Leads (fun live after => after.run.graph = live.run.graph) (persistEnd nodes result) := by
  have spared {α : Type} {step : RunM α} (spares : Spares step) :
      Leads (fun live after => after.run.graph = live.run.graph) step := fun live =>
    (spares live).mono (fun _ _ => congrArg Snapshot.graph) fun _ _ => congrArg Snapshot.graph
  have writes : Spares (nodes.forM storeStep) :=
    Spares.catches.forM fun node _ => storeStep_spares node
  have drops : Spares (do onMachine (RunFiles.removeCheckpoint (← current).place)) :=
    .bind .current fun _ => .onMachine _
  refine .bind (fun same later => later.trans same) (spared markDirty_spares) fun _ =>
    .bind (fun same later => later.trans same) (spared writes) fun _ =>
    .bind (fun same later => later.trans same) (spared flushStore_spares) fun _ =>
    .bind (fun same later => later.trans same) ?_ fun _ =>
    .bind (fun same later => later.trans same) (spared markClean_spares) fun _ => spared drops
  exact fun live => .update rfl

theorem conclude_graph (nodes : List Node) (result : RunResult) (live : LiveRun) :
    EndsIn (conclude nodes result) live fun after =>
      after.run.graph = live.run.graph ∧ after.run.phase.isComplete = true := by
  refine .bind (.noted ((persistEnd_graph nodes result live).mono ?_ ?_))
  · exact fun _ _ same => .bind (.update ⟨same, rfl⟩)
  · exact fun _ _ same => .bind (.update ⟨same, rfl⟩)

theorem endAsFailed_develops (reason : String) (live : LiveRun) :
    EndsIn (endAsFailed reason) live fun after => live.run.Develops after.run := by
  refine .bind (.current (.bind (.update ((conclude_graph _ _ _).mono ?_ ?_))))
  · exact fun _ _ ⟨same, ended⟩ => .repaired same ended
  · exact fun _ _ ⟨same, ended⟩ => .repaired same ended

/-- Where a run is closed its graph is repaired, unless it had ended. -/
theorem fail_graph (reason : String) (live : LiveRun) :
    EndsIn (fail reason) live fun after =>
      after.run.graph = live.run.graph ∨ after.run.graph = live.run.graph.repaired reason := by
  refine .fail (fun _ => .inl rfl) fun _ => ?_
  refine .bind (.current (.bind (.update ((conclude_graph _ _ _).mono ?_ ?_))))
  · exact fun _ _ ⟨same, _⟩ => .inr same
  · exact fun _ _ ⟨same, _⟩ => .inr same

theorem fail_develops (reason : String) (live : LiveRun) :
    EndsIn (fail reason) live fun after => live.run.Develops after.run :=
  .fail (fun _ => .still rfl rfl) fun _ => endAsFailed_develops reason live

/-! ## Growing -/

/-- The graph grows by a node with actions, or it is repaired. -/
theorem growOrClose_develops (kind : NodeKind) (parents : List Nat) (name : String)
    (actions : List Action) (live : LiveRun) :
    Ends (growOrClose kind parents name actions) live
      (fun _ after => ∃ between fresh given graph,
        live.run.graph.append kind parents name = .ok (between, fresh) ∧
          graph = attachAll between fresh.id given ∧
          after = { live with run := { live.run with graph } })
      fun _ after => live.run.Develops after.run := by
  rw [growOrClose, grow_eq]
  refine .bind (.attempt (.bind (.get ?_)))
  cases appended : live.run.graph.append kind parents name with
  | error fault =>
      refine .throw (.bind ((endAsFailed_develops _ live).mono ?_ fun _ _ => id))
      exact fun _ _ develops => .throw develops
  | ok grown => exact .bind (.update (.pure (.pure ⟨_, _, _, _, rfl, rfl, rfl⟩)))

theorem append_develops (draft : NodeDraft) (live : LiveRun) :
    EndsIn (append draft) live fun after => live.run.Develops after.run := by
  refine .append (fun _ => .still rfl rfl) (fun _ => .still rfl rfl) fun running boundary => ?_
  refine (growOrClose_develops _ _ _ _ live).mono ?_ fun _ _ => id
  rintro node _ ⟨between, fresh, given, graph, appended, rfl, rfl⟩
  refine (storing_spares (storeStep_spares node) fun stored => wrapUp_spares node _ stored).mono
    ?_ fun _ _ => id
  rintro _ after ⟨-, same⟩
  have inner : draft.kind ≠ .flowEnd := by
    intro last
    rw [last] at boundary
    cases boundary
  have phase : after.run.phase.isComplete = false :=
    (congrArg (fun snapshot : Snapshot => snapshot.phase.isComplete) same).trans running
  exact .grown appended (congrArg Snapshot.graph same) (fun last => absurd last inner)
    ⟨fun ended => (by cases phase.symm.trans ended), fun last => absurd last inner⟩

theorem attach_develops (id : Nat) (action : Action) (live : LiveRun) :
    EndsIn (attach id action) live fun after => live.run.Develops after.run := by
  refine (attach_makes id action live).mono ?_ fun _ _ => .of_snapshot
  rintro node after ⟨graph, attached, same⟩
  have grown : after.run.graph = graph := congrArg Snapshot.graph same
  exact .attached (grown ▸ attached)
    (congrArg (fun snapshot : Snapshot => snapshot.phase.isComplete) same)

theorem finish_develops (outcome : Outcome) (live : LiveRun) :
    EndsIn (finish outcome) live fun after => live.run.Develops after.run := by
  refine .requireLive (fun _ => .still rfl rfl) fun _ => .bind (.current ?_)
  refine .bind ((growOrClose_develops _ _ _ _ live).mono ?_ fun _ _ => id)
  rintro node _ ⟨between, fresh, given, graph, appended, rfl, rfl⟩
  have develops (after : LiveRun)
      (ended : after.run.graph = attachAll between fresh.id given ∧
        after.run.phase.isComplete = true) : live.run.Develops after.run :=
    .grown appended ended.1 (fun _ => rfl) ⟨fun _ => rfl, fun _ => ended.2⟩
  exact .bind ((conclude_graph _ _ _).mono (fun _ _ ended => .pure (develops _ ended))
    fun _ _ => develops _)

theorem takeCheckpoint_develops (blob : Bytes) (live : LiveRun) :
    EndsIn (takeCheckpoint blob) live fun after => live.run.Develops after.run := by
  refine (takeCheckpoint_makes blob live).mono ?_ ?_
  all_goals
    rintro _ after (⟨-, rfl⟩ | ⟨-, same⟩)
    · exact .still rfl rfl
    · exact .of_snapshot same

/-! ## Pauses -/

/-- A run that is being paused goes on. -/
theorem pausing_develops (running : live.run.phase.isComplete = false) :
    EndsIn pausing live fun after => live.run.Develops after.run := by
  refine .bind (.update (.bind (.attempt ((reachSafePoint_spares _).mono ?_ ?_))))
  · exact fun _ _ same => .update (.still (congrArg Snapshot.graph same) running.symm)
  · exact fun _ _ same => .bind (.update (.bind (.noteFault (.throw
      (.still (congrArg Snapshot.graph same) running.symm)))))

theorem pause_develops (live : LiveRun) :
    EndsIn pause live fun after => live.run.Develops after.run :=
  .pause (fun _ => .still rfl rfl) (fun _ => .still rfl rfl) fun running _ =>
    pausing_develops running

theorem unpausing_develops (running : live.run.phase.isComplete = false) (flag : CleanFlag) :
    EndsIn (unpausing flag) live fun after => live.run.Develops after.run := by
  have tells : Spares (noted (stampRecord flag)) := Spares.catches.noted (stampRecord_spares flag)
  refine .bind (.update (.bind ((tells _).mono ?_ ?_)))
  · exact fun _ _ same => .update (.still (congrArg Snapshot.graph same) running.symm)
  · exact fun _ _ same => .still (congrArg Snapshot.graph same)
      (congrArg (fun snapshot : Snapshot => snapshot.phase.isComplete) same)

theorem unpause_develops (live : LiveRun) :
    EndsIn unpause live fun after => live.run.Develops after.run :=
  .unpause (fun _ => .still rfl rfl) (fun _ => .still rfl rfl) fun running _ =>
    unpausing_develops running live.run.diskFlag

end Run

/-- What any command makes of a run. -/
theorem Command.perform_develops (command : Command) (live : LiveRun) :
    EndsIn command.perform live fun after => live.run.Develops after.run := by
  have spared {α : Type} {step : RunM α} (spares : Spares step) :
      EndsIn step live fun after => live.run.Develops after.run :=
    (spares live).mono (fun _ _ => .of_snapshot) fun _ _ => .of_snapshot
  refine .bind (.current ?_)
  split
  · exact .pure (.still rfl rfl)
  · cases command with
    | append draft => exact reply_ends (append_develops draft live)
    | finish outcome => exact reply_ends (finish_develops outcome live)
    | attach id action => exact reply_ends (attach_develops id action live)
    | checkpoint blob => exact reply_ends (takeCheckpoint_develops blob live)
    | flush => exact reply_ends (spared flush_spares)
    | pause => exact reply_ends (pause_develops live)
    | unpause => exact reply_ends (unpause_develops live)
    | shutdown => exact reply_ends (spared shutdown_spares)
    | look => exact reply_ends (.current (.still rfl rfl))

/-- What any deed makes of it. -/
theorem Deed.carryOut_develops (deed : Deed) (live : LiveRun) :
    EndsIn deed.carryOut live fun after => live.run.Develops after.run := by
  cases deed with
  | fail reason => exact fail_develops reason live
  | enterResuming => exact .enterResuming (fun running => .still rfl (running ▸ rfl)) (.still rfl rfl)
  | leaveResuming =>
      exact .leaveResuming (fun resuming => .still rfl (resuming ▸ rfl)) (.still rfl rfl)
  | command given =>
      exact .bind ((given.perform_develops live).mono (fun _ _ met => .pure met) fun _ _ => id)

/-! ## Flows that end in order -/

theorem Graph.EndsInOrder.congr {graph other : Graph} (heads : other.heads = graph.heads)
    (kinds : ∀ id, other.HasKind id .flowEnd ↔ graph.HasKind id .flowEnd) :
    other.EndsInOrder ↔ graph.EndsInOrder := by
  simp only [EndsInOrder, EndsFlow, heads, kinds]

/-- A flow that has a flow end ends in order exactly if its last node is this end. -/
theorem Graph.endsInOrder_iff_of_ended {graph : Graph} {id : Nat}
    (ended : graph.HasKind id .flowEnd) : graph.EndsInOrder ↔ graph.EndsFlow :=
  or_iff_right fun none => none id ended

/-- A run has a graph that can be used, and its flow ends in order exactly if it is to. -/
structure Run.KeepsOrder (inOrder : Prop) (run : Run) : Prop where
  usable : run.graph.IsUsable
  inOrder_iff : run.graph.EndsInOrder ↔ inOrder
  ended : run.phase.isComplete = true → ∃ id, run.graph.HasKind id .flowEnd

namespace Graph

variable {before between : Graph} {kind : NodeKind} {parents : List Nat} {name : String} {node : Node}

/-- A node that is appended, with actions that are attached to it, extends the graph. -/
theorem appended_extends (usable : before.IsUsable)
    (appends : before.append kind parents name = .ok (between, node)) (actions : List Action) :
    ∃ whole : Node, before.Extends (attachAll between node.id actions) whole ∧ whole.kind = kind ∧
      whole.parents = parents := by
  obtain ⟨extended, rfl⟩ := append_extends_of_below usable.below appends
  have attached := attachAll_attached extended.stored actions
  refine ⟨_, extended.attached attached usable.below, ?_, ?_⟩
  · rw [Node.attachEach_kind]
    rfl
  · rw [Node.attachEach_parents]
    rfl

/-- What admits a node has no flow end. -/
theorem not_ended_of_append (appends : before.append kind parents name = .ok (between, node)) :
    ∀ id, ¬ before.HasKind id .flowEnd := by
  rcases checkGrowth_cases (append_eq_ok.1 appends).1 with ⟨none, -⟩ | ⟨-, admits⟩
  · rintro id ⟨found, stored, -⟩
    exact not_contains_of_isEmpty none id (contains_of_get? stored)
  · exact before.endNode?_eq_none_iff_hasKind.1 admits.notEnded

/-- Attached actions leave the kinds of the nodes. -/
theorem Attached.hasKind_iff {after : Graph} {id : Nat} {action : Action} {node : Node}
    (attaches : before.attach id action = .ok (after, node)) (other : Nat) (kind : NodeKind) :
    after.HasKind other kind ↔ before.HasKind other kind := by
  have grows := attach_growsTo attaches
  constructor
  · rintro ⟨later, stored, same⟩
    obtain ⟨old, there, -⟩ := attach_eq_ok.1 attaches
    have still := (attach_attached attaches).contains_iff (contains_of_get? there) other
    obtain ⟨found, here⟩ := (before.contains_iff other).1 (still ▸ contains_of_get? stored)
    obtain ⟨again, storedToo, stays⟩ := grows other found here
    obtain rfl := Option.some.inj (stored.symm.trans storedToo)
    exact ⟨found, here, stays.kind_eq.symm.trans same⟩
  · exact grows.hasKind

end Graph

/-- Whatever a command makes of a run, its flow ends in order if it did before. -/
theorem Run.Develops.keepsOrder {before after : Run} {inOrder : Prop}
    (develops : before.Develops after) (keeps : before.KeepsOrder inOrder) :
    after.KeepsOrder inOrder := by
  have usable := keeps.usable
  cases develops with
  | still graph phase =>
      exact ⟨graph ▸ usable, graph ▸ keeps.inOrder_iff, fun ended => graph ▸ keeps.ended (phase ▸ ended)⟩
  | attached attaches phase =>
      have kinds := Graph.Attached.hasKind_iff attaches
      have attached := Graph.attach_attached attaches
      obtain ⟨old, there, -⟩ := Graph.attach_eq_ok.1 attaches
      refine ⟨attached.isUsable (Graph.contains_of_get? there) usable, ?_, fun ended => ?_⟩
      · exact (Graph.EndsInOrder.congr attached.heads_eq fun id => kinds id _).trans keeps.inOrder_iff
      · obtain ⟨id, last⟩ := keeps.ended (phase ▸ ended)
        exact ⟨id, (kinds id _).2 last⟩
  | @grown kind parents name actions between node appends graph last phase =>
      obtain ⟨whole, extended, sort, follows⟩ := Graph.appended_extends usable appends actions
      rw [← graph] at extended
      have running := Graph.not_ended_of_append appends
      have kinds (id : Nat) : after.graph.HasKind id .flowEnd ↔ id = whole.id ∧ kind = .flowEnd := by
        rw [extended.hasKind_iff usable.below, sort]
        exact or_iff_right (running id)
      refine ⟨extended.isUsable usable, ?_, fun ended => ⟨whole.id, ?_⟩⟩
      · refine (iff_of_true ?_ (.inl running)).trans keeps.inOrder_iff
        by_cases flowEnd : kind = .flowEnd
        · refine .inr ⟨whole.id, ?_, fun id => by simp [kinds, flowEnd]⟩
          rw [extended.heads_eq]
          exact Graph.headsAfter_eq_singleton fun head inside => by
            rwa [follows, last flowEnd]
        · exact .inl fun id there => flowEnd ((kinds id).1 there).2
      · exact (kinds whole.id).2 ⟨rfl, phase.1 ended⟩
  | @repaired reason graph phase =>
      have extended := usable.extendsBy_repaired reason
      have ends := Graph.endsFlow_repaired_iff usable reason
      rw [← graph] at extended ends
      have ended : ∃ id, after.graph.HasKind id .flowEnd := by
        by_cases running : ∀ id, ¬ before.graph.HasKind id .flowEnd
        · obtain ⟨id, -, only⟩ := ends.2 (.inl running)
          exact ⟨id, (only id).2 rfl⟩
        · obtain ⟨id, there⟩ := not_forall_not.1 running
          exact ⟨id, (extended.hasKind_iff usable id _).2 (.inl there)⟩
      obtain ⟨id, there⟩ := ended
      refine ⟨extended.isUsable usable, ?_, fun _ => ⟨id, there⟩⟩
      rw [Graph.endsInOrder_iff_of_ended there, ends]
      exact keeps.inOrder_iff

end Development
end DurableRuns
