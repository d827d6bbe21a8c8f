/-
# DurableRuns.Proofs.Run.Candor -- what an operation writes can be trusted

Between operations a run is `Candid`: if the record on its disk is clean, the disk has the
whole graph.  An operation `Proceeds` from there, whatever the device refuses: what it writes
can be trusted, so a clean record that cannot be is one that it missed to mark as dirty.
Every command proceeds (`Command.perform_proceeds`).
-/
import DurableRuns.Proofs.Flow.RepairPlan
import DurableRuns.Proofs.Run.Growing
import DurableRuns.Proofs.Run.Trust

namespace DurableRuns

set_option autoImplicit false

open Run RunM

/-- Between operations a clean record on disk is true, and the store of a run that goes on has
every node of the graph. -/
structure Candid (live : LiveRun) (shown : Record) : Prop where
  sound : live.standing.Sound shown
  whole : live.standing.diskFlag = .clean → live.standing.IsWhole shown
  synced : live.run.phase.isComplete = false → live.standing.IsSynced []

/-- An operation came from one run to another, and what it wrote can be trusted.  It left the
graph as it was, or it grew the graph and saw to the mark of the record. -/
inductive Proceeds (before : LiveRun) (old : Record) (after : LiveRun) : Prop
  | still {pending : List Nat} (since : Since before.standing old pending after.standing)
      (settled : after.run.phase.isComplete = false → pending = [])
  | grown {graph : Graph} {first : Record} {marked : Standing} {pending : List Nat}
      (le : before.run.graph.nextId ≤ graph.nextId)
      (marks : Marks { before.standing with graph } old first marked)
      (since : Since marked first pending after.standing)
      (settled : after.run.phase.isComplete = false → pending = [])

section Candor

variable {live : LiveRun} {old : Record}

/-- An operation begins: it grows the graph in memory, and some nodes are pending. -/
theorem Candid.since (candid : Candid live old) {graph : Graph} {pending : List Nat}
    (well : graph.WellFormed) (le : live.run.graph.nextId ≤ graph.nextId)
    (synced : Standing.IsSynced { live.standing with graph } pending) :
    Since { live.standing with graph } old pending { live.standing with graph } := by
  refine ⟨.refl _, synced, old, ?_, ?_⟩
  · constructor
    case shows => exact candid.sound.shows
    case flag => exact candid.sound.flag
    case shown_version => exact candid.sound.shown_version
    case shown_heads =>
      exact fun head inside => Nat.lt_of_lt_of_le (candid.sound.shown_heads head inside) le
    case version => exact candid.sound.version
    case heads => exact fun head inside => Nat.lt_of_lt_of_le (candid.sound.heads head inside) le
    case well => exact well
    case placed => exact candid.sound.placed
    case honest => exact candid.sound.honest
  · intro clean
    have whole := candid.whole clean
    exact .inr ⟨rfl, .inl (whole.heads.trans whole.shown_heads.symm)⟩

/-- Nodes that an operation did not touch are in the store as before. -/
theorem Candid.synced_grown (candid : Candid live old) (running : live.run.phase.isComplete = false)
    {graph : Graph} {pending : List Nat}
    (untouched : ∀ id, id ∉ pending → graph.get? id = live.run.graph.get? id) :
    Standing.IsSynced { live.standing with graph } pending := by
  intro able node has apart
  have before : live.standing.Has node := (untouched node.id apart).symm.trans has
  exact candid.synced running able node before (List.not_mem_nil)

/-- An operation that grows the graph begins. -/
theorem Candid.grown (candid : Candid live old) (running : live.run.phase.isComplete = false)
    {graph : Graph} {pending : List Nat} (well : graph.WellFormed)
    (le : live.run.graph.nextId ≤ graph.nextId)
    (untouched : ∀ id, id ∉ pending → graph.get? id = live.run.graph.get? id) :
    Since { live.standing with graph } old pending { live.standing with graph } :=
  candid.since well le (candid.synced_grown running untouched)

/-- An operation that does not grow the graph begins. -/
theorem Candid.unchanged (candid : Candid live old)
    (running : live.run.phase.isComplete = false) :
    Since live.standing old [] live.standing :=
  candid.grown running candid.sound.well (Nat.le_refl _) fun _ _ => rfl

/-- Nothing was done. -/
theorem Candid.proceeds (candid : Candid live old) : Proceeds live old live := by
  cases complete : live.run.phase.isComplete with
  | false => exact .still (candid.unchanged complete) fun _ => rfl
  | true =>
      -- The store of a run that has ended may lack any of its nodes, so all of them are pending.
      have since : Since live.standing old (live.run.graph.nodes.map (·.id)) live.standing := by
        refine candid.since candid.sound.well (Nat.le_refl _) fun _ node has apart => ?_
        have stored : node ∈ live.run.graph.nodes := List.mem_of_find?_eq_some has
        exact absurd (List.mem_map_of_mem stored) apart
      exact .still since fun running => by cases running.symm.trans complete

/-- An operation that left the graph alone has proceeded. -/
theorem Since.proceeds {after : LiveRun} (since : Since live.standing old [] after.standing) :
    Proceeds live old after := .still since fun _ => rfl

end Candor

/-! ## Safe points -/

namespace Run

variable {live : LiveRun} {old : Record} {base : Standing} {pending : List Nat}

theorem reachSafePoint_proceeds (candid : Candid live old)
    (running : live.run.phase.isComplete = false) :
    EndsIn reachSafePoint live (Proceeds live old) :=
  (reachSafePoint_since (candid.unchanged running)).mono (fun _ _ since => since.proceeds)
    fun _ _ since => since.proceeds

theorem flush_proceeds (candid : Candid live old) : EndsIn flush live (Proceeds live old) :=
  .flush (fun _ => candid.proceeds) (fun _ => candid.proceeds) (reachSafePoint_proceeds candid)

theorem shutdown_proceeds (candid : Candid live old) : EndsIn shutdown live (Proceeds live old) :=
  .shutdown (fun _ => candid.proceeds) (reachSafePoint_proceeds candid)

/-- A run that pauses is paused at a safe point, or goes on as it was. -/
theorem pausing_proceeds (candid : Candid live old)
    (running : live.run.phase.isComplete = false) : EndsIn pausing live (Proceeds live old) := by
  have reach : EndsIn reachSafePoint
      { live with run := { live.run with
        phase := .pausing, record := { live.run.record with status := .paused } } }
      fun after => Since live.standing old [] after.standing :=
    reachSafePoint_since (candid.unchanged running)
  refine .bind (.update (.bind (.attempt (reach.mono ?_ ?_))))
  · exact fun _ after since => .update (Since.proceeds since)
  · intro error after since
    exact .bind (.update (.bind (.noteFault (.throw (Since.proceeds
      (since.quiet (Quiet.faulted after error)))))))

theorem pause_proceeds (candid : Candid live old) : EndsIn pause live (Proceeds live old) :=
  .pause (fun _ => candid.proceeds) (fun _ => candid.proceeds)
    fun running _ => pausing_proceeds candid running

theorem unpausing_proceeds (candid : Candid live old)
    (running : live.run.phase.isComplete = false) :
    EndsIn (unpausing live.run.diskFlag) live (Proceeds live old) := by
  have since := candid.unchanged running
  refine .bind (.update (.bind (.noted
    ((stampRecord_ends { live with run := { live.run with
      record := { live.run.record with status := .running } } } since.placed _).mono ?_ ?_))))
  · rintro _ after ⟨record, recorded⟩
    -- Only a flag that was left clean is written as clean, and then the disk was whole.
    refine .update (Since.proceeds (since.recorded recorded fun clean => ?_))
    exact ⟨(candid.whole clean).heads, (candid.whole clean).stands⟩
  · rintro error after ⟨change, -, same⟩
    have missing : Quiet live.standing after.standing := same ▸ Quiet.missing live.standing change
    exact .update (Since.proceeds (since.quiet (missing.trans (Quiet.faulted after error))))

theorem unpause_proceeds (candid : Candid live old) : EndsIn unpause live (Proceeds live old) :=
  .unpause (fun _ => candid.proceeds) (fun _ => candid.proceeds)
    fun running _ => unpausing_proceeds candid running

/-! ## The end -/

/-- Once the record was to be marked as dirty, what was written can be trusted. -/
def HasMarked (base : Standing) (old : Record) (standing : Standing) : Prop :=
  ∃ first marked later, Marks base old first marked ∧ Since marked first later standing

/-- The last nodes and the record of the ended run are written as far as the device takes
them. -/
theorem persistEnd_since {nodes : List Node} (since : Since base old pending live.standing)
    (has : ∀ node ∈ nodes, base.Has node)
    (opened : ∀ node ∈ nodes, ∀ start, node.kind.closes = some start →
      base.graph.contains start = true)
    (covers : ∀ id ∈ pending, id ∈ nodes.flatMap Node.touched) (result : RunResult) :
    Ends (persistEnd nodes result) live (fun _ after => HasMarked base old after.standing)
      fun error after => HasMarked base old (Ends.faulted after error).standing := by
  have noted {first : Record} {marked : Standing} {later : List Nat} {between : LiveRun}
      (error : Error) (marks : Marks base old first marked)
      (since : Since marked first later between.standing) :
      HasMarked base old (Ends.faulted between error).standing :=
    ⟨first, marked, later, marks, since.quiet (.faulted between error)⟩
  refine .bind ((markDirty_marks since).mono ?_ fun error _ ⟨first, marks, since⟩ =>
    noted error marks since)
  rintro _ marked ⟨first, marks, since⟩
  refine .bind ((storeSteps_since since ?_ ?_ covers).mono ?_ fun _ _ since =>
    ⟨first, _, [], marks, since⟩)
  · exact fun node inside => (marks.steady.has_iff node).2 (has node inside)
  · exact fun node inside start closes => marks.steady.graph ▸ opened node inside start closes
  intro _ stored since
  refine .bind ((flushStore_since since).mono ?_ fun error _ => noted error marks)
  rintro _ flushed ⟨since, written⟩
  have ended : Since marked.standing first [] (LiveRun.standing
      { flushed with run := flushed.run.endedOnRecord result }) := since
  refine .bind (.update (.bind ((markClean_since ended written).mono ?_ fun error _ =>
    noted error marks)))
  intro _ last since
  exact .bind (.current ((removeCheckpoint_ends since.placed).mono
    (fun _ _ quiet => ⟨first, _, [], marks, since.quiet quiet⟩)
    fun error _ quiet => noted error marks (since.quiet quiet)))

/-- A run ends, be it that the disk does not take all of it. -/
theorem conclude_since {nodes : List Node} (since : Since base old pending live.standing)
    (has : ∀ node ∈ nodes, base.Has node)
    (opened : ∀ node ∈ nodes, ∀ start, node.kind.closes = some start →
      base.graph.contains start = true)
    (covers : ∀ id ∈ pending, id ∈ nodes.flatMap Node.touched) (result : RunResult) :
    EndsIn (conclude nodes result) live fun after =>
      HasMarked base old after.standing ∧ after.run.phase.isComplete = true := by
  refine .bind (.noted ((persistEnd_since since has opened covers result).mono ?_ ?_))
  · intro _ after since
    have ended : HasMarked base old (LiveRun.standing
      { after with run := after.run.ended result }) := since
    exact .bind (.update ⟨ended, rfl⟩)
  · intro error after since
    have ended : HasMarked base old (LiveRun.standing
      { Ends.faulted after error with run := (Ends.faulted after error).run.ended result }) := since
    exact .bind (.update ⟨ended, rfl⟩)

/-- An operation that ended the run has proceeded. -/
theorem proceeds_of_ended {graph : Graph} {after : LiveRun}
    (le : live.run.graph.nextId ≤ graph.nextId)
    (ended : HasMarked { live.standing with graph } old after.standing ∧
      after.run.phase.isComplete = true) : Proceeds live old after := by
  obtain ⟨⟨first, marked, later, marks, since⟩, complete⟩ := ended
  exact .grown le marks since fun running => by cases running.symm.trans complete

/-- A run is closed as failed, its graph being repaired. -/
theorem endAsFailed_proceeds (candid : Candid live old)
    (running : live.run.phase.isComplete = false) (reason : String) :
    EndsIn (endAsFailed reason) live (Proceeds live old) := by
  obtain ⟨repaired, nodes, applied, extended⟩ :=
    RepairPlan.apply_make candid.sound.well reason
  have well := extended.wellFormed candid.sound.well
  have since : Since { live.standing with graph := repaired } old (nodes.flatMap Node.touched)
      (LiveRun.standing { live with run := { live.run with graph := repaired } }) :=
    candid.grown running well extended.nextId_le
      fun id untouched => extended.get?_of_not_mem_touched untouched
  refine .bind (.current ?_)
  have graph : (RepairPlan.make live.run.graph reason).apply live.run.graph =
      (repaired, .ok nodes) := applied
  rw [graph]
  refine .bind (.update ?_)
  exact (conclude_since since (extended.stored candid.sound.well.isUsable) extended.start_stored
    (fun _ => id) .failure).mono (fun _ _ => proceeds_of_ended extended.nextId_le)
      fun _ _ => proceeds_of_ended extended.nextId_le

/-! ## Growing -/

/-- The graph grows by a node, or the run is closed as failed. -/
theorem growOrClose_ends {kind : NodeKind} {parents : List Nat} {name : String}
    {actions : List Action} {closed : LiveRun → Prop} (usable : live.run.graph.IsUsable)
    (closes : ∀ reason, EndsIn (endAsFailed reason) live closed) :
    Ends (growOrClose kind parents name actions) live
      (fun node after => ∃ graph, after = { live with run := { live.run with graph } } ∧
        live.run.graph.Extends graph node ∧ graph.WellFormed)
      fun _ => closed := by
  cases grown : live.run.graph.append kind parents name with
  | ok made =>
      obtain ⟨graph, node, grows, extended, -⟩ := grow_yields usable grown
      exact .of_yields (growOrClose_yields (grows fun _ => True))
        ⟨graph, rfl, extended, extended.wellFormed_of_isUsable usable⟩
  | error fault =>
      refine .bind (.attempt (.of_yields_error (grow_yields_error (fun _ => True) grown) ?_))
      exact .bind ((closes _).mono (fun _ _ ended => .throw ended) fun _ _ => id)

/-- After its nodes were stored, an operation ends at a safe point, or settles. -/
theorem wrapUp_since (node : Node) (point : Bool) (since : Since base old [] live.standing) :
    EndsIn (wrapUp node point) live fun after => Since base old [] after.standing := by
  cases point with
  | true =>
      exact .bind (.noted ((reachSafePoint_since since).mono (fun _ _ since => .pure since)
        fun error _ since => .pure (since.quiet (.faulted _ error))))
  | false =>
      refine .bind (.bind (.current ?_))
      cases flushed : live.run.store.isFlushed with
      | false => exact .pure (.pure since)
      | true =>
          have written := Standing.written_of_flushed since.placed since.honest since.synced flushed
          exact .noted ((markClean_since since written).mono (fun _ _ since => .pure since)
            fun error _ since => .pure (since.quiet (.faulted _ error)))

/-- An operation that could not store a node goes on without, and has proceeded all the same. -/
theorem storing_proceeds {grown : LiveRun} {graph : Graph} {node : Node} {store : RunM Unit}
    {rest : RunM Node} (le : live.run.graph.nextId ≤ graph.nextId)
    (since : Since { live.standing with graph } old pending grown.standing)
    (stores : ∀ (marked : LiveRun) (first : Record), marked.run.graph = graph →
      Since marked.standing first pending marked.standing → Ends store marked
        (fun _ after => Since marked.standing first [] after.standing)
        fun error after => Since marked.standing first [] (Ends.faulted after error).standing)
    (wraps : ∀ (base : Standing) (first : Record) (after : LiveRun),
      Since base first [] after.standing →
        EndsIn rest after fun after => Since base first [] after.standing) :
    EndsIn (storing node store rest) grown (Proceeds live old) := by
  refine .bind (.attempt ((markDirty_marks since).mono ?_ ?_))
  -- Whether or not the record could be made dirty, the operation goes on in the same way.
  all_goals
    rintro _ marked ⟨first, marks, since⟩
    refine .bind (.attempt ((stores marked first marks.steady.graph since).mono ?_ ?_))
    · intro _ after since
      exact (wraps _ first after since).mono (fun _ _ since => .grown le marks since fun _ => rfl)
        fun _ _ since => .grown le marks since fun _ => rfl
    · intro error after since
      exact .bind (.noteFault (.pure (.grown le marks since fun _ => rfl)))

theorem append_proceeds (candid : Candid live old) (draft : NodeDraft) :
    EndsIn (append draft) live (Proceeds live old) := by
  refine .append (fun _ => candid.proceeds) (fun _ => candid.proceeds) fun running _ => ?_
  refine (growOrClose_ends candid.sound.well.isUsable
    (endAsFailed_proceeds candid running)).mono ?_ fun _ _ => id
  rintro node _ ⟨graph, rfl, extended, well⟩
  have since := candid.grown running well extended.nextId_le
    fun _ => extended.get?_of_not_mem_touched
  refine storing_proceeds extended.nextId_le since (fun marked first same since => ?_)
    fun _ _ _ => wrapUp_since node node.kind.closes.isSome
  have has : marked.standing.Has node := by
    rw [← same] at extended
    exact extended.stored
  have opened : ∀ start, node.kind.closes = some start →
      marked.standing.graph.contains start = true := by
    intro start closes
    rw [← same] at extended
    exact extended.start_stored closes
  exact storeStep_since since has opened fun _ => .inl

theorem attach_proceeds (candid : Candid live old) (id : Nat) (action : Action) :
    EndsIn (attach id action) live (Proceeds live old) := by
  refine .attach (fun _ => candid.proceeds) (fun _ _ => candid.proceeds)
    fun running graph node attached => ?_
  have extended := Graph.attach_attached attached
  have there : live.run.graph.contains id = true := by
    obtain ⟨_, stored, -⟩ := Graph.attach_eq_ok.1 attached
    exact Graph.contains_of_get? stored
  have number : node.id = id := NodeTable.get?_id extended.stored
  subst number
  have le : live.run.graph.nextId ≤ graph.nextId := Nat.le_of_eq extended.nextId_eq.symm
  have since : Since { live.standing with graph } old [node.id]
      (LiveRun.standing { live with run := { live.run with graph } }) :=
    candid.grown running (extended.wellFormed there candid.sound.well) le
      fun other apart => extended.others other (by simpa using apart)
  refine storing_proceeds le since (fun marked first same since => ?_) fun _ _ after since =>
    .bind (.current (wrapUp_since node after.run.phase.holdsAppends since))
  have has : marked.standing.Has node := by
    rw [← same] at extended
    exact extended.stored
  exact storeNode_since since has

/-- While a run is paused its continuation is written at a safe point. -/
theorem heldCheckpoint_proceeds {between : LiveRun}
    (since : Since live.standing old [] between.standing) :
    EndsIn heldCheckpoint between (Proceeds live old) := by
  have safe (marked : LiveRun) (since : Since live.standing old [] marked.standing) :
      EndsIn (notedAndThrown reachSafePoint) marked (Proceeds live old) :=
    .notedAndThrown ((reachSafePoint_since since).mono (fun _ _ since => since.proceeds)
      fun error _ since => (since.quiet (.faulted _ error)).proceeds)
  exact .bind (.attempt ((markDirty_since since).mono (fun _ => safe) fun _ => safe))

/-- A run that writes every step writes its continuation at once. -/
theorem promptCheckpoint_proceeds {between : LiveRun}
    (since : Since live.standing old [] between.standing) :
    EndsIn promptCheckpoint between (Proceeds live old) := by
  have prompt (marked : LiveRun) (since : Since live.standing old [] marked.standing) :
      EndsIn (do
        notedAndThrown writeCheckpoint
        if (← current).store.isFlushed then markClean) marked (Proceeds live old) := by
    refine .bind (.notedAndThrown ((writeCheckpoint_since since).mono ?_ ?_))
    · rintro _ after ⟨since, -⟩
      refine .bind (.current ?_)
      cases flushed : after.run.store.isFlushed with
      | false => exact .pure since.proceeds
      | true =>
          have written := Standing.written_of_flushed since.placed since.honest since.synced flushed
          exact (markClean_since since written).mono (fun _ _ since => since.proceeds)
            fun _ _ since => since.proceeds
    · exact fun error _ since => (since.quiet (.faulted _ error)).proceeds
  exact .bind (.attempt ((markDirty_since since).mono (fun _ => prompt) fun _ => prompt))

theorem takeCheckpoint_proceeds (candid : Candid live old) (blob : Bytes) :
    EndsIn (takeCheckpoint blob) live (Proceeds live old) := by
  have since (running : live.run.phase.isComplete = false) : Since live.standing old []
      (LiveRun.standing { live with run := live.run.holding blob live.machine.now }) :=
    candid.unchanged running
  exact .takeCheckpoint (fun _ => candid.proceeds)
    (fun running _ => heldCheckpoint_proceeds (since running))
    (fun running _ => promptCheckpoint_proceeds (since running))
    fun running => (since running).proceeds

theorem finish_proceeds (candid : Candid live old) (outcome : Outcome) :
    EndsIn (finish outcome) live (Proceeds live old) := by
  refine .requireLive (fun _ => candid.proceeds) fun running => .bind (.current ?_)
  refine .bind ((growOrClose_ends candid.sound.well.isUsable
    (endAsFailed_proceeds candid running)).mono ?_ fun _ _ => id)
  rintro node _ ⟨graph, rfl, extended, well⟩
  have since : Since { live.standing with graph } old node.touched
      (LiveRun.standing { live with run := { live.run with graph } }) :=
    candid.grown running well extended.nextId_le fun _ => extended.get?_of_not_mem_touched
  have has : ∀ other ∈ [node], graph.get? other.id = some other := by
    simpa using extended.stored
  have opened : ∀ other ∈ [node], ∀ start, other.kind.closes = some start →
      graph.contains start = true := by
    simpa using fun start => extended.start_stored
  refine .bind ((conclude_since since has opened (by simp) outcome.result).mono ?_ ?_)
  · exact fun _ _ ended => .pure (proceeds_of_ended extended.nextId_le ended)
  · exact fun _ _ => proceeds_of_ended extended.nextId_le

end Run

/-- What a command writes can be trusted. -/
theorem Command.perform_proceeds {live : LiveRun} {old : Record} (candid : Candid live old)
    (command : Command) : EndsIn command.perform live (Proceeds live old) := by
  have reply {α : Type} {step : RunM α} {answer : α → Reply}
      (ends : EndsIn step live (Proceeds live old)) :
      EndsIn (do return answer (← step)) live (Proceeds live old) :=
    .bind (ends.mono (fun _ _ proceeds => .pure proceeds) fun _ _ => id)
  refine .bind (.current ?_)
  cases waits : command.mustWait live.run.phase with
  | true => exact .pure candid.proceeds
  | false =>
      cases command with
      | append draft => exact reply (append_proceeds candid draft)
      | finish outcome => exact reply (finish_proceeds candid outcome)
      | attach id action => exact reply (attach_proceeds candid id action)
      | checkpoint blob => exact reply (takeCheckpoint_proceeds candid blob)
      | flush => exact reply (flush_proceeds candid)
      | pause => exact reply (pause_proceeds candid)
      | unpause => exact reply (unpause_proceeds candid)
      | shutdown => exact reply (shutdown_proceeds candid)
      | look => exact .bind (.current (.pure candid.proceeds))

end DurableRuns
