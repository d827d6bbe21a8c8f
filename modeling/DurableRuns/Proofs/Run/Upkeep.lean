/-
# DurableRuns.Proofs.Run.Upkeep -- the operations keep a run mirrored

A run that knows what its directory shows of it knows so after every deed, whichever writes are
refused on the way (`LiveRun.afterDeeds_isMirrored`).  Where the graph grows, the record is made
dirty before the first node is stored, and where that fails it is noted; so a record that is
clean was written since, or the graph is the one it was written for.
-/
import DurableRuns.Proofs.Run.Mirror

namespace DurableRuns

set_option autoImplicit false

open Run RunM

section Upkeep

variable {graph : Graph} {told : Prop} {pending : List Nat} {live : LiveRun} {image : Image}

namespace Run

/-! ## The end -/

/-- Where the continuation was removed there is none, as there is none in a run that has ended. -/
theorem removeCheckpoint_mirrored (mirrored : Mirrored graph told pending live) :
    Ends (do onMachine (RunFiles.removeCheckpoint (← current).place)) live
      (fun _ after => after.run = live.run ∧ Mirrored graph told pending
        { after with run := { after.run with checkpoint := none, checkpointPersisted := true } })
      fun _ _ => True := by
  refine .bind (.current (.onMachine_bind (.onMachine_get ?_)))
  dsimp only
  split
  next absent =>
    refine .onMachine_pure ⟨rfl, fun none => ?_⟩
    obtain ⟨image, mirrors⟩ := mirrored none
    -- The file is not there, which the directory shows as no continuation.
    have nothing : image.checkpoint = .none := by
      have stands := mirrors.shows.checkpoint
      rw [← RunFiles.path_checkpointFile, absent.1] at stands
      simpa using stands.symm
    exact ⟨image, { mirrors with
      persisted := fun _ => nothing
      recorded := fun tells clean => { mirrors.recorded tells clean with } }⟩
  next =>
    refine .commit (fun disk made => ⟨rfl, fun none => ?_⟩) fun _ => trivial
    obtain ⟨image, mirrors⟩ := mirrored none
    exact ⟨_, { mirrors with
      shows := mirrors.shows.of_removeCheckpoint made
      persisted := fun _ => rfl
      recorded := fun tells clean => { mirrors.recorded tells clean with } }⟩

theorem persistEnd_mirrored {nodes : List Node} (mirrored : Mirrored graph told pending live)
    (grown : graph.IsGrown) (stored : ∀ node ∈ nodes, graph.get? node.id = some node)
    (opened : ∀ node ∈ nodes, ∀ start, node.kind.closes = some start →
      graph.contains start = true)
    (covers : ∀ id ∈ pending, id ∈ nodes.flatMap Node.touched) (result : RunResult) :
    Ends (persistEnd nodes result) live
      (fun _ after => LiveRun.IsMirrored { after with run := after.run.ended result })
      fun _ _ => True := by
  refine .bind ((markDirty_mirrored mirrored).mono ?_ fun _ _ _ => trivial)
  intro _ marked mirrored
  refine .bind ((storeSteps_mirrored mirrored stored opened covers).mono ?_ fun _ _ => id)
  intro _ written mirrored
  refine .bind ((flushStore_mirrored mirrored).mono ?_ fun _ _ _ => trivial)
  intro _ flushed mirrored
  have retold := mirrored.retold .complete result flushed.run.phase
  refine .bind (.update (.bind (((markClean_mirrored retold grown).and
    (markClean_spares _)).mono ?_ fun _ _ _ => trivial)))
  rintro _ cleaned ⟨mirrored, same⟩
  refine (removeCheckpoint_mirrored mirrored).mono ?_ fun _ _ => id
  rintro _ after ⟨run, mirrored⟩
  have status : after.run.record.status = .complete := run ▸ congrArg Snapshot.status same
  have how : after.run.record.result = result := run ▸ congrArg Snapshot.result same
  -- The record was told of the end before it was written, so the end in memory adds nothing to it.
  have record : { after.run.record with status := .complete, result } = after.run.record := by
    rw [← status, ← how]
  rw [ended, record]
  exact (mirrored.rephased (.complete result)).isMirrored grown

/-- A run that ends is mirrored, or a failure is noted. -/
theorem conclude_mirrored {nodes : List Node} (mirrored : Mirrored graph told pending live)
    (grown : graph.IsGrown) (stored : ∀ node ∈ nodes, graph.get? node.id = some node)
    (opened : ∀ node ∈ nodes, ∀ start, node.kind.closes = some start →
      graph.contains start = true)
    (covers : ∀ id ∈ pending, id ∈ nodes.flatMap Node.touched) (result : RunResult) :
    EndsIn (conclude nodes result) live LiveRun.IsMirrored := by
  refine .bind (.noted ((persistEnd_mirrored mirrored grown stored opened covers result).mono ?_ ?_))
  · exact fun _ after ended => .bind (.update ended)
  · exact fun error after _ => .bind (.update fun none =>
      absurd none (Ends.storageFault_faulted after error))

theorem endAsFailed_mirrored
    (mirrors : Mirrors live.run.graph True [] live.run live.machine.disk image)
    (grown : live.run.graph.IsGrown) (reason : String) :
    EndsIn (endAsFailed reason) live LiveRun.IsMirrored := by
  obtain ⟨repaired, nodes, applied, well, stored, opened, untouched⟩ := grown.apply_make reason
  refine .bind (.current ?_)
  rw [applied]
  exact .bind (.update (conclude_mirrored (mirrors.grown untouched).mirrored (.inl well) stored
    opened (fun _ => id) .failure))

/-! ## Growing -/

/-- After its nodes were stored, an operation ends at a safe point, or settles. -/
theorem wrapUp_mirrored (node : Node) (point : Bool) (mirrored : Mirrored graph True pending live)
    (grown : graph.IsGrown) :
    EndsIn (wrapUp node point) live (Mirrored graph True pending) := by
  cases point with
  | true =>
      exact .bind (.noted ((reachSafePoint_mirrored mirrored grown).mono
        (fun _ _ mirrored => .pure mirrored) fun error failed _ => .pure (.faulted failed error)))
  | false =>
      exact .bind ((settle_mirrored mirrored grown).mono (fun _ _ mirrored => .pure mirrored)
        fun _ _ => id)

/-- A node that is in memory is marked and stored, and what is left to do is done. -/
theorem storing_mirrored {node : Node} {store : RunM Unit} {rest : RunM Node}
    (mirrored : Mirrored graph told pending live) (grown : graph.IsGrown)
    (stores : ∀ marked, Mirrored graph True pending marked →
      Ends store marked (fun _ => Mirrored graph True []) fun _ _ => True)
    (wraps : ∀ stored, Mirrored graph True [] stored →
      EndsIn rest stored (Mirrored graph True [])) :
    EndsIn (storing node store rest) live LiveRun.IsMirrored := by
  refine .bind (.attempt ((markDirty_mirrored mirrored).mono ?_ ?_))
  all_goals
    intro _ marked mirrored
    refine .bind (.attempt ((stores marked mirrored).mono ?_ ?_))
    · intro _ stored mirrored
      exact (wraps stored mirrored).mono (fun _ _ mirrored => mirrored.isMirrored grown)
        fun _ _ mirrored => mirrored.isMirrored grown
    · exact fun error failed _ => .bind (.noteFault (.pure fun none =>
        absurd none (Ends.storageFault_faulted failed error)))

theorem append_mirrored
    (mirrors : Mirrors live.run.graph True [] live.run live.machine.disk image)
    (grown : live.run.graph.IsGrown) (draft : NodeDraft) :
    EndsIn (append draft) live LiveRun.IsMirrored := by
  have mirrored : live.IsMirrored := fun _ => ⟨grown, image, mirrors⟩
  refine .append (fun _ => mirrored) (fun _ => mirrored) fun _ _ => ?_
  refine (growOrClose_ends grown.isUsable (endAsFailed_mirrored mirrors grown)).mono ?_
    fun _ _ => id
  rintro node _ ⟨graph, rfl, extended, well⟩
  have mirrors := mirrors.grown fun _ => extended.get?_of_not_mem_touched
  refine storing_mirrored mirrors.mirrored (.inl well) ?_ ?_
  · intro marked mirrored
    exact storeStep_mirrored mirrored extended.stored (fun _ => extended.start_stored)
      fun _ => .inl
  · exact fun stored mirrored =>
      wrapUp_mirrored node node.kind.closes.isSome mirrored (.inl well)

theorem attach_mirrored
    (mirrors : Mirrors live.run.graph True [] live.run live.machine.disk image)
    (grown : live.run.graph.IsGrown) (id : Nat) (action : Action) :
    EndsIn (attach id action) live LiveRun.IsMirrored := by
  have mirrored : live.IsMirrored := fun _ => ⟨grown, image, mirrors⟩
  refine .attach (fun _ => mirrored) (fun _ _ => mirrored) fun _ graph node attached => ?_
  have extended := Graph.attach_attached attached
  obtain ⟨old, stored, -⟩ := Graph.attach_eq_ok.1 attached
  have well : graph.WellFormed := by
    refine extended.wellFormed (Graph.contains_of_get? stored) (grown.resolve_right fun none => ?_)
    rw [none] at stored
    cases stored
  obtain rfl : node.id = id := NodeTable.get?_id extended.stored
  have lacks : ∀ other, other ∉ [node.id] → graph.get? other = live.run.graph.get? other :=
    fun other apart => extended.others other (by simpa using apart)
  have grows := mirrors.grown lacks
  refine storing_mirrored grows.mirrored (.inl well) ?_ ?_
  · exact fun marked mirrored => storeNode_mirrored mirrored extended.stored (by simp)
  · exact fun stored mirrored => .bind (.current (wrapUp_mirrored node _ mirrored (.inl well)))

/-- While a run is paused its continuation is written at a safe point. -/
theorem heldCheckpoint_mirrored (mirrored : Mirrored graph True [] live) (grown : graph.IsGrown) :
    EndsIn heldCheckpoint live LiveRun.IsMirrored := by
  have safe (marked : LiveRun) (mirrored : Mirrored graph True [] marked) :
      EndsIn (notedAndThrown reachSafePoint) marked LiveRun.IsMirrored :=
    .notedAndThrown ((reachSafePoint_mirrored mirrored grown).mono
      (fun _ _ mirrored => mirrored.isMirrored grown)
      fun error failed _ none => absurd none (Ends.storageFault_faulted failed error))
  exact .bind (.attempt ((markDirty_mirrored mirrored).mono (fun _ => safe) fun _ => safe))

/-- A run that writes every step writes its continuation at once. -/
theorem promptCheckpoint_mirrored (mirrored : Mirrored graph True [] live)
    (grown : graph.IsGrown) : EndsIn promptCheckpoint live LiveRun.IsMirrored := by
  have prompt (marked : LiveRun) (mirrored : Mirrored graph True [] marked) :
      EndsIn (do
        notedAndThrown writeCheckpoint
        if (← current).store.isFlushed then markClean) marked LiveRun.IsMirrored := by
    refine .bind (.notedAndThrown ((writeCheckpoint_mirrored mirrored).mono ?_ ?_))
    · intro _ written mirrored
      refine .bind (.current ?_)
      split
      -- This write may fail and not be noted: then the record of before stands and still tells so.
      · exact (markClean_mirrored mirrored grown).mono
          (fun _ _ mirrored => mirrored.isMirrored grown)
          fun _ _ mirrored => mirrored.isMirrored grown
      · exact .pure (mirrored.isMirrored grown)
    · exact fun error failed _ none => absurd none (Ends.storageFault_faulted failed error)
  exact .bind (.attempt ((markDirty_mirrored mirrored).mono (fun _ => prompt) fun _ => prompt))

theorem takeCheckpoint_mirrored
    (mirrors : Mirrors live.run.graph True [] live.run live.machine.disk image)
    (grown : live.run.graph.IsGrown) (blob : Bytes) :
    EndsIn (takeCheckpoint blob) live LiveRun.IsMirrored := by
  have holding : Mirrored live.run.graph True []
      { live with run := live.run.holding blob live.machine.now } := fun _ =>
    ⟨image, { mirrors with
      persisted := fun persisted => by cases persisted
      recorded := fun tells clean => { mirrors.recorded tells clean with } }⟩
  exact .takeCheckpoint (fun _ _ => ⟨grown, image, mirrors⟩)
    (fun _ _ => heldCheckpoint_mirrored holding grown)
    (fun _ _ => promptCheckpoint_mirrored holding grown) fun _ => holding.isMirrored grown

/-! ## Pauses, and what else is done -/

/-- A safe point is reached, or a write fails. -/
theorem safePoint_mirrored
    (mirrors : Mirrors live.run.graph True [] live.run live.machine.disk image)
    (grown : live.run.graph.IsGrown) : EndsIn reachSafePoint live LiveRun.IsMirrored :=
  (reachSafePoint_mirrored mirrors.mirrored grown).mono
    (fun _ _ mirrored => mirrored.isMirrored grown) fun _ _ mirrored => mirrored.isMirrored grown

theorem flush_mirrored
    (mirrors : Mirrors live.run.graph True [] live.run live.machine.disk image)
    (grown : live.run.graph.IsGrown) : EndsIn flush live LiveRun.IsMirrored :=
  .flush (fun _ _ => ⟨grown, image, mirrors⟩) (fun _ _ => ⟨grown, image, mirrors⟩)
    fun _ => safePoint_mirrored mirrors grown

theorem shutdown_mirrored
    (mirrors : Mirrors live.run.graph True [] live.run live.machine.disk image)
    (grown : live.run.graph.IsGrown) : EndsIn shutdown live LiveRun.IsMirrored :=
  .shutdown (fun _ _ => ⟨grown, image, mirrors⟩) fun _ => safePoint_mirrored mirrors grown

/-- A pause that is reached has told that the run is paused; one that fails is noted. -/
theorem pausing_mirrored
    (mirrors : Mirrors live.run.graph True [] live.run live.machine.disk image)
    (grown : live.run.graph.IsGrown) : EndsIn pausing live LiveRun.IsMirrored := by
  have retold := mirrors.mirrored.retold .paused live.run.record.result .pausing
  refine .bind (.update (.bind (.attempt ((reachSafePoint_mirrored retold grown).mono ?_ ?_))))
  · exact fun _ reached mirrored => .update ((mirrored.rephased .paused).isMirrored grown)
  · exact fun error failed _ => .bind (.update (.bind (.noteFault (.throw fun none =>
      absurd none (Ends.storageFault_faulted _ error)))))

theorem pause_mirrored
    (mirrors : Mirrors live.run.graph True [] live.run live.machine.disk image)
    (grown : live.run.graph.IsGrown) : EndsIn pause live LiveRun.IsMirrored :=
  .pause (fun _ _ => ⟨grown, image, mirrors⟩) (fun _ _ => ⟨grown, image, mirrors⟩)
    fun _ _ => pausing_mirrored mirrors grown

/-- The end of a pause writes the flag that was last written, with the heads that went with it. -/
theorem unpausing_mirrored
    (mirrors : Mirrors live.run.graph True [] live.run live.machine.disk image)
    (grown : live.run.graph.IsGrown) :
    EndsIn (unpausing live.run.diskFlag) live LiveRun.IsMirrored := by
  have retold := mirrors.mirrored.retold .running live.run.record.result live.run.phase
  -- Only a flag that was left clean is written as clean, and then the heads in memory regain
  -- the graph.
  have regains : live.run.diskFlag = .clean → live.run.storageFault = none →
      Graph.regain live.run.graph.table live.run.record.heads = live.run.graph :=
    fun clean _ => (mirrors.recorded trivial clean).heads
  refine .bind (.update (.bind (.noted ((stampRecord_mirrored retold regains).mono ?_ ?_))))
  · exact fun _ stamped mirrored => .update ((mirrored.rephased .running).isMirrored grown)
  · exact fun error failed _ => .update fun none =>
      absurd none (Ends.storageFault_faulted failed error)

theorem unpause_mirrored
    (mirrors : Mirrors live.run.graph True [] live.run live.machine.disk image)
    (grown : live.run.graph.IsGrown) : EndsIn unpause live LiveRun.IsMirrored :=
  .unpause (fun _ _ => ⟨grown, image, mirrors⟩) (fun _ _ => ⟨grown, image, mirrors⟩)
    fun _ _ => unpausing_mirrored mirrors grown

theorem finish_mirrored
    (mirrors : Mirrors live.run.graph True [] live.run live.machine.disk image)
    (grown : live.run.graph.IsGrown) (outcome : Outcome) :
    EndsIn (finish outcome) live LiveRun.IsMirrored := by
  refine .requireLive (fun _ _ => ⟨grown, image, mirrors⟩) fun _ => .bind (.current ?_)
  refine .bind ((growOrClose_ends grown.isUsable
    (endAsFailed_mirrored mirrors grown)).mono ?_ fun _ _ => id)
  rintro node _ ⟨graph, rfl, extended, well⟩
  have mirrors := mirrors.grown fun _ => extended.get?_of_not_mem_touched
  have stored : ∀ other ∈ [node], graph.get? other.id = some other := by
    simpa using extended.stored
  have opened : ∀ other ∈ [node], ∀ start, other.kind.closes = some start →
      graph.contains start = true := by
    simpa using fun start => extended.start_stored
  exact .bind ((conclude_mirrored mirrors.mirrored (.inl well) stored opened (by simp)
    outcome.result).mono (fun _ _ mirrored => .pure mirrored) fun _ _ => id)

theorem fail_mirrored
    (mirrors : Mirrors live.run.graph True [] live.run live.machine.disk image)
    (grown : live.run.graph.IsGrown) (reason : String) :
    EndsIn (fail reason) live LiveRun.IsMirrored :=
  .fail (fun _ _ => ⟨grown, image, mirrors⟩) fun _ => endAsFailed_mirrored mirrors grown reason

theorem enterResuming_mirrored
    (mirrors : Mirrors live.run.graph True [] live.run live.machine.disk image)
    (grown : live.run.graph.IsGrown) : EndsIn enterResuming live LiveRun.IsMirrored :=
  .enterResuming (fun _ => (mirrors.mirrored.rephased .resuming).isMirrored grown)
    fun _ => ⟨grown, image, mirrors⟩

theorem leaveResuming_mirrored
    (mirrors : Mirrors live.run.graph True [] live.run live.machine.disk image)
    (grown : live.run.graph.IsGrown) : EndsIn leaveResuming live LiveRun.IsMirrored :=
  .leaveResuming (fun _ => (mirrors.mirrored.rephased .running).isMirrored grown)
    fun _ => ⟨grown, image, mirrors⟩

end Run

/-- A deed that is done to a mirrored run leaves it mirrored, whichever writes are refused. -/
theorem Deed.carryOut_mirrored (mirrored : live.IsMirrored) (deed : Deed) :
    EndsIn deed.carryOut live LiveRun.IsMirrored := by
  cases fault : live.run.storageFault with
  | some error =>
      have claims {after : LiveRun} (heeds : Heeds (deed = .command .unpause) live after) :
          after.IsMirrored := by
        intro none
        have still := heeds.fault (by simp [fault])
        simp [none] at still
      exact (deed.carryOut_heeds live).mono (fun _ _ => claims) fun _ _ => claims
  | none =>
      obtain ⟨grown, image, mirrors⟩ := mirrored fault
      cases deed with
      | fail reason => exact fail_mirrored mirrors grown reason
      | enterResuming => exact enterResuming_mirrored mirrors grown
      | leaveResuming => exact leaveResuming_mirrored mirrors grown
      | command given =>
          refine .bind (Ends.mono (.bind (.current ?_)) (fun _ _ => .pure) fun _ _ => id)
          split
          · exact .pure mirrored
          · cases given with
            | append draft => exact Command.reply_ends (append_mirrored mirrors grown draft)
            | finish outcome => exact Command.reply_ends (finish_mirrored mirrors grown outcome)
            | attach id action => exact Command.reply_ends (attach_mirrored mirrors grown id action)
            | checkpoint blob => exact Command.reply_ends (takeCheckpoint_mirrored mirrors grown blob)
            | flush => exact Command.reply_ends (flush_mirrored mirrors grown)
            | pause => exact Command.reply_ends (pause_mirrored mirrors grown)
            | unpause => exact Command.reply_ends (unpause_mirrored mirrors grown)
            | shutdown => exact Command.reply_ends (shutdown_mirrored mirrors grown)
            | look => exact Command.reply_ends (.current mirrored)

/-- After any deeds a run is mirrored, if it was before. -/
theorem LiveRun.afterDeeds_isMirrored (mirrored : live.IsMirrored)
    (deeds : List (Instant × Deed)) : (live.afterDeeds deeds).IsMirrored := by
  refine afterDeeds_of_kept mirrored fun given _ between mirrored => ?_
  have timely : (between.atTime given.1).IsMirrored := mirrored
  exact given.2.carryOut_mirrored timely

end Upkeep
end DurableRuns
