/-
# DurableRuns.Proofs.Run.Told -- the record tells the phase, whatever fails

The phase of a run and what its record tells of it are changed together, so the record in
memory tells the phase after every deed (`LiveRun.afterDeeds_isTold`).  In the midst of a pause
the two may differ; a pause that fails makes them agree again.
-/
import DurableRuns.Proofs.Run.Faults

namespace DurableRuns

set_option autoImplicit false

open Run RunM

/-- The record in memory tells the phase of the run. -/
def Run.IsTold (run : Run) : Prop := run.phase.IsTold run.record.result run.record.status

/-- A step leaves a run whose record tells its phase, if it was begun on one. -/
abbrev KeepsTold {α : Type} (step : RunM α) : Prop :=
  Leads (fun live after => live.run.IsTold → after.run.IsTold) step

/-- The graph and the continuation do not bear on what the record tells. -/
theorem Run.IsTold.congr {run other : Run} {graph : Graph} {checkpoint : Option Checkpoint}
    (told : run.IsTold) (same : other.snapshot = { run.snapshot with graph, checkpoint }) :
    other.IsTold := by
  have phase : other.phase = run.phase := congrArg Snapshot.phase same
  have status : other.record.status = run.record.status := congrArg Snapshot.status same
  have result : other.record.result = run.record.result := congrArg Snapshot.result same
  rw [IsTold, phase, status, result]
  exact told

namespace KeepsTold

variable {α β : Type}

theorem bind {step : RunM α} {next : α → RunM β} (first : KeepsTold step)
    (second : ∀ value, KeepsTold (next value)) : KeepsTold (step >>= next) :=
  Leads.bind (fun told later before => later (told before)) first second

/-- What spares the run in memory spares the phase and what the record tells of it. -/
theorem of_spares {step : RunM α} (spares : Spares step) : KeepsTold step := by
  exact fun live => (spares live).mono (fun _ _ same told => told.congr same)
    fun _ _ same told => told.congr same

/-- A step that leaves a run whose record tells its phase, whatever it told before. -/
theorem of_isTold {step : RunM α} (told : ∀ live, EndsIn step live fun after => after.run.IsTold) :
    KeepsTold step :=
  fun live => (told live).mono (fun _ _ now _ => now) fun _ _ now _ => now

theorem catches : Catches KeepsTold :=
  Leads.catches (fun _ => id) (fun told later before => later (told before)) fun _ _ => id

end KeepsTold

namespace Run

theorem conclude_isTold (nodes : List Node) (result : RunResult) (live : LiveRun) :
    EndsIn (conclude nodes result) live fun after => after.run.IsTold := by
  refine .bind (.noted ((Ends.trivial _ live).mono ?_ ?_))
  · exact fun _ _ _ => .bind (.update rfl)
  · exact fun _ _ _ => .bind (.update rfl)

theorem endAsFailed_isTold (reason : String) (live : LiveRun) :
    EndsIn (endAsFailed reason) live fun after => after.run.IsTold :=
  .bind (.current (.bind (.update (conclude_isTold _ _ _))))

theorem growOrClose_keepsTold (kind : NodeKind) (parents : List Nat) (name : String)
    (actions : List Action) : KeepsTold (growOrClose kind parents name actions) := by
  have grows : KeepsTold (grow kind parents name actions) := by
    rw [grow_eq]
    intro live
    refine .bind (.get ?_)
    split
    · exact .throw id
    · exact .bind (.update (.pure id))
  exact KeepsTold.catches.growOrClose grows fun reason => .of_isTold (endAsFailed_isTold reason)

theorem append_keepsTold (draft : NodeDraft) : KeepsTold (append draft) := by
  refine KeepsTold.catches.append (fun _ => growOrClose_keepsTold _ _ _ _) fun node =>
    .of_spares fun live => ?_
  exact (storing_spares (storeStep_spares node) fun live => wrapUp_spares node _ live).mono
    (fun _ _ stored => stored.2) fun _ _ => id

theorem attach_keepsTold (id : Nat) (action : Action) : KeepsTold (attach id action) := by
  refine fun live => (attach_makes id action live).mono ?_ ?_
  · exact fun _ _ ⟨_, _, same⟩ told => told.congr same
  · exact fun _ _ same told => told.congr same

theorem takeCheckpoint_keepsTold (blob : Bytes) : KeepsTold (takeCheckpoint blob) := by
  refine fun live => (takeCheckpoint_makes blob live).mono ?_ ?_
  all_goals
    rintro _ after (⟨-, rfl⟩ | ⟨-, same⟩) told
    · exact told
    · exact told.congr same

/-- After a pause that failed the run is running again, and told to be. -/
theorem pausing_isTold (live : LiveRun) : EndsIn pausing live fun after => after.run.IsTold := by
  refine .bind (.update (.bind (.attempt ((reachSafePoint_spares _).mono ?_ ?_))))
  · intro _ after same
    have status : after.run.record.status = .paused := congrArg Snapshot.status same
    refine .update ?_
    rw [Run.IsTold, status]
    rfl
  · exact fun error after _ => .bind (.update (.bind (.noteFault (.throw (.inl rfl)))))

theorem pause_keepsTold : KeepsTold pause := KeepsTold.catches.pause (.of_isTold pausing_isTold)

theorem unpausing_isTold (flag : CleanFlag) (live : LiveRun) :
    EndsIn (unpausing flag) live fun after => after.run.IsTold := by
  refine .bind (.update (.bind (.noted ((stampRecord_spares _ _).mono ?_ ?_))))
  all_goals
    intro _ after same
    have status : after.run.record.status = .running := congrArg Snapshot.status same
    refine .update ?_
    show Phase.IsTold .running after.run.record.result after.run.record.status
    rw [status]
    exact .inl rfl

theorem unpause_keepsTold : KeepsTold unpause :=
  KeepsTold.catches.unpause fun flag => .of_isTold (unpausing_isTold flag)

theorem finish_keepsTold (outcome : Outcome) : KeepsTold (finish outcome) :=
  KeepsTold.catches.finish (fun _ => growOrClose_keepsTold _ _ _ _) fun node =>
    .of_isTold (conclude_isTold [node] outcome.result)

theorem fail_keepsTold (reason : String) : KeepsTold (fail reason) :=
  KeepsTold.catches.fail (.of_isTold (endAsFailed_isTold reason))

theorem enterResuming_keepsTold : KeepsTold enterResuming := by
  refine fun live => .update fun told => ?_
  split
  next running =>
    rw [Run.IsTold, running] at told
    rw [Run.IsTold]
    revert told
    cases live.run.record.status <;> simp [Phase.IsTold]
  next => exact told

theorem leaveResuming_keepsTold : KeepsTold leaveResuming := by
  refine fun live => .update fun told => ?_
  split
  next resuming =>
    rw [Run.IsTold, resuming] at told
    rw [Run.IsTold]
    revert told
    cases live.run.record.status <;> simp [Phase.IsTold]
  next => exact told

end Run

theorem Deed.carryOut_keepsTold (deed : Deed) : KeepsTold deed.carryOut := by
  cases deed with
  | fail reason => exact fail_keepsTold reason
  | enterResuming => exact enterResuming_keepsTold
  | leaveResuming => exact leaveResuming_keepsTold
  | command given =>
      refine .bind (KeepsTold.catches.perform ?_) fun _ => .of_spares (.pure ())
      cases given with
      | append draft => exact KeepsTold.catches.reply .node (append_keepsTold draft)
      | finish outcome => exact KeepsTold.catches.reply .node (finish_keepsTold outcome)
      | attach id action => exact KeepsTold.catches.reply .node (attach_keepsTold id action)
      | checkpoint blob =>
          exact KeepsTold.catches.reply (fun _ => .done) (takeCheckpoint_keepsTold blob)
      | flush => exact KeepsTold.catches.reply (fun _ => .done) (.of_spares flush_spares)
      | pause => exact KeepsTold.catches.reply (fun _ => .done) pause_keepsTold
      | unpause => exact KeepsTold.catches.reply (fun _ => .done) unpause_keepsTold
      | shutdown => exact KeepsTold.catches.reply (fun _ => .done) (.of_spares shutdown_spares)
      | look => exact KeepsTold.catches.reply .seen (.of_spares .current)

/-- After any deeds the record in memory tells the phase of the run, if it did before. -/
theorem LiveRun.afterDeeds_isTold {live : LiveRun} (told : live.run.IsTold) (deeds : List (Instant × Deed)) :
    (live.afterDeeds deeds).run.IsTold :=
  afterDeeds_of_kept told fun given _ between still =>
    (given.2.carryOut_keepsTold (between.atTime given.1)).mono (fun _ _ keeps => keeps still)
      fun _ _ keeps => keeps still

end DurableRuns
