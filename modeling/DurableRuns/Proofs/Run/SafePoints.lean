/-
# DurableRuns.Proofs.Run.SafePoints -- every operation keeps a run settled

An operation on a settled run leaves a settled run, and on the way no kill does harm
(`Command.carryOut_keeps`).  After a safe point all that the run is is on disk, marked clean.
After any other operation the disk has what it had, but for the flag of the record: a run
that has grown is marked dirty.
-/
import DurableRuns.Proofs.Run.Settled

namespace DurableRuns

set_option autoImplicit false

open Run RunM

/-! ## What an operation leaves -/

/-- What an operation leaves behind, be it a safe point or not, and whether or not the graph
has grown. -/
structure Performs (live after : LiveRun) (image image' : Image) (safe grows : Bool) : Prop where
  settled : Settled after image'
  place_eq : after.run.place = live.run.place
  hint_eq : after.run.hint = live.run.hint
  awake : after.run.phase = .resuming → live.run.phase = .resuming
  nextId_le : live.run.graph.nextId ≤ after.run.graph.nextId
  saved : (live.run.hint.writesEveryStep || safe) = true → after.run.IsSaved
  unsaved : (live.run.hint.writesEveryStep || safe) = false →
    image.SavesSame image' ∧
      after.run.diskFlag = if grows then .dirty else live.run.diskFlag

/-- A step comes to an outcome and leaves what an operation may leave; `safe` and `grows` tell
from the outcome what has happened. -/
def Keeps {α : Type} (step : RunM α) (live : LiveRun) (image : Image)
    (safe grows : Except Error α → Bool) : Prop :=
  ∃ outcome after image', Yields (after.run.Guarded live.run.graph) step live outcome after ∧
    Performs live after image image' (safe outcome) (grows outcome)

theorem Image.SavesSame.refl (image : Image) : image.SavesSame image :=
  ⟨rfl, rfl, fun record same => ⟨record, same, rfl⟩⟩

theorem Run.guarded_congr {run other : Run} (place : other.place = run.place)
    (hint : other.hint = run.hint) (graph : other.graph = run.graph) (before : Graph) :
    other.Guarded before = run.Guarded before := by
  funext disk
  rw [Guarded, Guarded, place, hint, graph]

section Operations

variable {base : Run} {live after : LiveRun} {image image' : Image} {safe grows : Bool}

/-- Nothing was done. -/
theorem Performs.nothing (settled : Settled live image) (saved : safe = true → live.run.IsSaved) :
    Performs live live image image safe false := by
  refine ⟨settled, rfl, rfl, id, Nat.le_refl _, ?_, ?_⟩
  · intro either
    rcases Bool.or_eq_true_iff.1 either with prompt | point
    · exact settled.atRest (by simp [mustBeSaved, prompt])
    · exact saved point
  · intro _
    exact ⟨.refl image, rfl⟩

/-- A step that changes nothing keeps a run settled. -/
theorem Keeps.nothing {α : Type} {step : RunM α} {safe grows : Except Error α → Bool}
    (outcome : Except Error α) (settled : Settled live image)
    (done : Yields (live.run.Guarded live.run.graph) step live outcome live)
    (saved : safe outcome = true → live.run.IsSaved) (still : grows outcome = false) :
    Keeps step live image safe grows :=
  ⟨outcome, live, image, done, still ▸ .nothing settled saved⟩

/-- An operation that leaves everything on disk. -/
theorem Performs.of_onDisk {before : Graph} (tracks : Tracks base before after image')
    (onDisk : OnDisk after.run image') (persisted : after.run.checkpointPersisted = true)
    (well : base.graph.WellFormed) (storable : base.graph.Storable)
    (sound : after.run.life.Sound)
    (place : base.place = live.run.place) (hint : base.hint = live.run.hint)
    (awake : base.phase = .resuming → live.run.phase = .resuming)
    (nextId : live.run.graph.nextId ≤ base.graph.nextId)
    (point : (live.run.hint.writesEveryStep || safe) = true) :
    Performs live after image image' safe grows := by
  obtain ⟨settled, saved⟩ := Settled.of_onDisk tracks onDisk persisted well storable sound
  refine ⟨settled, tracks.place_eq.trans place, tracks.hint_eq.trans hint, ?_, ?_,
    fun _ => saved, ?_⟩
  · intro resuming
    exact awake (tracks.phase_eq.symm.trans resuming)
  · rw [tracks.graph_eq]
    exact nextId
  · intro neither
    cases neither.symm.trans point

theorem requireLive_yields (meets : Disk → Prop) (operation : Operation)
    (running : live.run.phase.isComplete = false) :
    Yields meets (requireLive operation) live (.ok ()) live := by
  refine .bind .current ?_
  rw [running]
  exact .pure ()

theorem requireLive_yields_error (meets : Disk → Prop) (operation : Operation)
    (complete : live.run.phase.isComplete = true) :
    Yields meets (requireLive operation) live
      (.error (.invalidState live.run.phase operation)) live := by
  refine .bind .current ?_
  rw [complete]
  exact .throw _

/-! ## Flushing, pausing and going on -/

/-- A safe point keeps a settled run settled. -/
theorem reachSafePoint_keeps (settled : Settled live image) :
    ∃ after image', Yields (after.run.Guarded live.run.graph) reachSafePoint live (.ok ()) after ∧
      Performs live after image image' true grows := by
  obtain ⟨after, image', done, tracked, onDisk, persisted⟩ :=
    reachSafePoint_yields settled.tracks settled.well settled.sound.unfailed settled.kept
      settled.kept_eq_nodes
  have sound : after.run.life.Sound := tracked.life ▸ settled.sound
  refine ⟨after, image', ?_, .of_onDisk tracked onDisk persisted settled.well settled.storable sound
    rfl rfl id (Nat.le_refl _) (by simp)⟩
  rw [guarded_congr tracked.place_eq tracked.hint_eq tracked.graph_eq]
  exact done

theorem flush_keeps (settled : Settled live image) :
    Keeps flush live image (fun outcome => outcome.isOk) (fun _ => false) := by
  cases complete : live.run.phase.isComplete with
  | true =>
      refine .nothing (.error (.invalidState live.run.phase .flush)) settled
        (.bind_error (requireLive_yields_error _ _ complete)) ?_ rfl
      intro ok
      cases ok
  | false =>
      by_cases done : (live.run.store.isFlushed && live.run.checkpointPersisted &&
          decide (live.run.diskFlag = .clean)) = true
      · have saved : live.run.IsSaved := by
          simp only [Bool.and_eq_true, decide_eq_true_eq] at done
          exact ⟨done.2, done.1.2⟩
        refine .nothing (.ok ()) settled
          (.bind (requireLive_yields _ _ complete) (.bind .current ?_)) (fun _ => saved) rfl
        rw [if_pos done]
        exact .pure ()
      · obtain ⟨after, image', reached, performs⟩ := reachSafePoint_keeps settled
        refine ⟨.ok (), after, image', .bind (requireLive_yields _ _ complete)
          (.bind .current ?_), performs⟩
        rw [if_neg done]
        exact reached

theorem shutdown_keeps (settled : Settled live image) :
    Keeps shutdown live image (fun outcome => outcome.isOk) (fun _ => false) := by
  cases complete : live.run.phase.isComplete with
  | true =>
      refine .nothing (.ok ()) settled (.bind .current ?_) ?_ rfl
      · rw [complete]
        exact .pure ()
      · intro _
        exact settled.atRest (by simp [mustBeSaved, complete])
  | false =>
      obtain ⟨after, image', reached, performs⟩ := reachSafePoint_keeps settled
      refine ⟨.ok (), after, image', .bind .current ?_, performs⟩
      rw [complete]
      exact reached

/-- A running run is paused once all that it is is on disk. -/
theorem pausing_keeps (settled : Settled live image) :
    ∃ after image', Yields (after.run.Guarded live.run.graph) pausing live (.ok ()) after ∧
      Performs live after image image' true grows := by
  let base : Run :=
    { live.run with phase := .pausing, record := { live.run.record with status := .paused } }
  have below := settled.tracks.record_below
  have tracks : Tracks base live.run.graph { live with run := base } image :=
    { settled.tracks with life := rfl, record_below := ⟨below.hint_eq, below.version_lt, below.heads_lt⟩ }
  obtain ⟨between, image', done, tracked, onDisk, persisted⟩ :=
    reachSafePoint_yields tracks settled.well settled.sound.unfailed settled.kept
      settled.kept_eq_nodes
  have life : { between.run with phase := .paused }.life = { base with phase := .paused }.life :=
    congrArg (fun life : Life => { life with phase := .paused }) tracked.life
  have sound : Life.Sound { between.run with phase := .paused }.life := by
    rw [life]
    exact ⟨rfl, settled.sound.recordId, settled.sound.recordHint, (fun ended => by cases ended),
      settled.sound.unfailed⟩
  have final : Tracks { base with phase := .paused } live.run.graph
      { between with run := { between.run with phase := .paused } } image' :=
    { tracked with life }
  refine ⟨{ between with run := { between.run with phase := .paused } }, image', ?_,
    .of_onDisk final { onDisk with } persisted settled.well settled.storable sound rfl rfl
      (fun resuming => by cases resuming) (Nat.le_refl _) (by simp)⟩
  rw [guarded_congr final.place_eq final.hint_eq final.graph_eq]
  exact .bind (.update _) (.bind done.attempt (.update _))

theorem pause_keeps (settled : Settled live image) :
    Keeps pause live image (fun outcome => outcome.isOk) (fun _ => false) := by
  rw [pause_eq]
  cases phase : live.run.phase with
  | running =>
      obtain ⟨after, image', done, performs⟩ := pausing_keeps settled
      refine ⟨.ok (), after, image', .bind .current ?_, performs⟩
      rw [phase]
      exact done
  | resuming =>
      obtain ⟨after, image', done, performs⟩ := pausing_keeps settled
      refine ⟨.ok (), after, image', .bind .current ?_, performs⟩
      rw [phase]
      exact done
  | pausing =>
      refine .nothing (.ok ()) settled (.bind .current ?_) ?_ rfl
      · rw [phase]
        exact .pure ()
      · intro _
        exact settled.atRest (by simp [mustBeSaved, phase, Phase.holdsAppends])
  | paused =>
      refine .nothing (.ok ()) settled (.bind .current ?_) ?_ rfl
      · rw [phase]
        exact .pure ()
      · intro _
        exact settled.atRest (by simp [mustBeSaved, phase, Phase.holdsAppends])
  | complete result =>
      refine .nothing (.error (.invalidState (.complete result) .pause)) settled
        (.bind .current ?_) ?_ rfl
      · rw [phase]
        exact .throw _
      · intro ok
        cases ok

/-- A paused run goes on once its record tells so. -/
theorem unpausing_keeps (settled : Settled live image) (held : live.run.phase.holdsAppends = true) :
    ∃ after image', Yields (after.run.Guarded live.run.graph) (unpausing live.run.diskFlag) live
        (.ok ()) after ∧
      Performs live after image image' true grows := by
  obtain ⟨clean, persisted⟩ := settled.atRest (by simp [mustBeSaved, held])
  let base : Run := { live.run with record := { live.run.record with status := .running } }
  have below := settled.tracks.record_below
  have tracks : Tracks base live.run.graph { live with run := base } image :=
    { settled.tracks with life := rfl, record_below := ⟨below.hint_eq, below.version_lt, below.heads_lt⟩ }
  have has := settled.has_of_clean clean
  obtain ⟨between, stamp, run, tracked⟩ :=
    stampRecord_yields tracks .clean fun _ => .inr ⟨has.nodes, has.heads⟩
  have life : { between.run with phase := .running }.life = { base with phase := .running }.life :=
    congrArg (fun life : Life => { life with phase := .running }) tracked.life
  have sound : Life.Sound { between.run with phase := .running }.life := by
    rw [life]
    exact ⟨.inl rfl, settled.sound.recordId, settled.sound.recordHint, (fun ended => by cases ended),
      settled.sound.unfailed⟩
  have final : Tracks { base with phase := .running } live.run.graph
      { between with run := { between.run with phase := .running } }
      (stampedImage { live with run := base } image .clean) := { tracked with life }
  have onDisk : OnDisk { between.run with phase := .running }
      (stampedImage { live with run := base } image .clean) := by
    rw [run]
    exact ⟨rfl, rfl, rfl, has.heads, has.nodes, settled.kept⟩
  refine ⟨{ between with run := { between.run with phase := .running } }, _, ?_,
    .of_onDisk final onDisk (by rw [run]; exact persisted) settled.well settled.storable sound
      rfl rfl (fun resuming => by cases resuming) (Nat.le_refl _) (by simp)⟩
  rw [guarded_congr final.place_eq final.hint_eq final.graph_eq, clean]
  exact .bind (.update _) (.bind stamp.noted (.update _))

theorem unpause_keeps (settled : Settled live image) :
    Keeps unpause live image (fun outcome => outcome.isOk && live.run.phase.holdsAppends)
      (fun _ => false) := by
  rw [unpause_eq]
  cases phase : live.run.phase with
  | running =>
      refine .nothing (.ok ()) settled (.bind .current ?_) (fun point => ?_) rfl
      · rw [phase]
        exact .pure ()
      · cases point
  | resuming =>
      refine .nothing (.ok ()) settled (.bind .current ?_) (fun point => ?_) rfl
      · rw [phase]
        exact .pure ()
      · cases point
  | pausing =>
      obtain ⟨after, image', done, performs⟩ := unpausing_keeps settled (by rw [phase]; rfl)
      refine ⟨.ok (), after, image', .bind .current ?_, performs⟩
      rw [phase]
      exact done
  | paused =>
      obtain ⟨after, image', done, performs⟩ := unpausing_keeps settled (by rw [phase]; rfl)
      refine ⟨.ok (), after, image', .bind .current ?_, performs⟩
      rw [phase]
      exact done
  | complete result =>
      refine .nothing (.error (.invalidState (.complete result) .unpause)) settled
        (.bind .current ?_) (fun point => ?_) rfl
      · rw [phase]
        exact .throw _
      · cases point

/-! ## The continuation -/

/-- A run that writes every step has nothing waiting in its store. -/
theorem flushed_of_writesEveryStep {before : Graph} (tracks : Tracks base before live image)
    (prompt : base.hint.writesEveryStep = true) :
    live.run.store.isFlushed = true ∧ live.run.kept image = image.nodes := by
  have flushed : live.run.store.isFlushed = true := by
    have knows := tracks.store
    unfold StoreKnows at knows
    cases store : live.run.store with
    | immediate directory atomic => rfl
    | batched file nodes unflushed fault =>
        rw [store] at knows
        have kind := knows.1
        rw [tracks.hint_eq, Hint.storageKind, if_pos prompt] at kind
        cases kind
  exact ⟨flushed, kept_of_isFlushed tracks.store flushed⟩

/-- A step whose failure is remembered and passed on, when it does not fail. -/
theorem notedAndThrown_yields {meets : Disk → Prop} {step : RunM Unit}
    (done : Yields meets step live (.ok ()) after) :
    Yields meets (notedAndThrown step) live (.ok ()) after :=
  done.attempt.bind (.pure ())

theorem holding_tracks (settled : Settled live image) (blob : Bytes) (now : Instant) :
    Tracks (live.run.holding blob now) live.run.graph
      { live with run := live.run.holding blob now } image :=
  { settled.tracks with
    life := rfl
    persisted := fun persisted => by cases persisted
    held := fun none => by cases none
    checkpoint_below := by
      rintro checkpoint same
      obtain rfl := Option.some.inj same
      exact fun head inside => settled.well.heads_lt inside }

theorem holding_sound (settled : Settled live image) (running : live.run.phase.isComplete = false)
    (blob : Bytes) (now : Instant) : (live.run.holding blob now).life.Sound := by
  refine ⟨settled.sound.phase, settled.sound.recordId, settled.sound.recordHint, ?_,
    settled.sound.unfailed⟩
  intro ended
  cases ended.symm.trans running

/-- While a run is paused its continuation is written at a safe point. -/
theorem heldCheckpoint_keeps (settled : Settled live image)
    (running : live.run.phase.isComplete = false) (blob : Bytes) (now : Instant) :
    ∃ after image', Yields (after.run.Guarded live.run.graph) heldCheckpoint
        { live with run := live.run.holding blob now } (.ok ()) after ∧
      Performs live after image image' true grows := by
  have sound := holding_sound settled running blob now
  obtain ⟨between, image₁, mark, tracks₁, dirtied⟩ :=
    markDirty_yields (holding_tracks settled blob now)
  obtain ⟨after, image', done, tracked, onDisk, persisted⟩ :=
    reachSafePoint_yields tracks₁ settled.well settled.sound.unfailed
      (dirtied.kept_eq.trans settled.kept) (by simp [dirtied.flag])
  refine ⟨after, image', ?_, .of_onDisk tracked onDisk persisted settled.well settled.storable
    (tracked.life ▸ sound) rfl rfl id (Nat.le_refl _) (by simp)⟩
  rw [guarded_congr tracked.place_eq tracked.hint_eq tracked.graph_eq]
  exact .bind mark.attempt (notedAndThrown_yields done)

/-- A run that writes every step writes its continuation at once. -/
theorem promptCheckpoint_keeps (settled : Settled live image)
    (running : live.run.phase.isComplete = false) (prompt : live.run.hint.writesEveryStep = true)
    (blob : Bytes) (now : Instant) :
    ∃ after image', Yields (after.run.Guarded live.run.graph) promptCheckpoint
        { live with run := live.run.holding blob now } (.ok ()) after ∧
      Performs live after image image' safe grows := by
  have sound := holding_sound settled running blob now
  obtain ⟨live₁, image₁, mark, tracks₁, dirtied⟩ :=
    markDirty_yields (holding_tracks settled blob now)
  have waiting : live₁.run.checkpointPersisted = false := dirtied.persisted
  obtain ⟨live₂, write, tracks₂, run₂⟩ := writeCheckpoint_yields tracks₁ waiting
  obtain ⟨flushed, kept⟩ := flushed_of_writesEveryStep tracks₂ prompt
  have whole : live₂.run.kept { image₁ with checkpoint := live₁.run.checkpoint } =
      live.run.graph.table := by
    have store : live₂.run.store = live₁.run.store := by rw [run₂]
    have nodes : ({ image₁ with checkpoint := live₁.run.checkpoint } : Image).nodes =
        image₁.nodes := rfl
    rw [kept_congr store nodes, dirtied.kept_eq]
    exact settled.kept
  obtain ⟨after, clean, tracked, onDisk, persisted⟩ :=
    markClean_yields tracks₂ settled.well settled.sound.unfailed (kept.symm.trans whole) whole
  rw [run₂] at persisted
  refine ⟨after, _, ?_, .of_onDisk tracked onDisk persisted settled.well settled.storable
    (tracked.life ▸ sound) rfl rfl id (Nat.le_refl _) (by simp [prompt])⟩
  rw [guarded_congr tracked.place_eq tracked.hint_eq tracked.graph_eq]
  refine .bind mark.attempt (.bind (notedAndThrown_yields write) (.bind .current ?_))
  rw [if_pos flushed]
  exact clean

/-- A batched run only remembers its continuation. -/
theorem batchedCheckpoint_performs (settled : Settled live image)
    (running : live.run.phase.isComplete = false) (held : live.run.phase.holdsAppends = false)
    (batched : live.run.hint.writesEveryStep = false) (blob : Bytes) (now : Instant) :
    Performs live { live with run := live.run.holding blob now } image image false false := by
  have tracks := holding_tracks settled blob now
  have resting : (live.run.holding blob now).mustBeSaved = false := by
    simp [mustBeSaved, Run.holding, running, held, batched]
  refine ⟨?_, rfl, rfl, id, Nat.le_refl _, ?_, fun _ => ⟨.refl image, rfl⟩⟩
  · exact { settled with
      tracks
      sound := holding_sound settled running blob now
      atRest := fun saved => by cases saved.symm.trans resting }
  · intro saved
    simp [batched] at saved

/-- A run that has not ended takes over a continuation. -/
theorem takeCheckpoint_taken (settled : Settled live image)
    (running : live.run.phase.isComplete = false) (blob : Bytes) :
    ∃ after image', Yields (after.run.Guarded live.run.graph) (takeCheckpoint blob) live (.ok ())
        after ∧
      Performs live after image image' live.run.phase.holdsAppends false := by
  have taken {after : LiveRun} {meets : Disk → Prop} {rest : RunM Unit}
      (done : Yields meets rest
        { live with run := live.run.holding blob live.machine.now } (.ok ()) after)
      (same : rest = if live.run.phase.holdsAppends = true then heldCheckpoint
        else if live.run.hint.writesEveryStep = true then promptCheckpoint
        else pure ()) :
      Yields meets (takeCheckpoint blob) live (.ok ()) after := by
    subst same
    exact .bind (requireLive_yields _ _ running) (.bind .get (.bind (.update _)
      (.bind .current done)))
  cases held : live.run.phase.holdsAppends with
  | true =>
      obtain ⟨after, image', done, performs⟩ :=
        heldCheckpoint_keeps settled running blob live.machine.now
      exact ⟨after, image', taken done (by simp [held]), performs⟩
  | false =>
      cases prompt : live.run.hint.writesEveryStep with
      | true =>
          obtain ⟨after, image', done, performs⟩ :=
            promptCheckpoint_keeps settled running prompt blob live.machine.now
          exact ⟨after, image', taken done (by simp [held, prompt]), performs⟩
      | false =>
          exact ⟨_, image, taken (.pure ()) (by simp [held, prompt]),
            batchedCheckpoint_performs settled running held prompt blob live.machine.now⟩

theorem takeCheckpoint_keeps (settled : Settled live image) (blob : Bytes) :
    Keeps (takeCheckpoint blob) live image
      (fun outcome => outcome.isOk && live.run.phase.holdsAppends) (fun _ => false) := by
  cases complete : live.run.phase.isComplete with
  | true =>
      refine .nothing (.error (.invalidState live.run.phase .checkpoint)) settled
        (.bind_error (requireLive_yields_error _ _ complete)) (fun point => ?_) rfl
      cases point
  | false =>
      obtain ⟨after, image', done, performs⟩ := takeCheckpoint_taken settled complete blob
      exact ⟨.ok (), after, image', done, performs⟩

end Operations
end DurableRuns
