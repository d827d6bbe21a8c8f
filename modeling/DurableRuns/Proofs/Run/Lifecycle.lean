/-
# DurableRuns.Proofs.Run.Lifecycle -- phase, record and release go together

Where a run stands is told twice: by its phase and by its record.  `Phase.Agrees` lists the four
ways in which they go together; every deed keeps to them, whatever fails in it.  In the midst of
a deed the phase may differ from the record, but no record is ever written that tells a result of
a run that has not ended, or none of one that has (`Attests`).

The host is told to let go of a run by the deed that ends it, once, and by no other
(`LetsGo.released_eq`).  After that every deed leaves the run and the disk as they are
(`Deed.carryOut_of_ended`).
-/
import DurableRuns.Proofs.Run.Told

namespace DurableRuns

set_option autoImplicit false

open NodeStore (directoryName batchFileName nodeFile)
open Run RunM

/-! ## What goes together -/

/-- A phase, and the status and the result that the record tells meanwhile. -/
inductive Phase.Agrees : Phase → RecordStatus → RunResult → Prop
  | running : Agrees .running .running .pending
  | resuming : Agrees .resuming .running .pending
  | paused : Agrees .paused .paused .pending
  | ended {result : RunResult} (known : result ≠ .pending) :
      Agrees (.complete result) .complete result

/-- The record tells a result exactly if it tells that the run has ended. -/
def Record.Agrees (record : Record) : Prop := record.status = .complete ↔ record.result ≠ .pending

instance (record : Record) : Decidable record.Agrees :=
  inferInstanceAs (Decidable (record.status = .complete ↔ record.result ≠ .pending))

/-- The phase of a run agrees with its record. -/
def Run.Agrees (run : Run) : Prop := run.phase.Agrees run.record.status run.record.result

theorem Run.agrees_iff {run : Run} : run.Agrees ↔ run.IsTold ∧ run.record.Agrees := by
  rw [Run.Agrees, IsTold, Record.Agrees]
  generalize run.phase = phase, run.record.status = status, run.record.result = result
  constructor
  · rintro (_ | _ | _ | known)
    · exact ⟨.inl rfl, by simp⟩
    · exact ⟨.inr rfl, by simp⟩
    · exact ⟨rfl, by simp⟩
    · exact ⟨rfl, by simpa using known⟩
  · rintro ⟨told, agrees⟩
    cases status with
    | running =>
        obtain rfl : result = .pending := by simpa using agrees
        rcases told with rfl | rfl
        · exact .running
        · exact .resuming
    | paused =>
        obtain rfl : result = .pending := by simpa using agrees
        obtain rfl : phase = .paused := told
        exact .paused
    | complete =>
        obtain rfl : phase = .complete result := told
        exact .ended (agrees.1 rfl)

/-- While a run goes on no result is told. -/
theorem Run.Agrees.result_eq {run : Run} (agrees : run.Agrees)
    (going : run.phase.isComplete = false) : run.record.result = .pending := by
  rw [Run.Agrees] at agrees
  revert agrees going
  generalize run.phase = phase, run.record.status = status, run.record.result = result
  rintro (_ | _ | _ | known) going
  · rfl
  · rfl
  · rfl
  · cases going

/-! ## What is written -/

/-- If a change writes the record of a run, it writes one that agrees. -/
def Change.WritesAgreeing (place : Place) (change : Change) : Prop :=
  ∀ content atomic, change = .write (RunFiles.recordFile place).path content atomic →
    ∃ record : Record, content = record.toJson.pretty ∧ record.Agrees

theorem Change.writesAgreeing_of_ne {place : Place} {path : Path} {content : Bytes} {atomic : Bool}
    (other : (RunFiles.recordFile place).path ≠ path) :
    WritesAgreeing place (.write path content atomic) := by
  intro _ _ same
  cases same
  exact absurd rfl other

/-- What of a run bears on its lifecycle. -/
structure Course where
  place : Place
  hint : Hint
  store : NodeStore
  runId : String
  hasEnded : Bool
  isResuming : Bool
  status : RecordStatus
  result : RunResult

/-- What of a run bears on its lifecycle. -/
def Run.course (run : Run) : Course :=
  { place := run.place, hint := run.hint, store := run.store, runId := run.runId
    hasEnded := run.phase.isComplete, isResuming := run.phase = .resuming
    status := run.record.status, result := run.record.result }

/-- From one run to the other only records were written that agree, and its program was not
reinstalled, unless the run may be handed over. -/
structure Attests (handing : Prop) (live after : LiveRun) : Prop where
  place_eq : after.run.place = live.run.place
  runId_eq : after.run.runId = live.run.runId
  placed : live.standing.IsPlaced → after.standing.IsPlaced
  agrees : live.run.record.Agrees → after.run.record.Agrees
  resumes : after.run.phase = .resuming → handing ∨ live.run.phase = .resuming
  writes : live.standing.IsPlaced → live.run.record.Agrees →
    ∃ changes, after.machine.log = live.machine.log ++ changes ∧
      live.machine.disk.replay changes = .ok after.machine.disk ∧
      ∀ change ∈ changes, change.WritesAgreeing live.run.place

/-- Moreover the run has not ended in between, and the host was told nothing. -/
structure GoesOn (handing : Prop) (live after : LiveRun) : Prop extends
    Attests handing live after where
  ended_eq : after.run.phase.isComplete = live.run.phase.isComplete
  released_eq : after.machine.released = live.machine.released

/-- The runs that the host is told to let go of: the run, if it has ended in between. -/
def LiveRun.letGo (live after : LiveRun) : List String :=
  if live.run.phase.isComplete = false ∧ after.run.phase.isComplete = true then [live.run.runId]
  else []

/-- Moreover the host was told to let go of the run if it has ended in between, and else nothing. -/
structure LetsGo (handing : Prop) (live after : LiveRun) : Prop extends
    Attests handing live after where
  stays : live.run.phase.isComplete = true → after.run.phase.isComplete = true
  released_eq : after.machine.released = live.machine.released ++ live.letGo after

section Lifecycle

variable {handing : Prop} {live between after : LiveRun}

theorem Attests.trans (first : Attests handing live between)
    (second : Attests handing between after) : Attests handing live after := by
  constructor
  case place_eq => exact second.place_eq.trans first.place_eq
  case runId_eq => exact second.runId_eq.trans first.runId_eq
  case placed => exact fun placed => second.placed (first.placed placed)
  case agrees => exact fun agrees => second.agrees (first.agrees agrees)
  case resumes => exact fun resuming => (second.resumes resuming).elim .inl first.resumes
  case writes =>
    intro placed agrees
    obtain ⟨early, earlyLog, earlyDisk, earlyAgrees⟩ := first.writes placed agrees
    obtain ⟨late, lateLog, lateDisk, lateAgrees⟩ :=
      second.writes (first.placed placed) (first.agrees agrees)
    refine ⟨early ++ late, by rw [lateLog, earlyLog, List.append_assoc], ?_, ?_⟩
    · rw [Disk.replay_append, earlyDisk]
      exact lateDisk
    · intro change inside
      rcases List.mem_append.1 inside with before | later
      · exact earlyAgrees change before
      · exact first.place_eq ▸ lateAgrees change later

/-- The phase of a run may change beside its record. -/
theorem Attests.of_phase {phase : Phase}
    (resumes : phase = .resuming → handing ∨ live.run.phase = .resuming) :
    Attests handing live { live with run := { live.run with phase } } where
  place_eq := rfl
  runId_eq := rfl
  placed := id
  agrees := id
  resumes := resumes
  writes := fun _ _ => ⟨[], by simp, rfl, by simp⟩

namespace GoesOn

/-- Nothing that matters was changed. -/
theorem of_same (same : after.run.course = live.run.course)
    (log : after.machine.log = live.machine.log) (disk : after.machine.disk = live.machine.disk)
    (released : after.machine.released = live.machine.released) : GoesOn handing live after := by
  simp only [Run.course, Course.mk.injEq, decide_eq_decide] at same
  obtain ⟨place, hint, store, runId, ended, resuming, status, result⟩ := same
  constructor
  case ended_eq => exact ended
  case released_eq => exact released
  constructor
  case place_eq => exact place
  case runId_eq => exact runId
  case placed => simp [Standing.IsPlaced, LiveRun.standing, place, hint, store]
  case agrees => simp [Record.Agrees, status, result]
  case resumes => exact fun now => .inr (resuming.1 now)
  case writes => exact fun _ _ => ⟨[], by simp [log], by rw [disk]; rfl, by simp⟩

theorem refl (live : LiveRun) : GoesOn handing live live := .of_same rfl rfl rfl rfl

/-- The run is changed in memory only, and nothing that matters of it. -/
theorem of_run {run : Run} (same : run.course = live.run.course) :
    GoesOn handing live { live with run } := .of_same same rfl rfl rfl

/-- A change of the phase and the record of a run that goes on, to a record that agrees. -/
theorem of_record {phase : Phase} {record : Record}
    (ended : phase.isComplete = live.run.phase.isComplete)
    (resumes : phase = .resuming → handing ∨ live.run.phase = .resuming) (agrees : record.Agrees) :
    GoesOn handing live { live with run := { live.run with phase, record } } :=
  { (refl live : GoesOn handing live live) with
    agrees := fun _ => agrees
    resumes := resumes
    ended_eq := ended }

theorem trans (first : GoesOn handing live between) (second : GoesOn handing between after) :
    GoesOn handing live after :=
  ⟨first.toAttests.trans second.toAttests, second.ended_eq.trans first.ended_eq,
    second.released_eq.trans first.released_eq⟩

theorem letsGo (goesOn : GoesOn handing live after) : LetsGo handing live after := by
  refine ⟨goesOn.toAttests, goesOn.ended_eq.trans, ?_⟩
  rw [LiveRun.letGo, goesOn.ended_eq, if_neg (by simp), goesOn.released_eq, List.append_nil]

end GoesOn

/-- What ended stays so, and the host is told of it once. -/
theorem LetsGo.trans (first : LetsGo handing live between) (second : LetsGo handing between after) :
    LetsGo handing live after := by
  refine ⟨first.toAttests.trans second.toAttests, fun ended => second.stays (first.stays ended), ?_⟩
  rw [second.released_eq, first.released_eq, List.append_assoc]
  congr 1
  have stays := first.stays
  have staysNow := second.stays
  simp only [LiveRun.letGo, first.runId_eq]
  revert stays staysNow
  cases live.run.phase.isComplete <;> cases between.run.phase.isComplete <;>
    cases after.run.phase.isComplete <;> simp

theorem LetsGo.mono {weaker : Prop} (implied : handing → weaker)
    (letsGo : LetsGo handing live after) : LetsGo weaker live after :=
  { letsGo with resumes := fun resuming => (letsGo.resumes resuming).imp implied id }

/-! ## Steps that write -/

/-- A run goes on over a step, be it that the step fails. -/
abbrev KeepsOn (handing : Prop) {α : Type} (step : RunM α) : Prop :=
  Leads (GoesOn handing) step

namespace KeepsOn

variable {α β : Type}

theorem pure (value : α) : KeepsOn handing (Pure.pure value : RunM α) :=
  fun live => .pure (.refl live)

theorem throw (error : Error) : KeepsOn handing (MonadExcept.throw error : RunM α) :=
  fun live => .throw (.refl live)

theorem current : KeepsOn handing RunM.current := fun live => .current (.refl live)

theorem get : KeepsOn handing (MonadState.get : RunM LiveRun) := fun live => .get (.refl live)

theorem update {change : Run → Run} (same : ∀ run, (change run).course = run.course) :
    KeepsOn handing (RunM.update change) := fun live => .update (.of_run (same live.run))

theorem bind {step : RunM α} {next : α → RunM β} (first : KeepsOn handing step)
    (second : ∀ value, KeepsOn handing (next value)) : KeepsOn handing (step >>= next) :=
  Leads.bind (fun earlier later => earlier.trans later) first second

theorem catches : Catches (KeepsOn handing) :=
  Leads.catches .refl (fun earlier later => earlier.trans later) fun _ _ => .of_run rfl

end KeepsOn

namespace Run

/-- A change of the disk is made, or it is refused. -/
theorem commit_keepsOn {change : Change} {toError : DiskFault → Error}
    (agrees : live.standing.IsPlaced → live.run.record.Agrees →
      change.WritesAgreeing live.run.place) :
    EndsIn (onMachine (Machine.commit change toError)) live fun after =>
      after.run = live.run ∧ GoesOn handing live after := by
  refine .commit (fun disk made => ⟨rfl, ?_⟩) fun fault => ⟨rfl, .of_same rfl rfl rfl rfl⟩
  exact { (GoesOn.refl live : GoesOn handing live live) with
    writes := fun placed before =>
      ⟨[change], rfl, Disk.replay_singleton made, by simpa using agrees placed before⟩ }

theorem stampRecord_keepsOn (flag : CleanFlag) : KeepsOn handing (stampRecord flag) := by
  intro live
  let told : LiveRun := { live with run := { live.run with
    record := { live.run.record with clean := flag, updatedAt := live.machine.now } } }
  have telling : GoesOn handing live told := .of_run rfl
  refine .bind (.get (.bind (.update (.bind (.current (.bind ?_))))))
  have writes : EndsIn (onMachine
      (RunFiles.writeRecord told.run.place told.run.record told.run.hint.writesAtomically)) told
      fun after => after.run = told.run ∧ GoesOn handing told after := by
    refine commit_keepsOn fun _ agrees content atomic same => ?_
    cases same
    exact ⟨_, rfl, agrees⟩
  refine writes.mono ?_ fun _ _ written => telling.trans written.2
  exact fun _ _ ⟨_, written⟩ => .update (telling.trans (written.trans (.of_run rfl)))

theorem markDirty_keepsOn : KeepsOn handing markDirty :=
  KeepsOn.catches.markDirty (stampRecord_keepsOn .dirty)

theorem markClean_keepsOn : KeepsOn handing markClean :=
  .bind .current fun _ => .bind (.update fun _ => rfl) fun _ => stampRecord_keepsOn _

theorem writeCheckpoint_keepsOn : KeepsOn handing writeCheckpoint := by
  intro live
  refine .bind (.current ?_)
  cases live.run.checkpoint with
  | none => exact .pure (.refl live)
  | some checkpoint =>
      refine .bind ((commit_keepsOn fun _ _ => Change.writesAgreeing_of_ne
        (RunFiles.recordFile_ne_checkpointFile _)).mono ?_ fun _ _ written => written.2)
      exact fun _ _ ⟨_, written⟩ => .update (written.trans (.of_run rfl))

/-- The store of a run is replaced by one at the same place. -/
theorem storing_keepsOn {store : NodeStore} (same : between.run = live.run)
    (goesOn : GoesOn handing live between)
    (placed : live.standing.IsPlaced → Standing.IsPlaced { live.standing with store }) :
    GoesOn handing live { between with run := { between.run with store } } := by
  refine goesOn.trans { GoesOn.refl between with placed := fun placedNow => ?_ }
  have before : live.standing.IsPlaced := by
    simpa only [Standing.IsPlaced, LiveRun.standing, same] using placedNow
  simpa only [Standing.IsPlaced, LiveRun.standing, same] using placed before

theorem writesBeside_goesOn : WritesBeside (GoesOn handing) (GoesOn handing) where
  still := .refl
  writes other := (commit_keepsOn fun placed _ =>
    Change.writesAgreeing_of_ne (other placed)).mono (fun _ _ => id) fun _ _ written => written.2
  stores := storing_keepsOn

theorem storeNode_keepsOn (node : Node) : KeepsOn handing (storeNode node) :=
  fun _ => writesBeside_goesOn.storeNode node

theorem storeStep_keepsOn (node : Node) : KeepsOn handing (storeStep node) :=
  KeepsOn.catches.storeStep storeNode_keepsOn node

theorem flushStore_keepsOn : KeepsOn handing flushStore := fun _ => writesBeside_goesOn.flushStore

theorem removeCheckpoint_keepsOn :
    KeepsOn handing (do onMachine (RunFiles.removeCheckpoint (← current).place)) := by
  intro live
  refine .bind (.current (.onMachine_bind (.onMachine_get ?_)))
  dsimp only
  split
  · exact .onMachine_pure (.refl live)
  · refine (commit_keepsOn fun _ _ => ?_).mono (fun _ _ written => written.2)
      fun _ _ written => written.2
    intro content atomic same
    cases same

/-! ## Safe points and the end -/

theorem reachSafePoint_keepsOn : KeepsOn handing reachSafePoint :=
  KeepsOn.catches.reachSafePoint flushStore_keepsOn writeCheckpoint_keepsOn markClean_keepsOn

/-- The record of an ended run is written after all else. -/
theorem persistEnd_keepsOn (nodes : List Node) {result : RunResult} (known : result ≠ .pending) :
    KeepsOn handing (persistEnd nodes result) := by
  have stores : KeepsOn handing (nodes.forM storeStep) :=
    KeepsOn.catches.forM fun node _ => storeStep_keepsOn node
  have ending : KeepsOn handing (update fun run =>
      { run with record := { run.record with status := .complete, result } }) :=
    fun live => .update (.of_record rfl .inr ⟨fun _ => known, fun _ => rfl⟩)
  exact .bind markDirty_keepsOn fun _ => .bind stores fun _ => .bind flushStore_keepsOn fun _ =>
    .bind ending fun _ => .bind markClean_keepsOn fun _ => removeCheckpoint_keepsOn

/-- A run that goes on is ended, and the host is told to let go of it. -/
theorem conclude_letsGo (nodes : List Node) {result : RunResult} (known : result ≠ .pending)
    (going : live.run.phase.isComplete = false) :
    EndsIn (conclude nodes result) live (LetsGo handing live) := by
  have written : KeepsOn handing (noted (persistEnd nodes result)) :=
    KeepsOn.catches.noted (persistEnd_keepsOn nodes known)
  refine .bind ((written live).mono ?_ ?_)
  · intro _ written goesOn
    refine .bind (.update ?_)
    show LetsGo handing live _
    constructor
    case toAttests =>
      exact goesOn.toAttests.trans ⟨rfl, rfl, id, fun _ => ⟨fun _ => known, fun _ => rfl⟩, nofun,
        fun _ _ => ⟨[], by simp, rfl, by simp⟩⟩
    case stays => exact fun _ => rfl
    case released_eq =>
      rw [LiveRun.letGo, if_pos ⟨going, rfl⟩, ← goesOn.released_eq, ← goesOn.runId_eq]
  · exact fun _ _ goesOn => goesOn.letsGo

theorem endAsFailed_letsGo (reason : String) (going : live.run.phase.isComplete = false) :
    EndsIn (endAsFailed reason) live (LetsGo handing live) := by
  refine .bind (.current (.bind (.update ?_)))
  let repaired : LiveRun := { live with run := { live.run with
    graph := ((RepairPlan.make live.run.graph reason).apply live.run.graph).1 } }
  have repairing : GoesOn handing live repaired := .of_run rfl
  have known : RunResult.failure ≠ .pending := by simp
  exact (conclude_letsGo _ known (repairing.ended_eq.trans going)).mono
    (fun _ _ => repairing.letsGo.trans) fun _ _ => repairing.letsGo.trans

/-! ## Operations -/

theorem grow_keepsOn (kind : NodeKind) (parents : List Nat) (name : String)
    (actions : List Action) : KeepsOn handing (grow kind parents name actions) := by
  rw [grow_eq]
  refine .bind .get fun live => ?_
  split
  · exact .throw _
  · exact .bind (.update fun _ => rfl) fun _ => .pure _

/-- A node is appended and the run goes on, or it may have been ended. -/
theorem growOrClose_letsGo (kind : NodeKind) (parents : List Nat) (name : String)
    (actions : List Action) (going : live.run.phase.isComplete = false) :
    Ends (growOrClose kind parents name actions) live (fun _ => GoesOn handing live)
      fun _ => LetsGo handing live := by
  have grows : KeepsOn handing (grow kind parents name actions) :=
    grow_keepsOn kind parents name actions
  refine .bind (.attempt ((grows live).mono ?_ ?_))
  · exact fun _ _ goesOn => .pure goesOn
  · intro error refused goesOn
    dsimp only
    split
    · have ends : EndsIn (endAsFailed error.message) refused (LetsGo handing refused) :=
        endAsFailed_letsGo _ (goesOn.ended_eq.trans going)
      refine .bind (ends.mono (fun _ _ ended => .throw (goesOn.letsGo.trans ended)) ?_)
      exact fun _ _ => goesOn.letsGo.trans
    · exact .throw goesOn.letsGo

theorem wrapUp_keepsOn (node : Node) (point : Bool) : KeepsOn handing (wrapUp node point) :=
  KeepsOn.catches.wrapUp reachSafePoint_keepsOn markClean_keepsOn node point

theorem append_letsGo (draft : NodeDraft) (live : LiveRun) :
    EndsIn (append draft) live (LetsGo handing live) := by
  have still : LetsGo handing live live := (GoesOn.refl live).letsGo
  refine .append (fun _ => still) (fun _ => still) fun going _ => ?_
  refine (growOrClose_letsGo _ _ _ _ going).mono ?_ fun _ _ => id
  intro node grown goesOn
  have stores : KeepsOn handing (storing node (storeStep node)
      (wrapUp node node.kind.closes.isSome)) :=
    KeepsOn.catches.storing node markDirty_keepsOn (storeStep_keepsOn node) (wrapUp_keepsOn node _)
  exact (stores grown).mono (fun _ _ later => (goesOn.trans later).letsGo)
    fun _ _ later => (goesOn.trans later).letsGo

theorem attach_keepsOn (id : Nat) (action : Action) : KeepsOn handing (attach id action) :=
  KeepsOn.catches.attach (fun _ => .update fun _ => rfl) fun node =>
    KeepsOn.catches.storing node markDirty_keepsOn (storeNode_keepsOn node)
      (.bind .current fun run => wrapUp_keepsOn node run.phase.holdsAppends)

theorem takeCheckpoint_keepsOn (blob : Bytes) : KeepsOn handing (takeCheckpoint blob) := by
  have held : KeepsOn handing heldCheckpoint :=
    KeepsOn.catches.heldCheckpoint markDirty_keepsOn reachSafePoint_keepsOn
  have prompt : KeepsOn handing promptCheckpoint :=
    KeepsOn.catches.promptCheckpoint markDirty_keepsOn writeCheckpoint_keepsOn markClean_keepsOn
  intro live
  have taken : GoesOn handing live { live with run := live.run.holding blob live.machine.now } :=
    .of_run rfl
  refine .takeCheckpoint (fun _ => .refl live) (fun _ _ => ?_) (fun _ _ => ?_) fun _ => taken
  · exact (held _).mono (fun _ _ => taken.trans) fun _ _ => taken.trans
  · exact (prompt _).mono (fun _ _ => taken.trans) fun _ _ => taken.trans

theorem flush_keepsOn : KeepsOn handing flush := KeepsOn.catches.flush reachSafePoint_keepsOn

theorem shutdown_keepsOn : KeepsOn handing shutdown :=
  KeepsOn.catches.shutdown reachSafePoint_keepsOn

/-- A run that tells no result is paused, or goes on as it was. -/
theorem pausing_goesOn (going : live.run.phase.isComplete = false)
    (pending : live.run.record.result = .pending) : EndsIn pausing live (GoesOn handing live) := by
  let held : LiveRun := { live with run := { live.run with
    phase := .pausing, record := { live.run.record with status := .paused } } }
  have holding : GoesOn handing live held :=
    .of_record going.symm (by simp) (by simp [Record.Agrees, pending])
  have reaching : KeepsOn handing reachSafePoint := reachSafePoint_keepsOn
  refine .bind (.update (.bind (.attempt (((reaching held).and (reachSafePoint_spares held)).mono
    ?_ ?_))))
  · rintro _ after ⟨goesOn, same⟩
    have phase : after.run.phase = .pausing := congrArg Snapshot.phase same
    refine .update (holding.trans (goesOn.trans (.of_run ?_)))
    simp [course, phase, Phase.isComplete]
  · rintro error after ⟨goesOn, same⟩
    have phase : after.run.phase = .pausing := congrArg Snapshot.phase same
    have result : after.run.record.result = .pending :=
      (congrArg Snapshot.result same).trans pending
    let released : LiveRun := { after with run := { after.run with
      phase := .running, record := { after.run.record with status := .running } } }
    have releasing : GoesOn handing after released :=
      .of_record (by simp [phase, Phase.isComplete]) (by simp) (by simp [Record.Agrees, result])
    have noting : KeepsOn handing (noteFault error) := KeepsOn.catches.noteFault error
    refine .bind (.update (.bind ((noting released).mono ?_ ?_)))
    · exact fun _ _ noted => .throw (holding.trans (goesOn.trans (releasing.trans noted)))
    · exact fun _ _ noted => holding.trans (goesOn.trans (releasing.trans noted))

theorem pause_goesOn (agrees : live.run.Agrees) : EndsIn pause live (GoesOn handing live) :=
  .pause (fun _ => .refl live) (fun _ => .refl live) fun going _ =>
    pausing_goesOn going (agrees.result_eq going)

/-- A run that tells no result goes on. -/
theorem unpausing_goesOn (flag : CleanFlag) (going : live.run.phase.isComplete = false)
    (pending : live.run.record.result = .pending) :
    EndsIn (unpausing flag) live (GoesOn handing live) := by
  let freed : LiveRun := { live with run := { live.run with
    record := { live.run.record with status := .running } } }
  have freeing : GoesOn handing live freed := .of_record rfl .inr (by simp [Record.Agrees, pending])
  have telling : KeepsOn handing (noted (stampRecord flag)) :=
    KeepsOn.catches.noted (stampRecord_keepsOn flag)
  refine .bind (.update (.bind ((telling freed).mono ?_ ?_)))
  · intro _ after goesOn
    have ended : after.run.phase.isComplete = false := goesOn.ended_eq.trans going
    exact .update (freeing.trans (goesOn.trans ⟨.of_phase nofun, ended.symm, rfl⟩))
  · exact fun _ _ goesOn => freeing.trans goesOn

theorem unpause_goesOn (agrees : live.run.Agrees) : EndsIn unpause live (GoesOn handing live) :=
  .unpause (fun _ => .refl live) (fun _ => .refl live) fun going _ =>
    unpausing_goesOn _ going (agrees.result_eq going)

theorem finish_letsGo (outcome : Outcome) (live : LiveRun) :
    EndsIn (finish outcome) live (LetsGo handing live) := by
  refine .requireLive (fun _ => (GoesOn.refl live).letsGo) fun going => .bind (.current ?_)
  refine .bind ((growOrClose_letsGo _ _ _ _ going).mono ?_ fun _ _ => id)
  intro node grown goesOn
  have known : outcome.result ≠ .pending := by cases outcome <;> simp [Outcome.result]
  have ends : EndsIn (conclude [node] outcome.result) grown (LetsGo handing grown) :=
    conclude_letsGo [node] known (goesOn.ended_eq.trans going)
  refine .bind (ends.mono ?_ ?_)
  · exact fun _ _ ended => .pure (goesOn.letsGo.trans ended)
  · exact fun _ _ => goesOn.letsGo.trans

theorem fail_letsGo (reason : String) (live : LiveRun) :
    EndsIn (fail reason) live (LetsGo handing live) :=
  .fail (fun _ => (GoesOn.refl live).letsGo) fun going => endAsFailed_letsGo reason going

/-- A run is handed over. -/
theorem enterResuming_keepsOn (may : handing) : KeepsOn handing enterResuming := fun live =>
  .enterResuming
    (fun running => ⟨.of_phase fun _ => .inl may, by simp [running, Phase.isComplete], rfl⟩)
    (.refl live)

theorem leaveResuming_keepsOn : KeepsOn handing leaveResuming := fun live =>
  .leaveResuming (fun resuming => ⟨.of_phase nofun, by simp [resuming, Phase.isComplete], rfl⟩)
    (.refl live)

end Run

/-- A deed ends a run or it goes on, and the host is told accordingly. -/
theorem Deed.carryOut_letsGo {deed : Deed} (may : deed = .enterResuming → handing)
    (agrees : live.run.Agrees) : EndsIn deed.carryOut live (LetsGo handing live) := by
  have going {α : Type} {step : RunM α} (goes : EndsIn step live (GoesOn handing live)) :
      EndsIn step live (LetsGo handing live) :=
    goes.mono (fun _ _ goesOn => goesOn.letsGo) fun _ _ goesOn => goesOn.letsGo
  have replying {α : Type} {step : RunM α} (reply : α → Reply)
      (ends : EndsIn step live (LetsGo handing live)) :
      EndsIn (do return reply (← step)) live (LetsGo handing live) := Command.reply_ends ends
  cases deed with
  | fail reason => exact fail_letsGo reason live
  | enterResuming => exact going (enterResuming_keepsOn (may rfl) live)
  | leaveResuming => exact going (leaveResuming_keepsOn live)
  | command given =>
      refine .bind (.mono ?_ (fun _ _ letsGo => .pure letsGo) fun _ _ => id)
      refine .bind (.current ?_)
      split
      · exact .pure (GoesOn.refl live).letsGo
      · cases given with
        | append draft => exact replying .node (append_letsGo draft live)
        | finish outcome => exact replying .node (finish_letsGo outcome live)
        | attach id action => exact replying .node (going (attach_keepsOn id action live))
        | checkpoint blob =>
            exact replying (fun _ => .done) (going (takeCheckpoint_keepsOn blob live))
        | flush => exact replying (fun _ => .done) (going (flush_keepsOn live))
        | pause => exact replying (fun _ => .done) (going (pause_goesOn agrees))
        | unpause => exact replying (fun _ => .done) (going (unpause_goesOn agrees))
        | shutdown => exact replying (fun _ => .done) (going (shutdown_keepsOn live))
        | look => exact replying .seen (going (.current (.refl live)))

/-- Nothing is done to a run that has ended. -/
theorem Deed.carryOut_of_ended (deed : Deed) (ended : live.run.phase.isComplete = true) :
    EndsIn deed.carryOut live fun after => after = live := by
  obtain ⟨result, phase⟩ : ∃ result, live.run.phase = .complete result := by
    revert ended
    cases live.run.phase <;> simp [Phase.isComplete]
  have goes (going : live.run.phase.isComplete = false) : False := by
    cases ended.symm.trans going
  have refused {α : Type} {operation : Operation} {rest : RunM α} :
      EndsIn (do requireLive operation; rest) live fun after => after = live :=
    .requireLive (fun _ => rfl) fun going => (goes going).elim
  have replying {α : Type} {step : RunM α} (reply : α → Reply)
      (ends : EndsIn step live fun after => after = live) :
      EndsIn (do return reply (← step)) live fun after => after = live := Command.reply_ends ends
  cases deed with
  | fail reason => exact .fail (fun _ => rfl) fun going => (goes going).elim
  | enterResuming => exact .enterResuming (fun running => by cases phase.symm.trans running) rfl
  | leaveResuming => exact .leaveResuming (fun resuming => by cases phase.symm.trans resuming) rfl
  | command given =>
      refine .bind (.mono ?_ (fun _ _ same => .pure same) fun _ _ => id)
      refine .bind (.current ?_)
      split
      · exact .pure rfl
      · cases given with
        | append draft =>
            exact replying .node (.append (fun _ => rfl) (fun _ => rfl) fun going _ =>
              (goes going).elim)
        | finish outcome => exact replying .node refused
        | attach id action => exact replying .node refused
        | checkpoint blob => exact replying (fun _ => .done) refused
        | flush => exact replying (fun _ => .done) refused
        | pause =>
            exact replying (fun _ => .done) (.pause (fun _ => rfl) (fun _ => rfl) fun going _ =>
              (goes going).elim)
        | unpause =>
            exact replying (fun _ => .done) (.unpause (fun _ => rfl) (fun _ => rfl) fun going _ =>
              (goes going).elim)
        | shutdown =>
            exact replying (fun _ => .done) (.shutdown (fun _ => rfl) fun going =>
              (goes going).elim)
        | look => exact .bind (.current (.pure rfl))

/-! ## Deeds one after the other -/

namespace LiveRun

/-- A deed leaves the phase in agreement with the record, and lets go of a run that it ends. -/
theorem afterDeed_letsGo (deed : Deed) (may : deed = .enterResuming → handing)
    (agrees : live.run.Agrees) (now : Instant) :
    LetsGo handing live (live.afterDeed now deed) ∧ (live.afterDeed now deed).run.Agrees := by
  have timely : GoesOn handing live (live.atTime now) := .of_same rfl rfl rfl rfl
  have agreesThen : (live.atTime now).run.Agrees := agrees
  have ends := afterDeed_of_ends (Deed.carryOut_letsGo may agreesThen)
  have told := afterDeeds_isTold (Run.agrees_iff.1 agrees).1 [(now, deed)]
  have letsGo := timely.letsGo.trans ends
  exact ⟨letsGo, Run.agrees_iff.2 ⟨told, letsGo.agrees (Run.agrees_iff.1 agrees).2⟩⟩

/-- So do any number of deeds. -/
theorem afterDeeds_letsGo (agrees : live.run.Agrees) (deeds : List (Instant × Deed)) :
    LetsGo True live (live.afterDeeds deeds) ∧ (live.afterDeeds deeds).run.Agrees := by
  induction deeds using List.reverseRecOn with
  | nil => exact ⟨(GoesOn.refl live).letsGo, agrees⟩
  | append_singleton deeds given ih =>
      rw [afterDeeds_concat]
      obtain ⟨letsGo, agreesNow⟩ := afterDeed_letsGo given.2 (fun _ => True.intro) ih.2 given.1
      exact ⟨ih.1.trans letsGo, agreesNow⟩

/-- A run that has ended is left as it is, and so is the machine. -/
theorem afterDeed_of_ended (ended : live.run.phase.isComplete = true) (now : Instant)
    (deed : Deed) : live.afterDeed now deed = live.atTime now := by
  have still : EndsIn deed.carryOut (live.atTime now) fun after => after = live.atTime now :=
    deed.carryOut_of_ended ended
  exact afterDeed_of_ends still

end LiveRun
end Lifecycle
end DurableRuns
