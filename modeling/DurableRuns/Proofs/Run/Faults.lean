/-
# DurableRuns.Proofs.Run.Faults -- what becomes of a write that failed

A run remembers the first write that failed, and after that it writes its record only as dirty
-- all but the end of a pause, which writes the flag that was last written, be it clean.  So
from a failure that is noted while the record on disk is not clean, it never is again.

Not every failure is noted.  An operation *notes* failures if a write that fails is remembered,
whatever the operation comes to; it *tells* them if it may also fail itself with one and leave it at
that.  All operations note them but three: a flush and a shutdown, for any write, and a checkpoint,
for the clean record that it writes last (`clean_only_by_what_was_missed`).
-/
import DurableRuns.Proofs.Disk.Tree
import DurableRuns.Proofs.Run.Memory

namespace DurableRuns

set_option autoImplicit false

open NodeStore (directoryName batchFileName nodeFile)
open Run RunM

/-! ## Deeds -/

/-- Anything that is done to a live run: a command is given, it is closed as failed, or its
program is reinstalled. -/
inductive Deed where
  | command (command : Command)
  | fail (reason : String)
  | enterResuming
  | leaveResuming

/-- Does it. -/
def Deed.carryOut : Deed → RunM Unit
  | .command given => do let _ ← given.perform
  | .fail reason => Run.fail reason
  | .enterResuming => Run.enterResuming
  | .leaveResuming => Run.leaveResuming

/-- The changes that a deed may miss without a note of it: any that a flush or a shutdown makes,
and the clean record that a checkpoint writes. -/
def Deed.Excuses : Deed → Place → Change → Prop
  | .command .flush, _, _ | .command .shutdown, _, _ => True
  | .command (.checkpoint _), place, change => change.Stamps place .clean
  | _, _, _ => False

namespace LiveRun

/-- What is left of a run after a deed at a point in time, whatever it came to. -/
def afterDeed (live : LiveRun) (now : Instant) (deed : Deed) : LiveRun :=
  match attempt deed.carryOut (live.atTime now) with
  | .ok _ left => left
  | .error _ left => left

/-- What is left of a run after deeds, each at a point in time. -/
def afterDeeds (live : LiveRun) (deeds : List (Instant × Deed)) : LiveRun :=
  deeds.foldl (fun live given => live.afterDeed given.1 given.2) live

theorem afterDeeds_concat (live : LiveRun) (deeds : List (Instant × Deed))
    (given : Instant × Deed) :
    live.afterDeeds (deeds ++ [given]) = (live.afterDeeds deeds).afterDeed given.1 given.2 := by
  rw [afterDeeds, List.foldl_append]
  rfl

/-- What holds of all that a deed may leave holds of what it leaves. -/
theorem afterDeed_of_ends {live : LiveRun} {now : Instant} {deed : Deed} {meets : LiveRun → Prop}
    (ends : EndsIn deed.carryOut (live.atTime now) meets) : meets (live.afterDeed now deed) := by
  obtain ⟨outcome, left, done⟩ := attempt_returns deed.carryOut (live.atTime now)
  rw [afterDeed, done]
  exact ends.of_attempt done

/-- What each of a row of deeds keeps holds of what they leave. -/
theorem afterDeeds_of_kept {live : LiveRun} {deeds : List (Instant × Deed)}
    {meets : LiveRun → Prop} (first : meets live)
    (kept : ∀ given ∈ deeds, ∀ between, meets between →
      EndsIn given.2.carryOut (between.atTime given.1) meets) : meets (live.afterDeeds deeds) := by
  induction deeds generalizing live with
  | nil => exact first
  | cons given rest ih =>
      obtain ⟨keeps, later⟩ := List.forall_mem_cons.1 kept
      exact ih (afterDeed_of_ends (keeps live first)) later

/-- A run as a start in a directory makes it, or as it is opened there. -/
inductive Begun (place : Place) : LiveRun → Prop
  | start {machine after : Machine} {runId : String} {asked : Option Hint} {config : Config}
      {run : Run} (started : Run.start place runId asked config machine = .ok run after) :
      Begun place { run, machine := after }
  | opened {machine : Machine} {run : Run} (opens : openAt place machine = .ok run machine) :
      Begun place { run, machine }

/-- The flag that the run remembers is the one of the record on disk. -/
def KnowsFlag (live : LiveRun) : Prop :=
  ∀ record, live.Reads record → record.clean = live.run.diskFlag

end LiveRun

/-- If a change writes the record of a run, it does not write it as clean. -/
def Change.WritesNoClean (place : Place) (change : Change) : Prop :=
  ∀ content atomic, change = .write (RunFiles.recordFile place).path content atomic →
    ∃ record : Record, content = record.toJson.pretty ∧ record.clean ≠ .clean

/-- What of a run bears on the flag of its record. -/
structure Ledger where
  place : Place
  hint : Hint
  store : NodeStore
  storageFault : Option Error
  diskFlag : CleanFlag
  /-- The flag of the record in memory. -/
  shown : CleanFlag

/-- What of a run bears on the flag of its record. -/
def Run.ledger (run : Run) : Ledger :=
  { place := run.place, hint := run.hint, store := run.store
    storageFault := run.storageFault, diskFlag := run.diskFlag, shown := run.record.clean }

/-- Once a write has failed, the record is shown as clean only where the one on disk is. -/
def Run.ShowsFlag (run : Run) : Prop :=
  run.storageFault.isSome = true → run.record.clean = .clean → run.diskFlag = .clean

/-- From one run to the other a failure was heeded: it is still remembered, and no record was
written as clean -- unless the record on disk was clean and this may pass. -/
structure Heeds (passing : Prop) (live after : LiveRun) : Prop where
  place_eq : after.run.place = live.run.place
  placed : live.standing.IsPlaced → after.standing.IsPlaced
  knows : live.standing.IsPlaced → live.KnowsFlag → after.KnowsFlag
  fault : live.run.storageFault.isSome = true → after.run.storageFault.isSome = true
  flag : live.run.storageFault.isSome = true → after.run.diskFlag = .clean →
    live.run.diskFlag = .clean
  shown : live.run.ShowsFlag → after.run.ShowsFlag
  writes : live.standing.IsPlaced → live.run.storageFault.isSome = true →
    ∃ changes, after.machine.log = live.machine.log ++ changes ∧
      ((∀ change ∈ changes, change.WritesNoClean live.run.place) ∨
        passing ∧ live.run.diskFlag = .clean)

/-- A failure was heeded, and if none is remembered then no change was missed, or one that may be
missed without a note. -/
structure Notes (passing : Prop) (excused : Place → Change → Prop) (live after : LiveRun) : Prop
    extends Heeds passing live after where
  unnoted : after.run.storageFault = none → live.run.storageFault = none ∧
    (after.machine.missed = live.machine.missed ∨
      ∃ change, excused live.run.place change ∧
        after.machine.missed = live.machine.missed ++ [change])

/-- No change may be missed without a note. -/
abbrev Unexcused : Place → Change → Prop := fun _ _ => False

/-- Any change may be missed without a note. -/
abbrev Excused : Place → Change → Prop := fun _ _ => True

section Faults

variable {passing : Prop} {excused : Place → Change → Prop} {live between after : LiveRun}

namespace Heeds

/-- Nothing that matters was changed. -/
theorem of_same (same : after.run.ledger = live.run.ledger)
    (disk : after.machine.disk = live.machine.disk)
    (log : after.machine.log = live.machine.log) : Heeds passing live after := by
  simp only [Run.ledger, Ledger.mk.injEq] at same
  obtain ⟨place, hint, store, fault, flag, shown⟩ := same
  constructor
  case place_eq => exact place
  case placed => simp [Standing.IsPlaced, LiveRun.standing, place, hint, store]
  case knows => simp [LiveRun.KnowsFlag, LiveRun.Reads, place, disk, flag]
  case fault => simp [fault]
  case flag => simp [flag]
  case shown => simp [ShowsFlag, fault, flag, shown]
  case writes => exact fun _ _ => ⟨[], by simp [log], .inl (by simp)⟩

theorem refl (live : LiveRun) : Heeds passing live live := .of_same rfl rfl rfl

theorem trans (first : Heeds passing live between) (second : Heeds passing between after) :
    Heeds passing live after := by
  constructor
  case place_eq => exact second.place_eq.trans first.place_eq
  case placed => exact fun placed => second.placed (first.placed placed)
  case knows => exact fun placed knows => second.knows (first.placed placed) (first.knows placed knows)
  case fault => exact fun fault => second.fault (first.fault fault)
  case flag => exact fun fault clean => first.flag fault (second.flag (first.fault fault) clean)
  case shown => exact fun shown => second.shown (first.shown shown)
  case writes =>
    intro placed fault
    obtain ⟨early, earlyLog, earlyClean⟩ := first.writes placed fault
    obtain ⟨late, lateLog, lateClean⟩ := second.writes (first.placed placed) (first.fault fault)
    refine ⟨early ++ late, by rw [lateLog, earlyLog, List.append_assoc], ?_⟩
    -- If the record passes later it was clean all along, so then it passes from the beginning.
    rcases earlyClean with none | passed
    · rcases lateClean with noneLater | ⟨may, clean⟩
      · left
        intro change inside
        rcases List.mem_append.1 inside with before | later
        · exact none change before
        · exact first.place_eq ▸ noneLater change later
      · exact .inr ⟨may, first.flag fault clean⟩
    · exact .inr passed

end Heeds

namespace Notes

theorem of_heeds (heeds : Heeds passing live after)
    (fault : after.run.storageFault = live.run.storageFault)
    (missed : after.machine.missed = live.machine.missed) : Notes passing excused live after :=
  ⟨heeds, fun none => ⟨fault.symm.trans none, .inl missed⟩⟩

theorem refl (live : LiveRun) : Notes passing excused live live := .of_heeds (.refl live) rfl rfl

/-- What was missed without a note after all was noted. -/
theorem trans (first : Notes passing Unexcused live between)
    (second : Notes passing excused between after) : Notes passing excused live after := by
  refine ⟨first.toHeeds.trans second.toHeeds, fun none => ?_⟩
  obtain ⟨noneBetween, late⟩ := second.unnoted none
  obtain ⟨noneBefore, early⟩ := first.unnoted noneBetween
  have same := early.resolve_right fun ⟨_, never, _⟩ => never
  rw [same, first.place_eq] at late
  exact ⟨noneBefore, late⟩

theorem mono {allowed : Place → Change → Prop} (notes : Notes passing excused live after)
    (weaker : ∀ change, excused live.run.place change → allowed live.run.place change) :
    Notes passing allowed live after :=
  ⟨notes.toHeeds, fun none => (notes.unnoted none).imp_right fun missed =>
    missed.imp_right fun ⟨change, may, same⟩ => ⟨change, weaker change may, same⟩⟩

/-- Once a failure is remembered nothing is missed without a note. -/
theorem of_fault (heeds : Heeds passing live after)
    (fault : after.run.storageFault.isSome = true) : Notes passing excused live after :=
  ⟨heeds, fun none => by simp [none] at fault⟩

end Notes

/-! ## Steps that note what fails, and steps that tell -/

/-- A step notes every write that fails, be it that the step fails. -/
abbrev NotesAll (passing : Prop) {α : Type} (step : RunM α) : Prop :=
  Leads (Notes passing Unexcused) step

/-- A step notes every write that fails, or it fails with the one that it does not note. -/
def TellsAll (passing : Prop) (excused : Place → Change → Prop) {α : Type} (step : RunM α) : Prop :=
  ∀ live, Ends step live (fun _ => Notes passing Unexcused live) fun _ => Notes passing excused live

namespace NotesAll

variable {α β : Type}

theorem tells {step : RunM α} (notes : NotesAll passing step) : TellsAll passing excused step :=
  fun live => (notes live).mono (fun _ _ => id) fun _ _ noted => noted.mono fun _ => False.elim

theorem pure (value : α) : NotesAll passing (Pure.pure value : RunM α) :=
  fun live => .pure (.refl live)

theorem throw (error : Error) : NotesAll passing (MonadExcept.throw error : RunM α) :=
  fun live => .throw (.refl live)

theorem current : NotesAll passing RunM.current := fun live => .current (.refl live)

theorem get : NotesAll passing (MonadState.get : RunM LiveRun) := fun live => .get (.refl live)

theorem bind {step : RunM α} {next : α → RunM β} (first : NotesAll passing step)
    (second : ∀ value, NotesAll passing (next value)) : NotesAll passing (step >>= next) :=
  Leads.bind (fun noted later => noted.trans later) first second

theorem attempt {step : RunM α} (notes : NotesAll passing step) :
    NotesAll passing (RunM.attempt step) := Leads.attempt notes

/-- A change of the run in memory that is none of the flag, of the store or of the failure. -/
theorem update {change : Run → Run} (same : ∀ run, (change run).ledger = run.ledger) :
    NotesAll passing (RunM.update change) := by
  intro live
  have fault : (change live.run).storageFault = live.run.storageFault :=
    congrArg Ledger.storageFault (same live.run)
  exact .update (.of_heeds (.of_same (same live.run) rfl rfl) fault rfl)

end NotesAll

namespace TellsAll

variable {α β : Type}

theorem bind {step : RunM α} {next : α → RunM β} (first : TellsAll passing excused step)
    (second : ∀ value, TellsAll passing excused (next value)) :
    TellsAll passing excused (step >>= next) := by
  intro live
  refine .bind ((first live).mono ?_ fun _ _ => id)
  intro value between noted
  exact (second value between).mono (fun _ _ => noted.trans) fun _ _ => noted.trans

theorem composes : Composes (TellsAll passing excused) where
  pure value := (NotesAll.pure value).tells
  throw error := (NotesAll.throw error).tells
  look := bind NotesAll.current.tells
  bind := bind

/-- Less may be said of what it misses. -/
theorem weaken {step : RunM α} (tells : TellsAll passing excused step) :
    TellsAll passing Excused step :=
  fun live => (tells live).mono (fun _ _ => id) fun _ _ noted => noted.mono fun _ _ => trivial

end TellsAll

theorem faulted_heeds (live : LiveRun) (error : Error) :
    Heeds passing live (Ends.faulted live error) := by
  constructor
  case place_eq => rfl
  case placed => exact id
  case knows => exact fun _ => id
  case fault => cases fault : live.run.storageFault <;> simp [Ends.faulted, fault]
  case flag => exact fun _ => id
  case shown => exact fun _ _ clean => by cases clean
  case writes => exact fun _ _ => ⟨[], by simp [Ends.faulted], .inl (by simp)⟩

theorem faulted_notes (heeds : Heeds passing live after) (error : Error) :
    Notes passing Unexcused live (Ends.faulted after error) := by
  refine .of_fault (heeds.trans (faulted_heeds after error)) ?_
  cases fault : after.run.storageFault <;> simp [Ends.faulted, fault]

theorem NotesAll.catches : Catches (NotesAll passing) :=
  Leads.catches .refl (fun noted later => noted.trans later)
    fun live error => faulted_notes (.refl live) error

namespace Run

/-- What a step tells is noted. -/
theorem noted_notes {step : RunM Unit} (tells : TellsAll passing excused step) :
    NotesAll passing (noted step) :=
  fun live => .noted ((tells live).mono (fun _ _ => id) fun error _ noted =>
    faulted_notes noted.toHeeds error)

theorem notedAndThrown_notes {step : RunM Unit} (tells : TellsAll passing excused step) :
    NotesAll passing (notedAndThrown step) :=
  fun live => .notedAndThrown ((tells live).mono (fun _ _ => id) fun error _ noted =>
    faulted_notes noted.toHeeds error)

/-- A change that leaves the record alone is made, or it is missed. -/
theorem commit_tells {change : Change} {toError : DiskFault → Error}
    (other : live.standing.IsPlaced → (RunFiles.recordFile live.run.place).path ≠ change.path) :
    Ends (onMachine (Machine.commit change toError)) live
      (fun _ after => after.run = live.run ∧ Notes passing Unexcused live after)
      fun _ => Notes passing Excused live := by
  refine .commit (fun disk made => ⟨rfl, .of_heeds ?_ rfl rfl⟩) fun fault => ?_
  · constructor
    case place_eq => rfl
    case placed => exact id
    case knows =>
      intro placed knows record reads
      refine knows record (Disk.readJson_of_apply made (fun content atomic same => ?_) reads)
      exact other placed (by rw [same]; rfl)
    case fault => exact id
    case flag => exact fun _ => id
    case shown => exact id
    case writes =>
      intro placed _
      refine ⟨[change], rfl, .inl fun written inside => ?_⟩
      obtain rfl := List.mem_singleton.1 inside
      intro content atomic same
      exact absurd (by rw [same]; rfl) (other placed)
  · exact ⟨.of_same rfl rfl rfl, fun none => ⟨none, .inr ⟨change, trivial, rfl⟩⟩⟩

/-! ## The record -/

/-- The record is written with a flag: with the clean one only while no failure is noted, or
where this may pass. -/
theorem stampRecord_tells (live : LiveRun) {flag : CleanFlag}
    (clean : live.run.storageFault.isSome = true → flag = .clean →
      passing ∧ live.run.diskFlag = .clean) :
    Ends (stampRecord flag) live (fun _ => Notes passing Unexcused live)
      fun _ => Notes passing (fun place change => change.Stamps place flag) live := by
  refine .bind (.get (.bind (.update (.bind (.current (.bind (.commit ?_ ?_)))))))
  · intro disk written
    refine .update (.of_heeds ?_ rfl rfl)
    constructor
    case place_eq => rfl
    case placed => exact id
    case knows =>
      intro _ _ record reads
      have stands := (Disk.at?_write written (RunFiles.recordFile live.run.place).path).trans
        (if_pos rfl)
      have found := Disk.of_readJson stands (Record.isReadBack_toJson _) reads
      exact (Record.told_of_ofJson? found).1
    case fault => exact id
    case flag => exact fun fault now => (clean fault now).2
    case shown => exact fun _ _ => id
    case writes =>
      intro placed fault
      refine ⟨_, rfl, ?_⟩
      by_cases isClean : flag = .clean
      · exact .inr (clean fault isClean)
      · left
        intro change inside content atomic same
        obtain rfl := List.mem_singleton.1 inside
        cases same
        exact ⟨_, rfl, isClean⟩
  · intro fault
    refine ⟨?_, fun none => ⟨none, .inr ⟨_, ⟨_, _, rfl, rfl⟩, rfl⟩⟩⟩
    constructor
    case place_eq => rfl
    case placed => exact id
    case knows => exact fun _ => id
    case fault => exact id
    case flag => exact fun _ => id
    case shown => exact fun _ fault now => (clean fault now).2
    case writes => exact fun _ _ => ⟨[], by simp [Machine.missing], .inl (by simp)⟩

theorem markDirty_notes : NotesAll passing markDirty := by
  refine .bind .current fun run => ?_
  split
  · exact .pure ()
  · intro live
    have stamps : Ends (stampRecord .dirty) live (fun _ => Notes passing Unexcused live)
        fun _ => Notes passing (fun place change => change.Stamps place .dirty) live :=
      stampRecord_tells live (by simp)
    refine .bind (.attempt (stamps.mono ?_ ?_))
    · exact fun _ _ noted => .pure noted
    · exact fun error _ noted => .bind (.noteFault (.throw (faulted_notes noted.toHeeds error)))

/-- The write that a run misses when it marks its record as clean is that of a clean record, unless
a failure is noted. -/
theorem markClean_tells :
    TellsAll passing (fun place change => change.Stamps place .clean) markClean := by
  intro live
  let headed : LiveRun := { live with run :=
    { live.run with record := { live.run.record with heads := live.run.graph.heads } } }
  have turned : Notes passing Unexcused live headed := .of_heeds (.of_same rfl rfl rfl) rfl rfl
  refine .bind (.current (.bind (.update ?_)))
  cases failed : live.run.storageFault.isSome with
  | true =>
      refine (stampRecord_tells headed (by simp)).mono (fun _ _ => turned.trans) ?_
      exact fun _ _ noted => .of_fault (turned.toHeeds.trans noted.toHeeds) (noted.fault failed)
  | false =>
      refine (stampRecord_tells headed fun fault => ?_).mono (fun _ _ => turned.trans)
        fun _ _ => turned.trans
      cases failed.symm.trans fault

/-! ## The nodes and the continuation -/

theorem writeCheckpoint_tells : TellsAll passing Excused writeCheckpoint := by
  intro live
  refine .bind (.current ?_)
  cases live.run.checkpoint with
  | none => exact .pure (.refl live)
  | some checkpoint =>
      have persisting : NotesAll passing
          (update fun run => { run with checkpointPersisted := true }) :=
        .update fun _ => rfl
      refine .bind ((commit_tells fun _ => RunFiles.recordFile_ne_checkpointFile _).mono ?_
        fun _ _ => id)
      rintro _ written ⟨-, noted⟩
      exact (persisting.tells written).mono (fun _ _ => noted.trans) fun _ _ => noted.trans

/-- The store of a run is replaced by one at the same place. -/
theorem storing_notes {store : NodeStore} (same : between.run = live.run)
    (noted : Notes passing Unexcused live between)
    (placed : live.standing.IsPlaced → Standing.IsPlaced { live.standing with store }) :
    Notes passing Unexcused live { between with run := { between.run with store } } := by
  refine noted.trans (.of_heeds ⟨rfl, fun placedNow => ?_, fun _ => id, id, fun _ => id, id,
    fun _ _ => ⟨[], by simp, .inl (by simp)⟩⟩ rfl rfl)
  have before : live.standing.IsPlaced := by
    simpa only [Standing.IsPlaced, LiveRun.standing, same] using placedNow
  simpa only [Standing.IsPlaced, LiveRun.standing, same] using placed before

theorem writesBeside_notes :
    WritesBeside (Notes passing Unexcused) (Notes passing Excused) where
  still := .refl
  writes other := commit_tells other
  stores := storing_notes

theorem storeNode_tells (node : Node) : TellsAll passing Excused (storeNode node) :=
  fun _ => writesBeside_notes.storeNode node

theorem storeStep_tells (node : Node) : TellsAll passing Excused (storeStep node) :=
  TellsAll.composes.storeStep storeNode_tells node

theorem flushStore_tells : TellsAll passing Excused flushStore :=
  fun _ => writesBeside_notes.flushStore

theorem removeCheckpoint_tells :
    TellsAll passing Excused (do onMachine (RunFiles.removeCheckpoint (← current).place)) := by
  intro live
  refine .bind (.current (.onMachine_bind (.onMachine_get ?_)))
  dsimp only
  split
  · exact .onMachine_pure (.refl live)
  · exact (commit_tells fun _ => RunFiles.recordFile_ne_checkpointFile _).mono
      (fun _ _ noted => noted.2) fun _ _ => id

/-! ## Safe points and the end -/

theorem reachSafePoint_tells : TellsAll passing Excused reachSafePoint :=
  TellsAll.composes.reachSafePoint flushStore_tells writeCheckpoint_tells markClean_tells.weaken

theorem settle_notes : NotesAll passing settle := by
  refine .bind .current fun run => ?_
  split
  · exact noted_notes markClean_tells
  · exact .pure ()

theorem persistEnd_tells (nodes : List Node) (result : RunResult) :
    TellsAll passing Excused (persistEnd nodes result) := by
  have stores : TellsAll passing Excused (nodes.forM storeStep) :=
    TellsAll.composes.forM fun node _ => storeStep_tells node
  have ending : NotesAll passing (update fun run =>
      { run with record := { run.record with status := .complete, result } }) :=
    .update fun _ => rfl
  exact .bind markDirty_notes.tells fun _ => .bind stores fun _ => .bind flushStore_tells fun _ =>
    .bind ending.tells fun _ => .bind markClean_tells.weaken fun _ => removeCheckpoint_tells

theorem conclude_notes (nodes : List Node) (result : RunResult) :
    NotesAll passing (conclude nodes result) := by
  refine .bind (noted_notes (persistEnd_tells nodes result)) fun _ => .bind ?_ fun _ => ?_
  · exact .update fun _ => rfl
  · exact fun live => .of_heeds (.of_same rfl rfl rfl) rfl rfl

theorem endAsFailed_notes (reason : String) : NotesAll passing (endAsFailed reason) := by
  exact .bind .current fun run => .bind (.update fun _ => rfl) fun _ => conclude_notes _ _

/-! ## Operations -/

theorem grow_notes (kind : NodeKind) (parents : List Nat) (name : String) (actions : List Action) :
    NotesAll passing (grow kind parents name actions) := by
  rw [grow_eq]
  refine .bind .get fun live => ?_
  split
  · exact .throw _
  · exact .bind (.update fun _ => rfl) fun _ => .pure _

theorem growOrClose_notes (kind : NodeKind) (parents : List Nat) (name : String)
    (actions : List Action) : NotesAll passing (growOrClose kind parents name actions) :=
  NotesAll.catches.growOrClose (grow_notes kind parents name actions) endAsFailed_notes

/-- A failure to store a node is noted, and the operation goes on to what is left to do. -/
theorem storing_goes_on {node : Node} {store : RunM Unit} {rest : RunM Node}
    (stores : TellsAll passing excused store) (goes : NotesAll passing rest) :
    NotesAll passing (storing node store rest) := by
  refine .bind markDirty_notes.attempt fun _ live => .bind (.attempt ((stores live).mono ?_ ?_))
  · exact fun _ stored noted =>
      (goes stored).mono (fun _ _ => noted.trans) fun _ _ => noted.trans
  · exact fun error _ noted => .bind (.noteFault (.pure (faulted_notes noted.toHeeds error)))

theorem wrapUp_notes (node : Node) (point : Bool) : NotesAll passing (wrapUp node point) := by
  cases point with
  | true => exact .bind (noted_notes reachSafePoint_tells) fun _ => .pure node
  | false => exact .bind settle_notes fun _ => .pure node

theorem append_notes (draft : NodeDraft) : NotesAll passing (append draft) :=
  NotesAll.catches.append (fun _ => growOrClose_notes _ _ _ _) fun node =>
    storing_goes_on (storeStep_tells node) (wrapUp_notes node _)

theorem attach_notes (id : Nat) (action : Action) : NotesAll passing (attach id action) :=
  NotesAll.catches.attach (fun _ => .update fun _ => rfl) fun node =>
    storing_goes_on (storeNode_tells node)
      (.bind .current fun run => wrapUp_notes node run.phase.holdsAppends)

/-- Only the last write of a checkpoint may fail without a note of it. -/
theorem takeCheckpoint_tells (blob : Bytes) :
    TellsAll passing (fun place change => change.Stamps place .clean) (takeCheckpoint blob) := by
  have held : TellsAll passing (fun place change => change.Stamps place .clean) heldCheckpoint :=
    .bind markDirty_notes.attempt.tells fun _ => (notedAndThrown_notes reachSafePoint_tells).tells
  have prompt :
      TellsAll passing (fun place change => change.Stamps place .clean) promptCheckpoint := by
    refine .bind markDirty_notes.attempt.tells fun _ =>
      .bind (notedAndThrown_notes writeCheckpoint_tells).tells fun _ =>
        .bind NotesAll.current.tells fun run => ?_
    split
    -- The continuation is on disk by now; only this write is returned and not noted.
    · exact markClean_tells
    · exact (NotesAll.pure ()).tells
  rw [takeCheckpoint_eq]
  refine .bind (TellsAll.composes.requireLive _) fun _ => .bind NotesAll.get.tells fun live =>
    .bind (NotesAll.tells (.update fun _ => rfl)) fun _ => .bind NotesAll.current.tells fun run => ?_
  split
  · exact held
  · split
    · exact prompt
    · exact (NotesAll.pure ()).tells

theorem flush_tells : TellsAll passing Excused flush :=
  TellsAll.composes.flush reachSafePoint_tells

theorem shutdown_tells : TellsAll passing Excused shutdown :=
  TellsAll.composes.shutdown reachSafePoint_tells

theorem pausing_notes : NotesAll passing pausing := by
  refine .bind (.update fun _ => rfl) fun _ live => ?_
  have reaches : TellsAll passing Excused reachSafePoint := reachSafePoint_tells
  refine .bind (.attempt ((reaches live).mono ?_ ?_))
  · intro _ paused noted
    have ends : NotesAll passing (update fun run => { run with phase := .paused }) :=
      .update fun _ => rfl
    exact (ends paused).mono (fun _ _ => noted.trans) fun _ _ => noted.trans
  · intro error failed noted
    -- The run goes on as before the pause, and only then the failure is noted.
    refine .bind (.update (.bind (.noteFault (.throw
      (faulted_notes (noted.toHeeds.trans ?_) error)))))
    exact .of_same rfl rfl rfl

theorem pause_notes : NotesAll passing pause := NotesAll.catches.pause pausing_notes

/-- The end of a pause writes the flag that was last written. -/
theorem unpausing_notes (may : passing) (live : LiveRun) :
    EndsIn (unpausing live.run.diskFlag) live (Notes passing Unexcused live) := by
  let told : LiveRun := { live with run :=
    { live.run with record := { live.run.record with status := .running } } }
  have begins : Notes passing Unexcused live told := .of_heeds (.of_same rfl rfl rfl) rfl rfl
  have stamps := stampRecord_tells told fun _ clean => ⟨may, clean⟩
  have ends : NotesAll passing (update fun run => { run with phase := .running }) :=
    .update fun _ => rfl
  refine .bind (.update (.bind (.noted (stamps.mono ?_ ?_))))
  · intro _ stamped noted
    exact (ends stamped).mono (fun _ _ later => begins.trans (noted.trans later))
      fun _ _ later => begins.trans (noted.trans later)
  · intro error failed missed
    have noted := faulted_notes missed.toHeeds error
    exact (ends _).mono (fun _ _ later => begins.trans (noted.trans later))
      fun _ _ later => begins.trans (noted.trans later)

theorem unpause_notes (may : passing) : NotesAll passing unpause := fun live =>
  .unpause (fun _ => .refl live) (fun _ => .refl live) fun _ _ => unpausing_notes may live

theorem finish_notes (outcome : Outcome) : NotesAll passing (finish outcome) :=
  NotesAll.catches.finish (fun _ => growOrClose_notes _ _ _ _) fun _ => conclude_notes _ _

theorem fail_notes (reason : String) : NotesAll passing (fail reason) :=
  NotesAll.catches.fail (endAsFailed_notes reason)

theorem enterResuming_notes : NotesAll passing enterResuming := by
  refine .update fun run => ?_
  split <;> rfl

theorem leaveResuming_notes : NotesAll passing leaveResuming := by
  refine .update fun run => ?_
  split <;> rfl

end Run

/-- Every deed heeds what was noted before.  A write that fails is noted, or the deed fails with it
and is excused. -/
theorem Deed.carryOut_tells (deed : Deed) :
    TellsAll (deed = .command .unpause) deed.Excuses deed.carryOut := by
  cases deed with
  | fail reason => exact (fail_notes reason).tells
  | enterResuming => exact enterResuming_notes.tells
  | leaveResuming => exact leaveResuming_notes.tells
  | command given =>
      refine .bind (TellsAll.composes.perform ?_) fun _ => TellsAll.composes.pure ()
      cases given with
      | append draft => exact .bind (append_notes draft).tells fun _ => TellsAll.composes.pure _
      | finish outcome => exact .bind (finish_notes outcome).tells fun _ => TellsAll.composes.pure _
      | attach id action => exact .bind (attach_notes id action).tells fun _ => TellsAll.composes.pure _
      | checkpoint blob => exact .bind (takeCheckpoint_tells blob) fun _ => TellsAll.composes.pure _
      | flush => exact .bind flush_tells fun _ => TellsAll.composes.pure _
      | pause => exact .bind pause_notes.tells fun _ => TellsAll.composes.pure _
      | unpause => exact .bind (unpause_notes rfl).tells fun _ => TellsAll.composes.pure _
      | shutdown => exact .bind shutdown_tells fun _ => TellsAll.composes.pure _
      | look => exact .bind NotesAll.current.tells fun _ => TellsAll.composes.pure _

theorem Deed.carryOut_heeds (deed : Deed) (live : LiveRun) :
    EndsIn deed.carryOut live (Heeds (deed = .command .unpause) live) :=
  (deed.carryOut_tells live).mono (fun _ _ noted => noted.toHeeds) fun _ _ noted => noted.toHeeds

/-! ## Histories -/

namespace LiveRun

theorem heeds_atTime (live : LiveRun) (now : Instant) : Heeds passing live (live.atTime now) :=
  .of_same rfl rfl rfl

/-- A deed heeds what was noted before it. -/
theorem afterDeed_heeds (live : LiveRun) (now : Instant) (deed : Deed) :
    Heeds (deed = .command .unpause) live (live.afterDeed now deed) :=
  (live.heeds_atTime now).trans (afterDeed_of_ends (deed.carryOut_heeds (live.atTime now)))

/-- A deed misses no change, or notes it, or fails with the one change that it missed and is
excused. -/
theorem afterDeed_misses (live : LiveRun) (now : Instant) (deed : Deed) :
    (live.afterDeed now deed).machine.missed = live.machine.missed ∨
      (live.afterDeed now deed).run.storageFault.isSome = true ∨
      ∃ change error, deed.Excuses live.run.place change ∧
        (live.afterDeed now deed).machine.missed = live.machine.missed ++ [change] ∧
        attempt deed.carryOut (live.atTime now) =
          .ok (.error error) (live.afterDeed now deed) := by
  have ends := deed.carryOut_tells (live.atTime now)
  rw [Ends] at ends
  rw [afterDeed, attempt]
  cases result : deed.carryOut (live.atTime now) with
  | ok value after =>
      rw [result] at ends
      cases fault : after.run.storageFault with
      | some error => exact .inr (.inl rfl)
      | none =>
          refine .inl ((ends.unnoted fault).2.resolve_right ?_)
          rintro ⟨_, never, -⟩
          exact never
  | error error after =>
      rw [result] at ends
      cases fault : after.run.storageFault with
      | some error => exact .inr (.inl rfl)
      | none =>
          rcases (ends.unnoted fault).2 with same | ⟨change, excused, missed⟩
          · exact .inl same
          · exact .inr (.inr ⟨change, error, excused, missed, rfl⟩)

theorem afterDeeds_heeds (live : LiveRun) (deeds : List (Instant × Deed)) :
    Heeds (∃ given ∈ deeds, given.2 = .command .unpause) live (live.afterDeeds deeds) := by
  have weaker {first last : Prop} (implies : first → last) {live after : LiveRun}
      (heeds : Heeds first live after) : Heeds last live after := by
    refine { heeds with writes := fun placed fault => ?_ }
    obtain ⟨changes, log, clean⟩ := heeds.writes placed fault
    exact ⟨changes, log, clean.imp_right fun passed => ⟨implies passed.1, passed.2⟩⟩
  induction deeds using List.reverseRecOn with
  | nil => exact .refl live
  | append_singleton deeds given ih =>
      rw [afterDeeds_concat]
      refine (weaker ?_ ih).trans (weaker ?_ (afterDeed_heeds _ given.1 given.2))
      · rintro ⟨other, inside, same⟩
        exact ⟨other, List.mem_append_left _ inside, same⟩
      · exact fun same => ⟨given, by simp, same⟩

/-- A run that has begun has its store where it belongs, knows the flag of the record on disk, and
shows none that the disk lacks. -/
theorem Begun.placed {place : Place} (begun : live.Begun place) :
    live.run.place = place ∧ live.standing.IsPlaced ∧ live.KnowsFlag ∧ live.run.ShowsFlag := by
  cases begun with
  | @start machine after runId asked config run started =>
      obtain ⟨shown, candid⟩ := start_candid started
      obtain ⟨reached, -, done⟩ := of_start_eq_ok started
      have tells : TellsAll False Excused beginning :=
        .bind markDirty_notes.tells fun _ => .bind (storeNode_tells _) fun _ => reachSafePoint_tells
      have ends := tells { run := Run.begun reached place runId (config.hintFor asked),
                           machine := reached }
      rw [Ends, done] at ends
      refine ⟨ends.place_eq, candid.sound.placed, fun record reads => ?_,
        ends.shown fun failed => by cases failed⟩
      have found := Disk.of_readJson candid.sound.shows shown.isReadBack_toJson reads
      exact (Record.told_of_ofJson? found).1.trans candid.sound.flag
  | @opened machine run opens =>
      obtain ⟨⟨found, report⟩, left, opening, same⟩ := bind_eq_ok.1 opens
      cases same
      obtain ⟨record, _, read, rest⟩ := bind_eq_ok.1 opening
      obtain ⟨_, _, looked, rest⟩ := bind_eq_ok.1 rest
      cases looked
      obtain ⟨loaded, _, listed, rest⟩ := bind_eq_ok.1 rest
      cases rest
      refine ⟨rfl, NodeStore.ofRun_isPlaced _ rfl, fun other reads => ?_,
        fun failed => by cases failed⟩
      cases read.symm.trans (RunFiles.readRecord_eq_ok_of_found reads)
      rfl

end LiveRun

/-- **What can make a record clean again**: a run was begun and used, while the device refused any
of the writes.  A deed notes every write that fails in it -- but a flush or a shutdown may fail with
one write and leave it at that, and so may a checkpoint with the clean record that it writes last.
What the run remembers as the flag of the record on disk is this flag.  From a failure that is noted
it stays so; the record is shown as clean only where the one on disk is clean; and no record is
written as clean anymore, unless it was left clean on disk and a pause is ended. -/
theorem clean_only_by_what_was_missed {place : Place} (begun : live.Begun place)
    (earlier : List (Instant × Deed)) :
    (∀ now deed,
      let before := live.afterDeeds earlier
      let after := before.afterDeed now deed
      after.machine.missed = before.machine.missed ∨ after.run.storageFault.isSome = true ∨
        ∃ change error, deed.Excuses place change ∧
          after.machine.missed = before.machine.missed ++ [change] ∧
          attempt deed.carryOut (before.atTime now) = .ok (.error error) after) ∧
    (live.afterDeeds earlier).KnowsFlag ∧
    ((live.afterDeeds earlier).run.storageFault.isSome = true → ∀ later,
      let last := (live.afterDeeds earlier).afterDeeds later
      last.run.storageFault.isSome = true ∧
        (last.run.record.clean = .clean → ∀ shown, last.Reads shown → shown.clean = .clean) ∧
        ((live.afterDeeds earlier).run.diskFlag ≠ .clean ∨
            (∀ given ∈ later, given.2 ≠ .command .unpause) →
          ∃ changes, last.machine.log = (live.afterDeeds earlier).machine.log ++ changes ∧
            ∀ change ∈ changes, change.WritesNoClean place)) := by
  obtain ⟨here, placed, knows, shown⟩ := begun.placed
  have first := live.afterDeeds_heeds earlier
  have hereStill : (live.afterDeeds earlier).run.place = place := first.place_eq.trans here
  refine ⟨fun now deed => ?_, first.knows placed knows, fun failed later => ?_⟩
  · exact hereStill ▸ (live.afterDeeds earlier).afterDeed_misses now deed
  have second := (live.afterDeeds earlier).afterDeeds_heeds later
  have still := second.fault failed
  refine ⟨still, fun clean record reads => ?_, fun apart => ?_⟩
  · have knowsLast := second.knows (first.placed placed) (first.knows placed knows)
    exact (knowsLast record reads).trans (second.shown (first.shown shown) still clean)
  · obtain ⟨changes, log, clean⟩ := second.writes (first.placed placed) failed
    refine ⟨changes, log, hereStill ▸ clean.resolve_right ?_⟩
    rintro ⟨⟨given, inside, ends⟩, wasClean⟩
    exact apart.elim (fun other => other wasClean) fun none => none given inside ends

end Faults

/-- A node is appended. -/
def appended : List (Instant × Deed) :=
  [(.sample, .command (.append { kind := .atom, name := "only" }))]

/-- What may follow: a flush, a pause and its end, the end of the run. -/
def followUp : List (Instant × Deed) :=
  [(.sample, .command .flush), (.sample, .command .pause), (.sample, .command .unpause),
    (.sample, .command (.finish .ok))]

/-- The file of a node is refused: the record was made dirty and stays so to the end. -/
theorem dirty_after_refused_node : ∃ run started,
    Run.start .sample "sample" none .default .refusingSixth = .ok run started ∧
      let failed := LiveRun.afterDeeds { run, machine := started } appended
      let last := failed.afterDeeds followUp
      failed.run.storageFault.isSome = true ∧ failed.run.diskFlag ≠ .clean ∧ failed.KnowsFlag ∧
        last.run.storageFault.isSome = true ∧
        (last.run.record.clean = .clean → ∀ shown, last.Reads shown → shown.clean = .clean) ∧
        ∃ changes, last.machine.log = failed.machine.log ++ changes ∧
          ∀ change ∈ changes, change.WritesNoClean .sample := by
  have passed : Run.passes (fun run started =>
      let failed := LiveRun.afterDeeds { run, machine := started } appended
      failed.run.storageFault.isSome && decide (failed.run.diskFlag ≠ .clean))
      (Run.start .sample "sample" none .default .refusingSixth) = true := by
    decide +kernel
  obtain ⟨run, started, begins, holds⟩ := Run.of_passes passed
  simp only [Bool.and_eq_true, decide_eq_true_eq] at holds
  obtain ⟨failed, unclean⟩ := holds
  have begun : LiveRun.Begun .sample { run, machine := started } := .start begins
  obtain ⟨-, knows, heeded⟩ := clean_only_by_what_was_missed begun appended
  obtain ⟨still, shown, clean⟩ := heeded failed followUp
  exact ⟨run, started, begins, failed, unclean, knows, still, shown, clean (.inl unclean)⟩

/-- **A flush forgets its failure**: the file of all nodes is refused in a flush, which fails.
The next flush writes a clean record. -/
theorem clean_after_refused_flush : ∃ run started error left record,
    Run.start .sample "sample" (some .performanceOptimized) .default .refusingSixth =
        .ok run started ∧
      let grown := LiveRun.afterDeeds { run, machine := started } appended
      attempt (Deed.command .flush).carryOut (grown.atTime .sample) = .ok (.error error) left ∧
        left.machine.missed ≠ grown.machine.missed ∧
        (left.afterDeed .sample (.command .flush)).Reads record ∧ record.clean = .clean := by
  have passed : Run.passes (fun run started =>
      let grown := LiveRun.afterDeeds { run, machine := started } appended
      Run.passes (fun outcome left =>
          let last := left.afterDeed .sample (.command .flush)
          !outcome.isOk && decide (left.machine.missed ≠ grown.machine.missed) &&
            last.machine.disk.at? (RunFiles.recordFile last.run.place).path =
              some (.file last.run.record.toJson.pretty) &&
            decide (last.run.record.version < UInt32.size) &&
            decide (∀ head ∈ last.run.record.heads, head < UInt64.size) &&
            decide (last.run.record.clean = .clean))
        (attempt (Deed.command .flush).carryOut (grown.atTime .sample)))
      (Run.start .sample "sample" (some .performanceOptimized) .default .refusingSixth) = true := by
    decide +kernel
  obtain ⟨run, started, begins, holds⟩ := Run.of_passes passed
  obtain ⟨outcome, left, flushed, holds⟩ := Run.of_passes holds
  simp only [Bool.and_eq_true, decide_eq_true_eq] at holds
  obtain ⟨⟨⟨⟨⟨failed, misses⟩, shown⟩, version⟩, heads⟩, clean⟩ := holds
  have storable : (left.afterDeed .sample (.command .flush)).run.record.Storable :=
    ⟨version, heads⟩
  cases outcome with
  | ok => cases failed
  | error error =>
      exact ⟨run, started, error, left, _, begins, flushed, misses,
        Disk.readJson_eq_ok shown (Record.isOrdinary_toJson storable)
          (Record.ofJson?_toJson storable), clean⟩

end DurableRuns
