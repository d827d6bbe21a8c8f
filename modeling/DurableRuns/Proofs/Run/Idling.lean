/-
# DurableRuns.Proofs.Run.Idling -- a run that is only kept

A process may open a run and do nothing with it but look at it, flush it, pause it and let it go
on, and shut it down.  Its directory then shows the same nodes and the same continuation all the
time.  All that such an idle command may change of it is the record, and this comes last
(`Command.perform_idle`): a kill in its midst leaves what was there before.

A record that is written by a command that saves is clean, for nothing waits to be written.  This
holds as well of a run that was opened from a record that was not clean, and so lacks what was
lost before.
-/
import DurableRuns.Proofs.Run.Unhindered

namespace DurableRuns

set_option autoImplicit false

open NodeStore (batchFileName)
open Run RunM

/-! ## Changes but for the last -/

/-- One machine comes to another by changes of the disk, and every disk before the last of them
meets a condition. -/
def Machine.MeetsUntilLast (meets : Disk → Prop) (before after : Machine) : Prop :=
  ∃ changes, after.log = before.log ++ changes ∧ before.disk.replay changes = .ok after.disk ∧
    ∀ k < changes.length, ∃ disk, before.disk.replay (changes.take k) = .ok disk ∧ meets disk

namespace Machine.MeetsUntilLast

variable {meets : Disk → Prop} {before between after : Machine}

theorem refl (machine : Machine) : MeetsUntilLast meets machine machine :=
  ⟨[], by simp, rfl, by simp⟩

/-- A single change. -/
theorem changed {machine : Machine} {change : Change} {disk : Disk} (met : meets machine.disk)
    (made : change.apply machine.disk = .ok disk) :
    MeetsUntilLast meets machine (machine.changed change disk) := by
  refine ⟨[change], rfl, Disk.replay_singleton made, fun k short => ⟨machine.disk, ?_, met⟩⟩
  obtain rfl : k = 0 := by simpa using short
  rfl

/-- Changes that all meet the condition may come before. -/
theorem of_passes (passes : Passes meets before between) (met : meets before.disk)
    (later : MeetsUntilLast meets between after) : MeetsUntilLast meets before after := by
  obtain ⟨early, earlyLog, replayed, all⟩ := passes.meets_take
  obtain ⟨late, lateLog, lateDisk, lateMeets⟩ := later
  refine ⟨early ++ late, by rw [lateLog, earlyLog, List.append_assoc], ?_, fun k short => ?_⟩
  · rw [Disk.replay_append, replayed]
    exact lateDisk
  · rcases Nat.lt_or_ge k early.length with inside | beyond
    · rw [List.take_append_of_le_length (Nat.le_of_lt inside)]
      obtain ⟨disk, reached, rfl | fits⟩ := all k
      · exact ⟨_, reached, met⟩
      · exact ⟨disk, reached, fits⟩
    · obtain ⟨more, rfl⟩ := Nat.exists_eq_add_of_le beyond
      rw [List.take_length_add_append, Disk.replay_append, replayed]
      exact lateMeets more (by simpa using short)

/-- A kill leaves what meets the condition, or it comes after the last change. -/
theorem cut {changes : List Change} {k : Nat} {disk : Disk}
    (last : MeetsUntilLast meets before after) (log : after.log = before.log ++ changes)
    (killed : before.disk.replay (changes.take k) = .ok disk) :
    k < changes.length ∧ meets disk ∨ changes.length ≤ k ∧ disk = after.disk := by
  obtain ⟨made, sameLog, replayed, all⟩ := last
  obtain rfl := List.append_cancel_left (log.symm.trans sameLog)
  rcases Nat.lt_or_ge k changes.length with short | long
  · obtain ⟨reached, same, met⟩ := all k short
    obtain rfl := Except.ok.inj (same.symm.trans killed)
    exact .inl ⟨short, met⟩
  · rw [List.take_of_length_le long] at killed
    exact .inr ⟨long, Except.ok.inj (killed.symm.trans replayed)⟩

end Machine.MeetsUntilLast

/-! ## Runs that have nothing to write -/

/-- Nothing waits to be written but, perhaps, the record: the directory shows an image with the
nodes of the store, and the device refuses nothing. -/
structure Flushed (live : LiveRun) (image : Image) : Prop where
  willing : ∀ refusal ∈ live.machine.refusals, refusal = false
  shows : Shows live.machine.disk live.run.place live.run.hint.storageKind image
  store : live.run.store = NodeStore.ofImage live.run.place live.run.hint image.nodes
  persisted : live.run.checkpointPersisted = true
  unfailed : live.run.storageFault = none

/-- A run has written a record, and this was the last change that was made. -/
structure Rerecorded (image : Image) (record : Record) (live after : LiveRun) : Prop where
  run_eq : after.run = { live.run with record, diskFlag := record.clean }
  flushed : Flushed after { image with record := some record }
  last : live.machine.MeetsUntilLast
    (Shows · live.run.place live.run.hint.storageKind image) after.machine

section Idling

variable {live : LiveRun} {image : Image}

namespace Run

theorem stampRecord_flushed (flushed : Flushed live image) (flag : CleanFlag) :
    Ends (stampRecord flag) live
      (fun _ => Rerecorded image (stamped live.run.record flag live.machine.now) live)
      fun _ _ => False := by
  obtain ⟨written, ok, shows⟩ :=
    flushed.shows.writeRecord (stamped live.run.record flag live.machine.now)
  refine .bind (.get (.bind (.update (.bind (.current (.bind
    (.commit_of_willing flushed.willing ok (.update ?_))))))))
  constructor
  case run_eq => rfl
  case flushed => exact { flushed with shows, willing := Machine.willing_changed flushed.willing }
  case last => exact .changed flushed.shows ok

/-- The file of all nodes may be written once more; the nodes in it are the same. -/
theorem flushStore_flushed (flushed : Flushed live image) :
    Ends flushStore live
      (fun _ after => after.run = live.run ∧ Flushed after image ∧
        Passes (Shows · live.run.place live.run.hint.storageKind image) live.machine after.machine)
      fun _ _ => False := by
  refine .flushStore (fun _ => ⟨rfl, flushed, .refl _⟩) fun file nodes unflushed fault store => ?_
  have same := flushed.store.symm.trans store
  rw [NodeStore.ofImage] at same
  cases kind : live.run.hint.storageKind with
  | immediate =>
      rw [kind] at same
      cases same
  | batched =>
      rw [kind] at same
      cases same
      have shows := flushed.shows
      rw [kind] at shows
      obtain ⟨written, ok, shown⟩ := shows.writeBatch image.nodes
      refine .commit_of_willing flushed.willing ok ?_
      rw [← store]
      refine ⟨rfl, ?_, .commit ok shown⟩
      exact { flushed with
        shows := kind.symm ▸ shown, willing := Machine.willing_changed flushed.willing }

/-- A safe point writes a clean record with the heads in memory, whatever was lost before. -/
theorem reachSafePoint_flushed (flushed : Flushed live image) :
    Ends reachSafePoint live
      (fun _ => Rerecorded image
        (stamped { live.run.record with heads := live.run.graph.heads } .clean live.machine.now) live)
      fun _ _ => False := by
  refine .bind ((flushStore_flushed flushed).mono ?_ fun _ _ => id)
  rintro _ ⟨_, machine⟩ ⟨rfl, still, passes⟩
  have flag : (if live.run.storageFault.isSome then CleanFlag.dirty else .clean) = .clean := by
    rw [flushed.unfailed]
    rfl
  have now : machine.now = live.machine.now := passes.now_eq
  refine .bind (.current ?_)
  rw [still.persisted]
  refine .bind (.current (.bind (.update ?_)))
  rw [flag]
  have headed : Flushed { run := { live.run with
      record := { live.run.record with heads := live.run.graph.heads } }, machine } image :=
    { still with }
  refine (stampRecord_flushed headed .clean).mono ?_ fun _ _ => id
  rintro _ after ⟨run, written, last⟩
  rw [← now]
  exact ⟨run, written, .of_passes passes flushed.shows last⟩

end Run

/-! ## Idle commands -/

namespace Command

/-- The command adds nothing to a run. -/
def isIdle : Command → Bool
  | .flush | .pause | .unpause | .shutdown | .look => true
  | _ => false

/-- The command writes all that a run holds, if it is idle: a flush, a shutdown, and the pause of a
run that is not paused. -/
def saves (phase : Phase) : Command → Bool
  | .flush | .shutdown => true
  | .pause => !phase.holdsAppends
  | _ => false

end Command

/-- What idle commands make of the record of a run.  Once it was saved it is clean and has the
heads that the run goes on from; before, it is not clean and has the heads it was found with. -/
structure Record.IsIdle (record first : Record) (nodes : NodeTable) (saved : Bool) : Prop where
  hint_eq : record.hint = first.hint
  version_eq : record.version = first.version
  heads_eq : record.heads = if saved then (Graph.regain nodes first.heads).heads else first.heads
  clean_iff : record.clean = .clean ↔ saved = true
  unfinished : record.isComplete = false

/-- A run that was opened on an image and has only been kept since. -/
structure LiveRun.IsIdle (place : Place) (found : Image) (first : Record) (saved : Bool)
    (live : LiveRun) : Prop where
  place_eq : live.run.place = place
  hint_eq : live.run.hint = first.hint
  flushed : Flushed live { found with record := some live.run.record }
  record : live.run.record.IsIdle first found.nodes saved
  heads_eq : live.run.graph.heads = (Graph.regain found.nodes first.heads).heads
  flag_eq : live.run.diskFlag = live.run.record.clean
  phase_eq : live.run.phase = .ofRecord live.run.record

section Commands

variable {place : Place} {found : Image} {first : Record} {saved : Bool} {live : LiveRun}

/-- A command has left a run idle, and the directory as it was until the last change. -/
def LiveRun.StaysIdle (place : Place) (found : Image) (first : Record) (live : LiveRun)
    (saved : Bool) (after : LiveRun) : Prop :=
  after.IsIdle place found first saved ∧
    live.machine.MeetsUntilLast (Shows · place first.hint.storageKind
      { found with record := some live.run.record }) after.machine

namespace LiveRun.IsIdle

theorem atTime (idle : live.IsIdle place found first saved) (now : Instant) :
    (live.atTime now).IsIdle place found first saved :=
  { idle with flushed := { idle.flushed with } }

/-- A command that does nothing. -/
theorem still (idle : live.IsIdle place found first saved) :
    live.StaysIdle place found first saved live := ⟨idle, .refl _⟩

/-- A run that has written its record is idle, in the phase that the record tells. -/
theorem rerecorded {record : Record} {base : Run} {after : LiveRun} {now : Bool}
    (idle : live.IsIdle place found first saved)
    (written : Rerecorded { found with record := some live.run.record } record
      { live with run := base } after)
    (same : base.place = live.run.place ∧ base.hint = live.run.hint ∧
      base.graph = live.run.graph)
    (stays : record.IsIdle first found.nodes now) {phase : Phase}
    (told : phase = .ofRecord record) :
    live.StaysIdle place found first now { after with run := { after.run with phase } } := by
  obtain ⟨samePlace, sameHint, sameGraph⟩ := same
  obtain ⟨run, flushed, last⟩ := written
  have recorded : after.run.record = record := by rw [run]
  constructor
  · constructor
    case place_eq => rw [run]; exact samePlace.trans idle.place_eq
    case hint_eq => rw [run]; exact sameHint.trans idle.hint_eq
    case flushed =>
      rw [← recorded] at flushed
      exact { flushed with }
    case record => exact recorded.symm ▸ stays
    case heads_eq =>
      rw [run]
      exact (congrArg Graph.heads sameGraph).trans idle.heads_eq
    case flag_eq => rw [run]
    case phase_eq => exact recorded.symm ▸ told
  · rw [samePlace, sameHint, idle.place_eq, idle.hint_eq] at last
    exact last

/-- A run that is idle is running or paused. -/
theorem phase_cases (idle : live.IsIdle place found first saved) :
    live.run.phase = .running ∨ live.run.phase = .paused := by
  have unfinished := idle.record.unfinished
  rw [idle.phase_eq, Phase.ofRecord]
  rw [Record.isComplete] at unfinished
  cases status : live.run.record.status with
  | running => exact .inl rfl
  | paused => exact .inr rfl
  | complete => simp [status] at unfinished

theorem running (idle : live.IsIdle place found first saved) :
    live.run.phase.isComplete = false := by
  rcases idle.phase_cases with phase | phase
  · rw [phase]
    rfl
  · rw [phase]
    rfl

/-- A record with the heads in memory is as a save leaves it. -/
theorem saving (idle : live.IsIdle place found first saved) {status : RecordStatus}
    (going : status ≠ .complete) (now : Instant) :
    (stamped { live.run.record with status, heads := live.run.graph.heads } .clean now).IsIdle
      first found.nodes true where
  hint_eq := idle.record.hint_eq
  version_eq := idle.record.version_eq
  heads_eq := idle.heads_eq
  clean_iff := by simp [stamped]
  unfinished := by simp [stamped, Record.isComplete, going]

end LiveRun.IsIdle

namespace Run

theorem reachSafePoint_idle (idle : live.IsIdle place found first saved) :
    Ends reachSafePoint live (fun _ => live.StaysIdle place found first true)
      fun _ _ => False := by
  refine (reachSafePoint_flushed idle.flushed).mono ?_ fun _ _ => id
  intro _ after written
  have going : live.run.record.status ≠ .complete := by
    have unfinished := idle.record.unfinished
    rw [Record.isComplete] at unfinished
    simpa using unfinished
  have told : after.run.phase = .ofRecord
      (stamped { live.run.record with heads := live.run.graph.heads } .clean live.machine.now) := by
    rw [written.run_eq]
    exact idle.phase_eq
  exact idle.rerecorded written ⟨rfl, rfl, rfl⟩ (idle.saving going _) told

/-- A flush that finds nothing to write was saved before. -/
theorem flush_idle (idle : live.IsIdle place found first saved) :
    Ends flush live (fun _ => live.StaysIdle place found first true) fun _ _ => False := by
  refine .flush (fun complete => ?_) (fun clean => ?_) fun _ => reachSafePoint_idle idle
  · cases idle.running.symm.trans complete
  · obtain rfl := idle.record.clean_iff.1 (idle.flag_eq.symm.trans clean)
    exact idle.still

theorem shutdown_idle (idle : live.IsIdle place found first saved) :
    Ends shutdown live (fun _ => live.StaysIdle place found first true) fun _ _ => False := by
  refine .shutdown (fun complete => ?_) fun _ => reachSafePoint_idle idle
  cases idle.running.symm.trans complete

theorem pausing_idle (idle : live.IsIdle place found first saved) :
    Ends pausing live (fun _ => live.StaysIdle place found first true) fun _ _ => False := by
  have told : Flushed { live with run := { live.run with
      phase := .pausing, record := { live.run.record with status := .paused } } }
      { found with record := some live.run.record } := { idle.flushed with }
  refine .bind (.update (.bind (.attempt ((reachSafePoint_flushed told).mono ?_
    fun _ _ => False.elim))))
  exact fun _ _ written =>
    .update (idle.rerecorded written ⟨rfl, rfl, rfl⟩ (idle.saving (by simp) _) rfl)

theorem pause_idle (idle : live.IsIdle place found first saved) :
    Ends pause live
      (fun _ => live.StaysIdle place found first (saved || !live.run.phase.holdsAppends))
      fun _ _ => False := by
  refine .pause (fun complete => ?_) (fun rests => ?_) fun _ runs => ?_
  · cases idle.running.symm.trans complete
  · rw [rests, Bool.not_true, Bool.or_false]
    exact idle.still
  · rw [runs, Bool.not_false, Bool.or_true]
    exact pausing_idle idle

/-- The end of a pause leaves the flag of the record as it was. -/
theorem unpausing_idle (idle : live.IsIdle place found first saved) :
    Ends (unpausing live.run.diskFlag) live (fun _ => live.StaysIdle place found first saved)
      fun _ _ => False := by
  have told : Flushed { live with run := { live.run with
      record := { live.run.record with status := .running } } }
      { found with record := some live.run.record } := { idle.flushed with }
  refine .bind (.update (.bind (.noted ((stampRecord_flushed told live.run.diskFlag).mono ?_
    fun _ _ => False.elim))))
  intro _ after written
  refine .update (idle.rerecorded written ⟨rfl, rfl, rfl⟩ ?_ rfl)
  constructor
  case hint_eq => exact idle.record.hint_eq
  case version_eq => exact idle.record.version_eq
  case heads_eq => exact idle.record.heads_eq
  case clean_iff => exact idle.flag_eq ▸ idle.record.clean_iff
  case unfinished => rfl

theorem unpause_idle (idle : live.IsIdle place found first saved) :
    Ends unpause live (fun _ => live.StaysIdle place found first saved) fun _ _ => False := by
  refine .unpause (fun complete => ?_) (fun _ => idle.still) fun _ _ => unpausing_idle idle
  cases idle.running.symm.trans complete

end Run

/-- **What an idle command does**: it never fails, and leaves an idle run.  The run is saved
afterwards if the command saves it or it was saved before. -/
theorem Command.perform_idle {command : Command} (idle : live.IsIdle place found first saved)
    (keeps : command.isIdle = true) :
    Ends command.perform live
      (fun _ => live.StaysIdle place found first (saved || command.saves live.run.phase))
      fun _ _ => False := by
  refine .bind (.current ?_)
  cases command with
  | flush => exact reply_ends (Bool.or_true saved ▸ flush_idle idle)
  | shutdown => exact reply_ends (Bool.or_true saved ▸ shutdown_idle idle)
  | pause => exact reply_ends (pause_idle idle)
  | unpause => exact reply_ends ((Bool.or_false saved).symm ▸ unpause_idle idle)
  | look => exact reply_ends (.current ((Bool.or_false saved).symm ▸ idle.still))
  | append draft => cases keeps
  | finish outcome => cases keeps
  | attach id action => cases keeps
  | checkpoint blob => cases keeps

/-- Every idle command comes to a reply. -/
theorem LiveRun.IsIdle.goes {command : Command} (idle : live.IsIdle place found first saved)
    (keeps : command.isIdle = true) :
    ∃ reply after, attempt command.perform live = .ok (.ok reply) after := by
  have ends := command.perform_idle idle keeps
  rw [Ends] at ends
  cases done : command.perform live with
  | ok reply after => exact ⟨reply, after, Yields.attempt_eq_ok.2 done⟩
  | error error after =>
      rw [done] at ends
      exact ends.elim

theorem LiveRun.IsIdle.performs {command : Command} {outcome : Except Error Reply} {after : LiveRun}
    (idle : live.IsIdle place found first saved) (keeps : command.isIdle = true)
    (done : attempt command.perform live = .ok outcome after) :
    live.StaysIdle place found first (saved || command.saves live.run.phase) after :=
  Ends.of_attempt ((command.perform_idle idle keeps).mono (fun _ _ => id) fun _ _ => False.elim) done

end Commands
end Idling
end DurableRuns
