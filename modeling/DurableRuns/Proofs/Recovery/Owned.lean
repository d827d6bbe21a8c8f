/-
# DurableRuns.Proofs.Recovery.Owned -- a run in the hands of its processes

A run is handed down from one process to the next by its directory (`HandedDown`): each starts it
or opens it, does with it whatever it does, and may be killed between any two writes.  Nothing is
asked of what else lies in the directory, and any write may be refused.

Whatever a process has in hand (`LiveRun.Owned`), the phase agrees with the record, and so do all
records on disk.  The host is told to let go of a run by the process that ends it, once; and what
has ended is not changed anymore (`LiveRun.Owned.keeps_lifecycle`).
-/
import DurableRuns.Proofs.Recovery.Deeds
import DurableRuns.Proofs.Run.Lifecycle

namespace DurableRuns

set_option autoImplicit false

open Run RunM

/-! ## Records on disk -/

/-- If there is a record of a run on disk, it tells a result exactly if it tells that the run has
ended. -/
def Disk.TellsAgreeing (disk : Disk) (place : Place) : Prop :=
  ∀ content, disk.at? (RunFiles.recordFile place).path = some (.file content) →
    ∃ record : Record, content = record.toJson.pretty ∧ record.Agrees

section Owned

variable {place : Place} {machine : Machine} {disk after : Disk} {live ended : LiveRun}

namespace Disk.TellsAgreeing

theorem of_isRun_eq_false (nothing : RunFiles.isRun disk place = false) :
    disk.TellsAgreeing place := by
  intro content stands
  rw [RunFiles.isRun, isFile, stands] at nothing
  cases nothing

/-- A record that is read agrees. -/
theorem of_read (tells : disk.TellsAgreeing place) {record : Record}
    (read : disk.readJson (RunFiles.recordFile place).path Record.ofJson? = .ok record) :
    record.Agrees := by
  obtain ⟨content, stands, -⟩ := content_of_readJson read
  obtain ⟨written, rfl, agrees⟩ := tells content stands
  obtain ⟨-, status, result⟩ :=
    Record.told_of_ofJson? (of_readJson stands written.isReadBack_toJson read)
  rwa [Record.Agrees, status, result]

theorem changed {change : Change} (tells : disk.TellsAgreeing place)
    (agrees : change.WritesAgreeing place) (made : change.apply disk = .ok after) :
    after.TellsAgreeing place := by
  intro content stands
  rcases file_of_apply made stands with ⟨atomic, written⟩ | stood
  · exact agrees content atomic written
  · exact tells content stood

theorem replayed {changes : List Change} (tells : disk.TellsAgreeing place)
    (agrees : ∀ change ∈ changes, change.WritesAgreeing place)
    (made : disk.replay changes = .ok after) : after.TellsAgreeing place :=
  replay_preserves (fun change inside _ _ before => TellsAgreeing.changed before (agrees change inside))
    made tells

end Disk.TellsAgreeing

/-! ## Beginning -/

/-- A run as a process has it at first, and the machine from before. -/
inductive LiveRun.BegunFrom (place : Place) (machine : Machine) : LiveRun → Prop
  | start {after : Machine} {runId : String} {asked : Option Hint} {config : Config} {run : Run}
      (started : Run.start place runId asked config machine = .ok run after) :
      BegunFrom place machine { run, machine := after }
  | opened {run : Run} (opens : openAt place machine = .ok run machine) :
      BegunFrom place machine { run, machine }

/-- The disks on which there is no record of a run at a place, or which were left by processes that
drove it, one after the other.  Each had begun the run, and then did with it whatever it did, or it
recovered the run; and each was killed in the midst of this, or of its start.  The device may have
refused any write, and a kill may have come between any two. -/
inductive HandedDown (place : Place) : Disk → Prop
  | nothing {disk : Disk} (absent : RunFiles.isRun disk place = false) : HandedDown place disk
  | start {machine after : Machine} {runId : String} {asked : Option Hint} {config : Config}
      {changes : List Change} {k : Nat} {disk : Disk}
      (absent : RunFiles.isRun machine.disk place = false)
      (starts : (∃ run, Run.start place runId asked config machine = .ok run after) ∨
        ∃ error, Run.start place runId asked config machine = .error error after)
      (log : after.log = machine.log ++ changes)
      (killed : machine.disk.replay (changes.take k) = .ok disk) : HandedDown place disk
  | used {machine : Machine} {live : LiveRun} {deeds : List (Instant × Deed)}
      {changes : List Change} {k : Nat} {disk : Disk} (handed : HandedDown place machine.disk)
      (begun : live.BegunFrom place machine)
      (log : (live.afterDeeds deeds).machine.log = live.machine.log ++ changes)
      (killed : live.machine.disk.replay (changes.take k) = .ok disk) : HandedDown place disk
  | recovered {machine after : Machine} {coordinator kept : Coordinator} {report : RecoveryReport}
      {changes : List Change} {k : Nat} {disk : Disk} (handed : HandedDown place machine.disk)
      (storable : coordinator.resumer.Storable)
      (recovers : coordinator.recoverRun place machine = .ok (report, kept) after)
      (log : after.log = machine.log ++ changes)
      (killed : machine.disk.replay (changes.take k) = .ok disk) : HandedDown place disk

/-- The live runs that a process may have in hand, beside the run as it began it and the machine
from before; and whether a resumer is at work.  The process has started or opened the run, or has
opened it in a recovery and handed it to the resumer, or has recovered it; and since then the run
was given commands. -/
inductive LiveRun.Owned (place : Place) : LiveRun → Bool → LiveRun → Prop
  | begun {machine : Machine} {live : LiveRun} (handed : HandedDown place machine.disk)
      (begun : live.BegunFrom place machine) : Owned place { run := live.run, machine } false live
  | handedOver {machine : Machine} {opened : Run} (handed : HandedDown place machine.disk)
      (opens : openAt place machine = .ok opened machine)
      (running : opened.phase.isComplete = false) :
      Owned place { run := opened, machine } true { run := opened.resuming, machine }
  | recovered {machine after : Machine} {coordinator kept : Coordinator} {opened run : Run}
      {report : RecoveryReport} (handed : HandedDown place machine.disk)
      (storable : coordinator.resumer.Storable) (opens : openAt place machine = .ok opened machine)
      (recovers : coordinator.recoverRun place machine = .ok (report, kept) after)
      (taken : report.run = some run) :
      Owned place { run := opened, machine } false { run, machine := after }
  | used {since live : LiveRun} {atWork : Bool} (owned : Owned place since atWork live)
      (now : Instant) (command : Command) :
      Owned place since atWork (live.afterDeed now (.command command))

namespace Run

/-- What begins a run tells the host nothing, and writes only records that agree. -/
theorem beginning_keepsOn : KeepsOn False beginning :=
  .bind markDirty_keepsOn fun _ => .bind (storeNode_keepsOn _) fun _ => reachSafePoint_keepsOn

theorem begun_agrees (machine : Machine) (place : Place) (runId : String) (hint : Hint) :
    (begun machine place runId hint).Agrees := .running

theorem begun_isPlaced (machine : Machine) (place : Place) (runId : String) (hint : Hint) :
    { run := begun machine place runId hint, machine : LiveRun }.standing.IsPlaced :=
  NodeStore.ofRun_isPlaced machine.disk rfl

/-- A start succeeds only where there is no record. -/
theorem absent_of_start {after : Machine} {runId : String} {asked : Option Hint} {config : Config}
    {run : Run} (started : start place runId asked config machine = .ok run after) :
    RunFiles.isRun machine.disk place = false := by
  cases present : RunFiles.isRun machine.disk place with
  | false => rfl
  | true =>
      rw [start, Machine.get_bind, if_pos present] at started
      cases started

/-- Where there is no record, a start writes only records that agree, and tells the host nothing. -/
theorem start_attests {after : Machine} {runId : String} {asked : Option Hint} {config : Config}
    (absent : RunFiles.isRun machine.disk place = false)
    (starts : (∃ run, start place runId asked config machine = .ok run after) ∨
      ∃ error, start place runId asked config machine = .error error after) :
    after.released = machine.released ∧ ∃ changes, after.log = machine.log ++ changes ∧
      machine.disk.replay changes = .ok after.disk ∧
      ∀ change ∈ changes, change.WritesAgreeing place := by
  have keeps := fun (made : Disk) (_ : machine.disk.makeDirectories place.path = .ok made) =>
    beginning_keepsOn
      { run := begun (machine.changed (.makeDirectories place.path) made) place runId
          (config.hintFor asked)
        machine := machine.changed (.makeDirectories place.path) made }
  rcases start_ends absent starts keeps with
    ⟨log, disk, released⟩ | ⟨made, ended, directories, goesOn, rfl⟩
  · exact ⟨released, [], by simp [log], by rw [disk]; rfl, by simp⟩
  · obtain ⟨later, log, replayed, agrees⟩ := goesOn.writes (begun_isPlaced _ _ _ _)
      (Run.agrees_iff.1 (begun_agrees _ _ _ _)).2
    have applied : (Change.makeDirectories place.path).apply machine.disk = .ok made := directories
    refine ⟨goesOn.released_eq, .makeDirectories place.path :: later, ?_, ?_, ?_⟩
    · rw [log, Machine.changed, List.append_assoc]
      rfl
    · rw [Disk.replay, applied]
      exact replayed
    · have plain : (Change.makeDirectories place.path).WritesAgreeing place := by
        simp [Change.WritesAgreeing]
      exact List.forall_mem_cons.2 ⟨plain, agrees⟩

/-- A run that is started is running. -/
theorem start_keeps {after : Machine} {runId : String} {asked : Option Hint} {config : Config}
    {run : Run} (started : start place runId asked config machine = .ok run after) :
    run.place = place ∧ { run, machine := after : LiveRun }.standing.IsPlaced ∧ run.Agrees ∧
      run.phase = .running := by
  obtain ⟨reached, -, begins⟩ := of_start_eq_ok started
  have goesOn := beginning_keepsOn
    { run := Run.begun reached place runId (config.hintFor asked), machine := reached }
  have spares := beginning_spares
    { run := Run.begun reached place runId (config.hintFor asked), machine := reached }
  rw [EndsIn, Ends, begins] at goesOn spares
  have phase : run.phase = .running := congrArg Snapshot.phase spares
  have status : run.record.status = .running := congrArg Snapshot.status spares
  have result : run.record.result = .pending := congrArg Snapshot.result spares
  refine ⟨goesOn.place_eq, goesOn.placed (begun_isPlaced _ _ _ _), ?_, phase⟩
  rw [Agrees, phase, status, result]
  exact .running

/-- A run that is opened agrees with its record, if the one on disk does. -/
theorem opens_agrees {run : Run} (tells : machine.disk.TellsAgreeing place)
    (opens : openAt place machine = .ok run machine) :
    run.Agrees ∧ run.phase ≠ .resuming := by
  obtain ⟨report, opening⟩ := openAt_eq_ok_iff.1 opens
  rcases openReporting_cases place machine with
    ⟨found, loaded, finds, read, phase, -⟩ | ⟨error, unopened⟩
  · cases finds.symm.trans opening
    have told : run.IsTold := by
      rw [IsTold, phase]
      exact Phase.isTold_ofRecord run.record
    refine ⟨agrees_iff.2 ⟨told, tells.of_read read⟩, ?_⟩
    rw [phase, Phase.ofRecord]
    split <;> simp
  · cases unopened.symm.trans opening

end Run

/-! ## What is handed down -/

/-- A run as a process has it in hand: the phase agrees with the record, and the record on disk
agrees. -/
structure LiveRun.Keeps (place : Place) (live : LiveRun) : Prop where
  place_eq : live.run.place = place
  placed : live.standing.IsPlaced
  agrees : live.run.Agrees
  tells : live.machine.disk.TellsAgreeing place

namespace LiveRun

/-- A run that was just begun, and what was done until then. -/
theorem BegunFrom.keeps (begun : live.BegunFrom place machine)
    (tells : machine.disk.TellsAgreeing place) :
    { run := live.run, machine : LiveRun }.Keeps place ∧ live.run.phase ≠ .resuming ∧
      LetsGo False { run := live.run, machine } live := by
  cases begun with
  | opened opens =>
      obtain ⟨here, placed, -⟩ := (LiveRun.Begun.opened opens).placed
      obtain ⟨agrees, other⟩ := opens_agrees tells opens
      exact ⟨⟨here, placed, agrees, tells⟩, other, (GoesOn.refl _).letsGo⟩
  | @start after runId asked config run started =>
      obtain ⟨here, placed, agrees, phase⟩ := start_keeps started
      obtain ⟨released, writes⟩ := start_attests (absent_of_start started) (.inl ⟨_, started⟩)
      have goesOn : GoesOn False { run, machine } { run, machine := after } := by
        refine ⟨⟨rfl, rfl, id, id, .inr, fun _ _ => ?_⟩, rfl, released⟩
        exact here ▸ writes
      exact ⟨⟨here, placed, agrees, tells⟩, by simp [phase], goesOn.letsGo⟩

/-- What a process does with a run keeps it as it should be, wherever the process is killed. -/
theorem Keeps.leaves {handing : Prop} (keeps : live.Keeps place)
    (attests : Attests handing live ended) {changes : List Change} {k : Nat}
    (log : ended.machine.log = live.machine.log ++ changes)
    (killed : live.machine.disk.replay (changes.take k) = .ok disk) : disk.TellsAgreeing place := by
  obtain ⟨rfl, placed, agrees, tells⟩ := keeps
  obtain ⟨made, sameLog, -, all⟩ := attests.writes placed (Run.agrees_iff.1 agrees).2
  obtain rfl := List.append_cancel_left (log.symm.trans sameLog)
  exact tells.replayed (fun change inside => all change (List.mem_of_mem_take inside)) killed

theorem Keeps.kept {handing : Prop} (keeps : live.Keeps place)
    (attests : Attests handing live ended) (agrees : ended.run.Agrees) : ended.Keeps place := by
  obtain ⟨changes, log, replayed, -⟩ :=
    attests.writes keeps.placed (Run.agrees_iff.1 keeps.agrees).2
  rw [← changes.take_length] at replayed
  exact ⟨attests.place_eq.trans keeps.place_eq, attests.placed keeps.placed, agrees,
    keeps.leaves attests log replayed⟩

theorem Does.letsGo (does : live.Does ended) (agrees : live.run.Agrees) :
    LetsGo True live ended ∧ ended.run.Agrees := by
  obtain ⟨deeds, -, rfl⟩ := does
  exact afterDeeds_letsGo agrees deeds

end LiveRun

/-- Every record that is handed down agrees, whatever became of the processes before. -/
theorem HandedDown.tells (handed : HandedDown place disk) : disk.TellsAgreeing place := by
  induction handed with
  | nothing absent => exact .of_isRun_eq_false absent
  | start absent starts log killed =>
      obtain ⟨-, changes, sameLog, -, agrees⟩ := start_attests absent starts
      obtain rfl := List.append_cancel_left (log.symm.trans sameLog)
      exact (Disk.TellsAgreeing.of_isRun_eq_false absent).replayed
        (fun change inside => agrees change (List.mem_of_mem_take inside)) killed
  | used handed begun log killed ih =>
      obtain ⟨keeps, -, letsGo⟩ := begun.keeps ih
      have now := keeps.kept letsGo.toAttests keeps.agrees
      exact now.leaves (LiveRun.afterDeeds_letsGo now.agrees _).1.toAttests log killed
  | @recovered machine after coordinator kept report changes k disk handed storable recovers log
      killed ih =>
      rcases Coordinator.recoverRun_does storable recovers with
        ⟨-, unchanged⟩ | ⟨opened, run, opens, -, -, does⟩
      · obtain rfl : changes = [] := by simpa [unchanged] using log
        rw [List.take_nil] at killed
        obtain rfl := Except.ok.inj killed
        exact ih
      · obtain ⟨keeps, -, -⟩ := (LiveRun.BegunFrom.opened opens).keeps ih
        exact keeps.leaves (does.letsGo keeps.agrees).1.toAttests log killed

/-- A run that a process has in hand is as it should be, and so it was when the process began it;
the host was told to let go of it if it was ended in between. -/
theorem LiveRun.Owned.sound {since : LiveRun} {atWork : Bool}
    (owned : Owned place since atWork live) :
    since.Keeps place ∧ since.run.phase ≠ .resuming ∧ LetsGo (atWork = true) since live ∧
      live.run.Agrees := by
  induction owned with
  | begun handed begun =>
      obtain ⟨keeps, other, letsGo⟩ := begun.keeps handed.tells
      exact ⟨keeps, other, letsGo.mono nofun, keeps.agrees⟩
  | @handedOver machine opened handed opens running =>
      obtain ⟨keeps, other, -⟩ := (LiveRun.BegunFrom.opened opens).keeps handed.tells
      obtain ⟨letsGo, agrees⟩ :=
        (LiveRun.Does.resuming opened machine).letsGo keeps.agrees
      exact ⟨keeps, other, letsGo.mono fun _ => rfl, agrees⟩
  | @recovered machine after coordinator kept opened run report handed storable opens recovers
      taken =>
      obtain ⟨keeps, other, -⟩ := (LiveRun.BegunFrom.opened opens).keeps handed.tells
      rcases Coordinator.recoverRun_does storable recovers with
        ⟨none, -⟩ | ⟨found, left, finds, same, still, does⟩
      · cases none.symm.trans taken
      · cases finds.symm.trans opens
        obtain rfl := Option.some.inj (same.symm.trans taken)
        obtain ⟨letsGo, agrees⟩ := does.letsGo keeps.agrees
        exact ⟨keeps, other, { letsGo with resumes := fun resuming => absurd resuming still },
          agrees⟩
  | used owned now command ih =>
      obtain ⟨keeps, other, letsGo, agrees⟩ := ih
      obtain ⟨later, agreesNow⟩ := afterDeed_letsGo (.command command) nofun agrees now
      exact ⟨keeps, other, letsGo.trans later, agreesNow⟩

/-- **Phase, record and release agree**: a run was started, and driven by any processes, with any
operations, refused writes, kills and recoveries.  Every record that is on disk meanwhile tells a
result exactly if it tells that the run has ended.  Whenever a process has the run in hand, the
phase agrees with the record in memory, and the run is resuming only while a resumer is at work.
The process tells the host to let go of the run by the deed that ends it, and never otherwise; the
records agree wherever it is killed; and if the run has ended, no deed changes anything. -/
theorem LiveRun.Owned.keeps_lifecycle {since : LiveRun} {atWork : Bool}
    (owned : Owned place since atWork live) (now : Instant) (deed : Deed) :
    (∀ disk, HandedDown place disk → disk.TellsAgreeing place) ∧
      live.run.Agrees ∧ (live.run.phase = .resuming → atWork = true) ∧
      live.machine.released = since.machine.released ++ since.letGo live ∧
      (live.afterDeed now deed).machine.released =
        live.machine.released ++ live.letGo (live.afterDeed now deed) ∧
      (∃ changes, (live.afterDeed now deed).machine.log = live.machine.log ++ changes ∧
        ∀ k disk, live.machine.disk.replay (changes.take k) = .ok disk →
          disk.TellsAgreeing place) ∧
      (live.run.phase.isComplete = true → live.afterDeed now deed = live.atTime now) := by
  obtain ⟨since, other, letsGo, agrees⟩ := owned.sound
  have keeps := since.kept letsGo.toAttests agrees
  obtain ⟨later, -⟩ := afterDeed_letsGo deed (fun _ => True.intro) agrees now
  obtain ⟨changes, log, -⟩ := later.writes keeps.placed (Run.agrees_iff.1 agrees).2
  refine ⟨fun _ => HandedDown.tells, agrees, fun resuming => ?_, letsGo.released_eq,
    later.released_eq, ⟨changes, log, fun k disk => keeps.leaves later.toAttests log⟩,
    fun ended => afterDeed_of_ended ended now deed⟩
  exact (letsGo.resumes resuming).resolve_right other

/-- A run is started and finished: the host is told so by the finish, and nothing is done after. -/
theorem let_go_by_finish : ∃ run started ended,
    Run.start .sample "sample" none .default .blank = .ok run started ∧ run.Agrees ∧
      started.released = [] ∧
      LiveRun.afterDeed { run, machine := started } .sample (.command (.finish .ok)) = ended ∧
      ended.run.Agrees ∧ ended.machine.released = ["sample"] ∧
      ∀ now deed, ended.afterDeed now deed = ended.atTime now := by
  have passed : Run.passes (fun run started =>
      let ended := LiveRun.afterDeed { run, machine := started } .sample (.command (.finish .ok))
      decide (run.runId = "sample") && decide (run.phase.isComplete = false) &&
        decide (ended.run.phase.isComplete = true))
      (Run.start .sample "sample" none .default .blank) = true := by
    decide +kernel
  obtain ⟨run, started, begins, holds⟩ := Run.of_passes passed
  simp only [Bool.and_eq_true, decide_eq_true_eq] at holds
  obtain ⟨⟨runId, running⟩, complete⟩ := holds
  have empty : RunFiles.isRun Machine.blank.disk .sample = false := by decide +kernel
  have owned : LiveRun.Owned .sample { run, machine := .blank } false { run, machine := started } :=
    .begun (.nothing empty) (.start begins)
  obtain ⟨-, agrees, -, before, told, -, -⟩ :=
    owned.keeps_lifecycle .sample (.command (.finish .ok))
  have untold : started.released = [] := by
    simpa [LiveRun.letGo, running, Machine.blank] using before
  refine ⟨run, started, _, begins, agrees, untold, rfl, ?_, ?_, fun now deed => ?_⟩
  · obtain ⟨-, agrees, -⟩ :=
      (owned.used .sample (.finish .ok)).keeps_lifecycle .sample .leaveResuming
    exact agrees
  · simpa [LiveRun.letGo, running, complete, runId, untold] using told
  · obtain ⟨-, -, -, -, -, -, still⟩ :=
      (owned.used .sample (.finish .ok)).keeps_lifecycle now deed
    exact still complete

end Owned
end DurableRuns
