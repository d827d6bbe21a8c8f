/-
# DurableRuns.Proofs.Recovery.Alone -- a directory is recovered as if it were alone

What a recovery finds in a directory, what it reports, and what it leaves there depend on the disk
only as far as this directory goes (`Coordinator.recoverRun_alone`).  The names of the files in it
must be plain names, as the names of files are.
-/
import DurableRuns.Proofs.Recovery.Verdict
import DurableRuns.Proofs.Run.Local

namespace DurableRuns

set_option autoImplicit false

open NodeStore (directoryName batchFileName)
open Run RunM

/-- The names in the directory of a run's nodes are plain names. -/
def Place.HasPlainNames (place : Place) (disk : Disk) : Prop :=
  ∀ name, disk.at? (place.path ++ [directoryName] ++ [name]) ≠ none → Place.IsStep name

section Alone

variable {place : Place} {disk : Disk} {machine other : Machine}

/-! ## Opening -/

namespace NodeStore

/-- The store of a run is at the place of the run. -/
theorem isAt_ofRun (disk : Disk) (place : Place) (hint : Hint) :
    (ofRun disk place hint).IsAt place := by
  rw [ofRun]
  cases hint.storageKind with
  | immediate => rfl
  | batched =>
      simp only [openBatched]
      split
      · split
        · rfl
        · rfl
      · rfl

theorem ofRun_of_within {disk' : Disk} (same : disk'.within place.path = disk.within place.path)
    (hint : Hint) : ofRun disk' place hint = ofRun disk place hint := by
  have inside := (RunFiles.batchFile_isInside place).1
  have stands : disk'.exists? (place.join batchFileName).path =
      disk.exists? (place.join batchFileName).path := by
    rw [Disk.exists?, Disk.at?_of_within same (.inl inside), Disk.exists?]
  rw [ofRun, ofRun, openBatched, openBatched, stands, Disk.readJson_of_within same inside]

theorem readFiles_of_within {disk' : Disk} {directory : Place}
    (same : disk'.within place.path = disk.within place.path)
    (inside : place.path <+: directory.path) {names : List String}
    (plain : ∀ name ∈ names, Place.IsStep name) :
    readFiles disk' directory names = readFiles disk directory names := by
  induction names with
  | nil => rfl
  | cons name rest ih =>
      have file : place.path <+: (directory.join name).path := by
        rw [directory.path_join (plain name List.mem_cons_self)]
        exact inside.trans (List.prefix_append ..)
      have later := ih fun other below => plain other (List.mem_cons_of_mem _ below)
      simp only [readFiles, later, Disk.readJson_of_within same file]

/-- The nodes of a run are loaded from its directory alone. -/
theorem readAll_alone {store : NodeStore} (isAt : store.IsAt place)
    (same : other.disk.within place.path = machine.disk.within place.path)
    (plain : place.HasPlainNames machine.disk) :
    (∃ loaded, store.readAll machine = .ok loaded machine ∧
        store.readAll other = .ok loaded other) ∨
      ∃ error, store.readAll machine = .error error machine ∧
        store.readAll other = .error error other := by
  cases store with
  | batched file nodes unflushed fault => exact .inl ⟨_, rfl, rfl⟩
  | immediate directory atomic =>
      obtain rfl := isAt
      have inside : place.path <+: (place.join directoryName).path := by
        rw [path_nodeDirectory]
        exact List.prefix_append ..
      rw [readAll, Machine.get_bind, Machine.get_bind, Disk.names_of_within same inside]
      cases listed : machine.disk.names (place.join directoryName).path with
      | ok names =>
          have steps : ∀ name ∈ names, Place.IsStep name := by
            intro name within
            rw [Disk.mem_names listed, path_nodeDirectory] at within
            exact plain name within
          refine .inl ⟨_, rfl, ?_⟩
          simp only [readFiles_of_within same inside steps]
          rfl
      | error fault =>
          cases fault with
          | notFound => exact .inl ⟨_, rfl, rfl⟩
          | _ => exact .inr ⟨_, rfl, rfl⟩

end NodeStore

theorem RunFiles.checkpointOn_of_within {disk' : Disk}
    (same : disk'.within place.path = disk.within place.path) :
    checkpointOn disk' place = checkpointOn disk place := by
  have inside := (checkpointFile_isInside place).1
  rw [checkpointOn, checkpointOn, Disk.exists?, Disk.exists?,
    Disk.at?_of_within same (.inl inside), Disk.readJson_of_within same inside]

/-- A directory is opened with the same, or not for the same reason, on machines that cannot be
told apart from within it. -/
theorem Run.openReporting_alone [Numbering]
    (same : other.disk.within place.path = machine.disk.within place.path)
    (plain : place.HasPlainNames machine.disk) :
    (∃ run report, run.IsAt place ∧ openReporting place machine = .ok (run, report) machine ∧
        openReporting place other = .ok (run, report) other) ∨
      ∃ error, openReporting place machine = .error error machine ∧
        openReporting place other = .error error other := by
  have record : other.disk.readJson (RunFiles.recordFile place).path Record.ofJson? =
      machine.disk.readJson (RunFiles.recordFile place).path Record.ofJson? :=
    Disk.readJson_of_within same (RunFiles.recordFile_isInside place).1
  cases found : machine.disk.readJson (RunFiles.recordFile place).path Record.ofJson? with
  | error fault =>
      have unread (machine : Machine)
          (found : machine.disk.readJson (RunFiles.recordFile place).path Record.ofJson? =
            .error fault) : openReporting place machine = .error fault.toError machine := by
        simp only [openReporting, bind, EStateM.bind, RunFiles.readRecord, Machine.readJson_eq,
          found]
      exact .inr ⟨_, unread machine found, unread other (record.trans found)⟩
  | ok record' =>
      have read := RunFiles.readRecord_eq_ok_of_found found
      have read' := RunFiles.readRecord_eq_ok_of_found (record.trans found)
      have store := NodeStore.ofRun_of_within same record'.hint
      have placed := NodeStore.isAt_ofRun machine.disk place record'.hint
      rcases NodeStore.readAll_alone placed same plain with
        ⟨loaded, listed, listed'⟩ | ⟨error, unlisted, unlisted'⟩
      · refine .inl ⟨_, _, ⟨rfl, placed⟩, openReporting_of_reads read listed, ?_⟩
        rw [openReporting_of_reads read' (store ▸ listed'), store,
          RunFiles.checkpointOn_of_within same]
      · refine .inr ⟨error, ?_, ?_⟩
        · rw [openReporting, Machine.bind_of_ok read, Machine.get_bind]
          simp only [bind, EStateM.bind, unlisted]
        · rw [openReporting, Machine.bind_of_ok read', Machine.get_bind]
          simp only [bind, EStateM.bind, store, unlisted']

/-- A run that is opened on one machine is at its place, and is opened on the other. -/
theorem Run.opens_alone {run : Run} {report : OpeningReport}
    (opens : openReporting place machine = .ok (run, report) machine)
    (same : other.disk.within place.path = machine.disk.within place.path)
    (plain : place.HasPlainNames machine.disk) :
    run.IsAt place ∧ openReporting place other = .ok (run, report) other := by
  rcases openReporting_alone same plain with ⟨_, _, isAt, opens', there⟩ | ⟨_, fails, -⟩
  · cases opens.symm.trans opens'
    exact ⟨isAt, there⟩
  · cases opens.symm.trans fails

/-- A directory that is not opened on one machine is not opened on the other. -/
theorem Run.fails_alone {error : Error}
    (fails : openReporting place machine = .error error machine)
    (same : other.disk.within place.path = machine.disk.within place.path)
    (plain : place.HasPlainNames machine.disk) : openReporting place other = .error error other := by
  rcases openReporting_alone same plain with ⟨_, _, -, opens, -⟩ | ⟨_, fails', there⟩
  · cases fails.symm.trans opens
  · cases fails.symm.trans fails'
    exact there

/-! ## Settling -/

namespace Coordinator

variable {coordinator : Coordinator}

theorem handOver_local [Numbering] (resumer : Resumer) (blob : Bytes) :
    Local place (handOver resumer blob) := by
  refine .bind enterResuming_local fun _ => .current_bind fun run _ => ?_
  refine .bind (Program.run_local _) fun found => ?_
  obtain ⟨verdict, replies⟩ := found
  cases verdict with
  | ok => exact .bind leaveResuming_local fun _ => .pure _
  | error reason => exact .pure _

theorem resume_local [Numbering] (coordinator : Coordinator) (report : OpeningReport) :
    Local place (coordinator.resume report) := by
  refine .current_bind fun run _ => ?_
  split
  · exact .pure _
  · split
    · exact .pure _
    · exact .pure _
    · exact .bind (handOver_local _ _) fun _ => .pure _

theorem settle_local [Numbering] (coordinator : Coordinator) (report : OpeningReport) :
    Local place (coordinator.settle report) := by
  refine .current_bind fun run _ => .bind (resume_local _ _) fun found => ?_
  obtain ⟨call, obstacle⟩ := found
  cases obstacle with
  | none => exact .pure _
  | some obstacle => exact .bind (fail_local _) fun _ => .pure _

/-- A run that is settled is reported as resumed or as failed. -/
theorem settle_unskipped [Numbering]
    (coordinator : Coordinator) (report : OpeningReport) (live : LiveRun) :
    Ends (coordinator.settle report) live (fun found _ => ∀ reason, found.1 ≠ .skipped reason)
      fun _ _ => True := by
  refine .bind (.current (.bind
    ((Ends.trivial _ _).mono (fun found between _ => ?_) fun _ _ => id)))
  obtain ⟨call, obstacle⟩ := found
  cases obstacle with
  | none => exact .pure nofun
  | some obstacle =>
      exact .bind ((Ends.trivial _ _).mono (fun _ _ _ => .pure nofun) fun _ _ => id)

/-- Two coordinators judge a run in the same way: they were told the same of the process before
them, and they have the same resumer. -/
structure JudgesAs (coordinator judge : Coordinator) : Prop where
  termination : judge.termination = coordinator.termination
  resumer : judge.resumer = coordinator.resumer

theorem JudgesAs.settle_eq [Numbering] {judge : Coordinator} (alike : coordinator.JudgesAs judge)
    (report : OpeningReport) : judge.settle report = coordinator.settle report := by
  unfold settle resume
  rw [alike.termination, alike.resumer]

/-- A directory that cannot be opened is left alone, and the host is told to let go of it. -/
theorem takeOn_eq_of_error [Numbering] (coordinator : Coordinator) {error : Error}
    (unopened : openReporting place machine = .error error machine) (name : String) :
    coordinator.takeOn place name machine =
      .ok
        { place, runId := name, outcome := .skipped (.unopenable error), run := none, call := none }
        { machine with released := machine.released ++ [name] } := by
  simp only [takeOn, tryCatch, tryCatchThe, MonadExceptOf.tryCatch, EStateM.tryCatch, bind,
    EStateM.bind, unopened, pure, EStateM.pure]
  rfl

/-- Two coordinators take a directory on, each on a machine, and come to the same. -/
structure TakeOnAlike [Numbering]
    (coordinator judge : Coordinator) (place : Place) (machine other : Machine)
    (report : RecoveryReport) (after after' : Machine) : Prop where
  here : coordinator.takeOn place (directoryNameOf place) machine = .ok report after
  there : judge.takeOn place (directoryNameOf place) other = .ok report after'
  same : after.SameAt place.path after'
  changes : machine.ChangesOnly place after
  place_eq : report.place = place
  unclaimed : report.outcome ≠ .skipped .alreadyClaimed

/-- **A directory is taken on as if it were alone**: on machines that cannot be told apart from
within it, coordinators that judge alike report the same of it and leave it alike, and nothing else
is changed. -/
theorem takeOn_alone [Numbering] {judge : Coordinator} (alike : coordinator.JudgesAs judge)
    (same : machine.SameAt place.path other) (reached : machine.disk.IsReached place.path)
    (plain : place.HasPlainNames machine.disk) :
    ∃ report after after',
      TakeOnAlike coordinator judge place machine other report after after' := by
  rcases openReporting_alone same.disk plain with
    ⟨run, report, isAt, opens, opens'⟩ | ⟨error, fails, fails'⟩
  · have taken := takeOn_eq coordinator opens (directoryNameOf place)
    have taken' := takeOn_eq judge opens' (directoryNameOf place)
    cases complete : run.phase.isComplete with
    | true =>
        rw [complete, if_pos rfl] at taken taken'
        exact ⟨_, _, _, taken, taken', same, .refl place machine, rfl, by rintro ⟨⟩⟩
    | false =>
        have steps : Local place (coordinator.settle report) := settle_local coordinator report
        obtain ⟨outcome, after, after', settles, settles', leaves⟩ :=
          steps { run, machine } { run, machine := other } ⟨isAt, reached⟩ ⟨rfl, same⟩
        obtain ⟨found, left, returns⟩ := settle_returns coordinator report { run, machine }
        cases (Yields.attempt_eq_ok.2 returns).symm.trans settles
        have unskipped := settle_unskipped coordinator report { run, machine }
        rw [Ends, returns] at unskipped
        have runs : (coordinator.settle report).runOn run machine =
            .ok (found, after.run) after.machine := runOn_eq_ok.2 returns
        have runs' : (judge.settle report).runOn run other =
            .ok (found, after.run) after'.machine := by
          rw [alike.settle_eq, ← leaves.same.run]
          exact runOn_eq_ok.2 (Yields.attempt_eq_ok.1 settles')
        rw [complete, runs] at taken
        rw [complete, runs'] at taken'
        exact ⟨_, _, _, taken, taken', leaves.same.machine, leaves.changes, rfl, unskipped _⟩
  · exact ⟨_, _, _, takeOn_eq_of_error coordinator fails _, takeOn_eq_of_error judge fails' _,
      ⟨same.disk, same.refusals, same.now⟩, ⟨rfl, id, id, List.suffix_refl _, rfl⟩, rfl,
      by rintro ⟨⟩⟩

end Coordinator

end Alone
end DurableRuns
