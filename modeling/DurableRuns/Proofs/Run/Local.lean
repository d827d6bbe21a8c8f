/-
# DurableRuns.Proofs.Run.Local -- a run keeps to its directory

What is done with a run depends on the disk only as far as the directory of the run goes, and it
changes nothing outside of it.  `Machine.SameAt` says that two machines cannot be told apart from
within a directory; a step that is `Local` to a place comes to the same on both of them, leaves
them alike, and leaves all that is beside the directory as it was.

Every operation on a run is local to its directory, and so is every program that drives it
(`Program.run_local`).
-/
import DurableRuns.Proofs.Disk.Parts
import DurableRuns.Proofs.Run.Memory

namespace DurableRuns

set_option autoImplicit false

open NodeStore (directoryName batchFileName nodeFile)

/-! ## What can be seen from a directory -/

namespace Machine

/-- Two machines cannot be told apart from within a directory: it holds the same, the device
refuses the same changes to come, and the time is the same. -/
structure SameAt (directory : Path) (machine other : Machine) : Prop where
  disk : other.disk.within directory = machine.disk.within directory
  refusals : other.refusals = machine.refusals
  now : other.now = machine.now

/-- Nothing was changed but in the directory at a place.  A record that was there is there, and no
file is in the place of the directory of the nodes unless one was. -/
structure ChangesOnly (place : Place) (before after : Machine) : Prop where
  beside : after.disk.beside place.path = before.disk.beside place.path
  record : RunFiles.isRun before.disk place = true → RunFiles.isRun after.disk place = true
  nodes : before.disk.isFile (place.join directoryName).path = false →
    after.disk.isFile (place.join directoryName).path = false
  refusals : after.refusals <:+ before.refusals
  now : after.now = before.now

variable {place : Place} {directory : Path} {machine between other after : Machine}

theorem SameAt.refl (directory : Path) (machine : Machine) : machine.SameAt directory machine :=
  ⟨rfl, rfl, rfl⟩

theorem ChangesOnly.refl (place : Place) (machine : Machine) : machine.ChangesOnly place machine :=
  ⟨rfl, id, id, List.suffix_refl _, rfl⟩

theorem ChangesOnly.trans (first : machine.ChangesOnly place between)
    (second : between.ChangesOnly place after) : machine.ChangesOnly place after where
  beside := second.beside.trans first.beside
  record := fun stands => second.record (first.record stands)
  nodes := fun free => second.nodes (first.nodes free)
  refusals := second.refusals.trans first.refusals
  now := second.now.trans first.now

end Machine

/-- A change of a file in the directory of a run, that does not remove its record and writes no
file in the place of the directory of its nodes. -/
structure Change.IsOwn (place : Place) (change : Change) : Prop where
  isWithin : change.IsWithin place.path
  keepsRecord : change ≠ .remove (RunFiles.recordFile place).path
  sparesNodes : ∀ content atomic, change ≠ .write (place.join directoryName).path content atomic

theorem Disk.isFile_iff (disk : Disk) (path : Path) :
    disk.isFile path = true ↔ ∃ content, disk.at? path = some (.file content) := by
  unfold isFile
  split
  next content here => exact ⟨fun _ => ⟨content, here⟩, fun _ => rfl⟩
  next none => exact ⟨nofun, fun ⟨content, here⟩ => absurd here (none content)⟩

namespace Change

variable {place : Place} {change : Change} {disk made : Disk}

/-- A change of a run's own leaves its record a file. -/
theorem isRun_of_apply (own : change.IsOwn place) (ok : change.apply disk = .ok made)
    (stands : RunFiles.isRun disk place = true) : RunFiles.isRun made place = true := by
  rw [RunFiles.isRun, Disk.isFile_iff] at stands ⊢
  obtain ⟨content, here⟩ := stands
  cases change with
  | makeDirectories => exact own.isWithin.elim
  | write path written =>
      by_cases same : (RunFiles.recordFile place).path = path
      · exact ⟨written, (Disk.at?_write ok _).trans (if_pos same)⟩
      · exact ⟨content, Disk.staysAt_of_write ok same content here⟩
  | remove path =>
      have other : (RunFiles.recordFile place).path ≠ path :=
        fun same => own.keepsRecord (same ▸ rfl)
      exact ⟨content, Disk.staysAt_of_remove ok other content here⟩

/-- It puts no file in the place of the directory of the nodes. -/
theorem isFile_nodes_of_apply (own : change.IsOwn place) (ok : change.apply disk = .ok made)
    (free : disk.isFile (place.join directoryName).path = false) :
    made.isFile (place.join directoryName).path = false := by
  rw [← Bool.not_eq_true, Disk.isFile_iff] at free ⊢
  rintro ⟨content, here⟩
  rcases Disk.file_of_apply ok here with ⟨atomic, written⟩ | stood
  · exact own.sparesNodes content atomic written
  · exact free ⟨content, stood⟩

end Change

namespace Machine

variable {place : Place} {change : Change} {machine other : Machine}

/-- A change in a directory is made, or is not, on machines that cannot be told apart from there;
they are alike then. -/
theorem SameAt.attempt {directory : Path} (same : machine.SameAt directory other)
    (inside : change.IsWithin directory) :
    (other.attempt change).2 = (machine.attempt change).2 ∧
      (machine.attempt change).1.SameAt directory (other.attempt change).1 := by
  have alike : (change.apply other.disk).map (·.within directory) =
      (change.apply machine.disk).map (·.within directory) := by
    rw [← Change.apply_within inside, ← Change.apply_within inside, same.disk]
  unfold Machine.attempt
  rw [same.refusals]
  split
  · exact ⟨rfl, same.disk, rfl, same.now⟩
  · cases there : change.apply other.disk with
    | error fault' =>
        cases here : change.apply machine.disk with
        | error fault =>
            rw [here, there] at alike
            cases alike
            exact ⟨rfl, same.disk, rfl, same.now⟩
        | ok disk =>
            rw [here, there] at alike
            cases alike
    | ok disk' =>
        cases here : change.apply machine.disk with
        | error fault =>
            rw [here, there] at alike
            cases alike
        | ok disk =>
            rw [here, there] at alike
            exact ⟨rfl, Except.ok.inj alike, rfl, same.now⟩

/-- A change of a run's own, made or not, changes nothing but in the directory of the run. -/
theorem ChangesOnly.attempt (own : change.IsOwn place)
    (reached : machine.disk.IsReached place.path) :
    machine.ChangesOnly place (machine.attempt change).1 := by
  have refusals := List.tail_suffix machine.refusals
  unfold Machine.attempt
  split
  · exact ⟨rfl, id, id, refusals, rfl⟩
  · split
    next disk made =>
      exact ⟨Change.beside_of_apply own.isWithin reached made, Change.isRun_of_apply own made,
        Change.isFile_nodes_of_apply own made, refusals, rfl⟩
    next => exact ⟨rfl, id, id, refusals, rfl⟩

theorem commit_eq (change : Change) (toError : DiskFault → Error) (machine : Machine) :
    commit change toError machine =
      match (machine.attempt change).2 with
      | none => .ok () (machine.attempt change).1
      | some fault => .error (toError fault) (machine.attempt change).1 := by
  rw [commit]
  cases machine.attempt change with
  | mk machine fault => cases fault <;> rfl

end Machine

/-- The store of a run keeps the nodes in the directory at a place. -/
def NodeStore.IsAt (place : Place) : NodeStore → Prop
  | .immediate directory _ => directory = place.join directoryName
  | .batched file _ _ _ => file = place.join batchFileName

/-- The directory of a run is at a place. -/
structure Run.IsAt (place : Place) (run : Run) : Prop where
  place_eq : run.place = place
  store : run.store.IsAt place

namespace LiveRun

/-- The directory of a run is at a place, and stands. -/
structure IsAt (place : Place) (live : LiveRun) : Prop where
  run : live.run.IsAt place
  reached : live.machine.disk.IsReached place.path

/-- A run is the same on two machines that cannot be told apart from within its directory. -/
structure SameAt (place : Place) (live other : LiveRun) : Prop where
  run : other.run = live.run
  machine : live.machine.SameAt place.path other.machine

/-- What a step leaves on the one machine and on the other. -/
structure Leaves (place : Place) (live after after' : LiveRun) : Prop where
  isAt : after.IsAt place
  same : after.SameAt place after'
  changes : live.machine.ChangesOnly place after.machine

end LiveRun

namespace RunM

variable {α β : Type}

/-- A step on a run at a place comes to the same on machines that cannot be told apart from within
the directory there, leaves them alike, and changes nothing but in this directory. -/
def Local (place : Place) (step : RunM α) : Prop :=
  ∀ live other : LiveRun, live.IsAt place → live.SameAt place other →
    ∃ outcome after after', attempt step live = .ok outcome after ∧
      attempt step other = .ok outcome after' ∧ live.Leaves place after after'

theorem attempt_bind_of_ok {step : RunM α} {live between : LiveRun} {value : α}
    (done : attempt step live = .ok (.ok value) between) (next : α → RunM β) :
    attempt (step >>= next) live = attempt (next value) between := by
  have first := Yields.attempt_eq_ok.1 done
  simp only [attempt, Bind.bind, EStateM.bind, first]

theorem attempt_bind_of_error {step : RunM α} {live after : LiveRun} {error : Error}
    (failed : attempt step live = .ok (.error error) after) (next : α → RunM β) :
    attempt (step >>= next) live = .ok (.error error) after := by
  have first := Yields.attempt_eq_error.1 failed
  simp only [attempt, Bind.bind, EStateM.bind, first]

namespace Local

variable {place : Place}

theorem pure (value : α) : Local place (Pure.pure value) :=
  fun live other isAt same => ⟨.ok value, live, other, rfl, rfl, isAt, same, .refl place _⟩

theorem throw (error : Error) : Local place (MonadExcept.throw error : RunM α) :=
  fun live other isAt same => ⟨.error error, live, other, rfl, rfl, isAt, same, .refl place _⟩

/-- Two steps one after the other, of which the first gives a value that meets a condition. -/
theorem bind_of {step : RunM α} {next : α → RunM β} {meets : α → Prop} (first : Local place step)
    (gives : ∀ live : LiveRun, live.IsAt place →
      Ends step live (fun value _ => meets value) fun _ _ => True)
    (second : ∀ value, meets value → Local place (next value)) :
    Local place (step >>= next) := by
  intro live other isAt same
  obtain ⟨outcome, between, between', here, there, leaves⟩ := first live other isAt same
  cases outcome with
  | error error =>
      exact ⟨.error error, between, between', attempt_bind_of_error here next,
        attempt_bind_of_error there next, leaves⟩
  | ok value =>
      have met : meets value := by
        have ends := gives live isAt
        rwa [Ends, Yields.attempt_eq_ok.1 here] at ends
      obtain ⟨outcome, after, after', here', there', leaves'⟩ :=
        second value met between between' leaves.isAt leaves.same
      refine ⟨outcome, after, after', ?_, ?_, leaves'.isAt, leaves'.same,
        leaves.changes.trans leaves'.changes⟩
      · rw [attempt_bind_of_ok here next, here']
      · rw [attempt_bind_of_ok there next, there']

theorem bind {step : RunM α} {next : α → RunM β} (first : Local place step)
    (second : ∀ value, Local place (next value)) : Local place (step >>= next) :=
  bind_of first (fun live _ => Ends.trivial step live) fun value _ => second value

theorem attempt {step : RunM α} (first : Local place step) : Local place (RunM.attempt step) := by
  intro live other isAt same
  obtain ⟨outcome, after, after', here, there, leaves⟩ := first live other isAt same
  exact ⟨.ok outcome, after, after', Yields.attempt_eq_ok.2 here, Yields.attempt_eq_ok.2 there,
    leaves⟩

/-- A step that looks at the run goes on with one at the place. -/
theorem current_bind {next : Run → RunM β}
    (second : ∀ run : Run, run.IsAt place → Local place (next run)) :
    Local place (RunM.current >>= next) := by
  have current : Local place RunM.current := fun live other isAt same =>
    ⟨.ok live.run, live, other, rfl, same.run ▸ rfl, isAt, same, .refl place _⟩
  exact bind_of current (fun _ isAt => .current isAt.run) second

/-- A step that looks at all may only heed what can be seen from within the directory. -/
theorem get_bind {next : LiveRun → RunM β}
    (heeds : ∀ live other : LiveRun, live.SameAt place other → next other = next live)
    (second : ∀ live, Local place (next live)) : Local place (MonadState.get >>= next) := by
  intro live other isAt same
  have goesOn := second live live other isAt same
  have there : RunM.attempt (MonadState.get >>= next) other = RunM.attempt (next live) other := by
    rw [← heeds live other same]
    rfl
  rw [there]
  exact goesOn

theorem update {change : Run → Run}
    (stays : ∀ run : Run, run.IsAt place → (change run).IsAt place) :
    Local place (RunM.update change) := by
  intro live other isAt same
  exact ⟨.ok (), _, _, rfl, rfl, ⟨stays _ isAt.run, isAt.reached⟩,
    ⟨congrArg change same.run, same.machine⟩, .refl place _⟩

/-- A change of a run's own goes the same way on both machines. -/
theorem commit {change : Change} {toError : DiskFault → Error} (own : change.IsOwn place) :
    Local place (RunM.onMachine (Machine.commit change toError)) := by
  intro live other isAt same
  obtain ⟨fault, alike⟩ := same.machine.attempt own.isWithin
  have changes := Machine.ChangesOnly.attempt own isAt.reached
  refine ⟨match (live.machine.attempt change).2 with
      | none => .ok ()
      | some fault => .error (toError fault),
    { live with machine := (live.machine.attempt change).1 },
    { other with machine := (other.machine.attempt change).1 }, ?_, ?_,
    ⟨isAt.run, isAt.reached.of_beside changes.beside⟩, ⟨same.run, alike⟩, changes⟩
  · simp only [RunM.attempt, RunM.onMachine, Machine.commit_eq]
    cases (live.machine.attempt change).2 <;> rfl
  · simp only [RunM.attempt, RunM.onMachine, Machine.commit_eq, fault]
    cases (live.machine.attempt change).2 <;> rfl

/-- Steps on the machine beneath a run, one after the other. -/
theorem onMachine_bind {step : MachineM α} {next : α → MachineM β}
    (steps : Local place (RunM.onMachine step >>= fun value => RunM.onMachine (next value))) :
    Local place (RunM.onMachine (step >>= next)) := by
  have same : RunM.onMachine (step >>= next) =
      RunM.onMachine step >>= fun value => RunM.onMachine (next value) := by
    funext live
    simp only [RunM.onMachine, Bind.bind, EStateM.bind]
    cases step live.machine <;> rfl
  exact same ▸ steps

/-- A step that looks at the machine may only heed what can be seen from within the directory. -/
theorem onMachine_get_bind {next : Machine → MachineM β}
    (heeds : ∀ machine other : Machine, machine.SameAt place.path other → next other = next machine)
    (second : ∀ machine, Local place (RunM.onMachine (next machine))) :
    Local place (RunM.onMachine (MonadState.get >>= next)) := by
  intro live other isAt same
  have goesOn := second live.machine live other isAt same
  have there : RunM.attempt (RunM.onMachine (MonadState.get >>= next)) other =
      RunM.attempt (RunM.onMachine (next live.machine)) other := by
    rw [← heeds _ _ same.machine]
    rfl
  rw [there]
  exact goesOn

theorem onMachine_pure (value : α) : Local place (RunM.onMachine (Pure.pure value)) := pure value

theorem catches : Catches (Local place) where
  pure := pure
  throw := throw
  look second := current_bind fun run _ => second run
  bind := bind
  attempt := attempt
  noteFault _ := update fun _ isAt => ⟨isAt.place_eq, isAt.store⟩

end Local
end RunM

/-! ## Storing -/

namespace RunFiles

variable {place : Place}

theorem recordFile_isInside (place : Place) : Disk.IsInside place.path (recordFile place).path := by
  rw [path_recordFile]
  exact ⟨List.prefix_append .., by simp⟩

theorem checkpointFile_isInside (place : Place) :
    Disk.IsInside place.path (checkpointFile place).path := by
  rw [path_checkpointFile]
  exact ⟨List.prefix_append .., by simp⟩

theorem nodeFile_isInside (place : Place) (id : Nat) :
    Disk.IsInside place.path (nodeFile (place.join directoryName) id).path := by
  rw [NodeStore.path_nodeFile, NodeStore.path_nodeDirectory, List.append_assoc]
  exact ⟨List.prefix_append .., by simp⟩

theorem batchFile_isInside (place : Place) :
    Disk.IsInside place.path (place.join batchFileName).path := by
  rw [NodeStore.path_batchFile]
  exact ⟨List.prefix_append .., by simp⟩

theorem recordFile_ne_nodeDirectory (place : Place) :
    (recordFile place).path ≠ (place.join directoryName).path := by
  rw [path_recordFile, NodeStore.path_nodeDirectory]
  simp [directoryName]

theorem checkpointFile_ne_nodeDirectory (place : Place) :
    (checkpointFile place).path ≠ (place.join directoryName).path := by
  rw [path_checkpointFile, NodeStore.path_nodeDirectory]
  simp [directoryName]

theorem nodeFile_ne_nodeDirectory (place : Place) (id : Nat) :
    (nodeFile (place.join directoryName) id).path ≠ (place.join directoryName).path := by
  rw [NodeStore.path_nodeFile]
  simp

theorem batchFile_ne_nodeDirectory (place : Place) :
    (place.join batchFileName).path ≠ (place.join directoryName).path := by
  rw [NodeStore.path_batchFile, NodeStore.path_nodeDirectory]
  simp [batchFileName, directoryName]

/-- A file that is written in the directory of a run is a change of the run's own. -/
theorem writes_isOwn {path : Path} (inside : Disk.IsInside place.path path)
    (other : path ≠ (place.join directoryName).path) (content : Bytes) (atomic : Bool) :
    (Change.write path content atomic).IsOwn place :=
  ⟨inside, nofun, fun _ _ same => other (Change.write.inj same).1⟩

theorem removes_isOwn (place : Place) :
    (Change.remove (checkpointFile place).path).IsOwn place := by
  refine ⟨checkpointFile_isInside place, fun same => ?_, nofun⟩
  have files := Change.remove.inj same
  rw [path_checkpointFile, path_recordFile] at files
  simp at files

end RunFiles

namespace Run

open RunM

variable {place : Place}

theorem writeRecord_local {run : Run} (isAt : run.IsAt place) :
    Local place
      (onMachine (RunFiles.writeRecord run.place run.record run.hint.writesAtomically)) := by
  rw [isAt.place_eq]
  exact .commit (RunFiles.writes_isOwn (RunFiles.recordFile_isInside place)
    (RunFiles.recordFile_ne_nodeDirectory place) _ _)

theorem stampRecord_local (flag : CleanFlag) : Local place (stampRecord flag) := by
  refine .get_bind (fun live other same => by simp only [same.machine.now]) fun live => ?_
  refine .bind (.update fun _ isAt => ⟨isAt.place_eq, isAt.store⟩) fun _ => ?_
  refine .current_bind fun run isAt => .bind (writeRecord_local isAt) fun _ => ?_
  exact .update fun _ isAt => ⟨isAt.place_eq, isAt.store⟩

theorem markDirty_local : Local place markDirty := Local.catches.markDirty (stampRecord_local .dirty)

theorem markClean_local : Local place markClean :=
  .current_bind fun _ _ => .bind (.update fun _ isAt => ⟨isAt.place_eq, isAt.store⟩) fun _ =>
    stampRecord_local _

theorem writeCheckpoint_local : Local place writeCheckpoint := by
  refine .current_bind fun run isAt => ?_
  cases run.checkpoint with
  | none => exact .pure ()
  | some checkpoint =>
      refine .bind ?_ fun _ => .update fun _ isAt => ⟨isAt.place_eq, isAt.store⟩
      rw [isAt.place_eq]
      exact .commit (RunFiles.writes_isOwn (RunFiles.checkpointFile_isInside place)
        (RunFiles.checkpointFile_ne_nodeDirectory place) _ _)

/-! ## The store -/

theorem save_local {store : NodeStore} (isAt : store.IsAt place) (node : Node) :
    Local place (onMachine (store.save node)) := by
  rw [NodeStore.save_eq]
  cases store with
  | immediate directory atomic =>
      obtain rfl := isAt
      refine .onMachine_bind (.bind ?_ fun _ => .onMachine_pure _)
      exact .commit (RunFiles.writes_isOwn (RunFiles.nodeFile_isInside place node.id)
        (RunFiles.nodeFile_ne_nodeDirectory place node.id) _ _)
  | batched file nodes unflushed fault => exact .onMachine_pure _

theorem save_isAt {store : NodeStore} (isAt : store.IsAt place) (node : Node) (live : LiveRun) :
    Ends (onMachine (store.save node)) live (fun saved _ => saved.IsAt place) fun _ _ => True := by
  rw [NodeStore.save_eq]
  cases store with
  | immediate directory atomic =>
      exact .onMachine_bind (.commit (fun _ _ => .onMachine_pure isAt) fun _ => True.intro)
  | batched file nodes unflushed fault => exact .onMachine_pure isAt

theorem storeNode_local (node : Node) : Local place (storeNode node) := by
  rw [storeNode_eq]
  refine .current_bind fun run isAt => ?_
  refine .bind_of (save_local isAt.store node) (fun live _ => save_isAt isAt.store node live) ?_
  exact fun saved placed => .update fun _ isAt => ⟨isAt.place_eq, placed⟩

theorem storeStep_local (node : Node) : Local place (storeStep node) :=
  Local.catches.storeStep storeNode_local node

theorem flush_isAt {store : NodeStore} (isAt : store.IsAt place) (live : LiveRun) :
    Ends (onMachine store.flush) live (fun flushed _ => flushed.IsAt place) fun _ _ => True := by
  rw [NodeStore.flush_eq]
  cases store with
  | immediate directory atomic => exact .onMachine_pure isAt
  | batched file nodes unflushed fault =>
      refine .onMachine_bind (.onMachine_get ?_)
      split
      · exact .onMachine_pure isAt
      · exact .onMachine_bind (.commit (fun _ _ => .onMachine_pure isAt) fun _ => True.intro)

theorem storeFlush_local {store : NodeStore} (isAt : store.IsAt place) :
    Local place (onMachine store.flush) := by
  rw [NodeStore.flush_eq]
  cases store with
  | immediate directory atomic => exact .onMachine_pure _
  | batched file nodes unflushed fault =>
      obtain rfl := isAt
      have inside := RunFiles.batchFile_isInside place
      refine .onMachine_get_bind (fun machine other same => ?_) fun machine => ?_
      · have stands : other.disk.exists? (place.join batchFileName).path =
            machine.disk.exists? (place.join batchFileName).path := by
          rw [Disk.exists?, Disk.at?_of_within same.disk (.inl inside.1), Disk.exists?]
        rw [stands]
      · split
        · exact .onMachine_pure _
        · refine .onMachine_bind (.bind ?_ fun _ => .onMachine_pure _)
          exact .commit
            (RunFiles.writes_isOwn inside (RunFiles.batchFile_ne_nodeDirectory place) _ _)

theorem flushStore_local : Local place flushStore := by
  rw [flushStore_eq]
  refine .current_bind fun run isAt => ?_
  refine .bind_of (storeFlush_local isAt.store) (fun live _ => flush_isAt isAt.store live) ?_
  exact fun flushed placed => .update fun _ isAt => ⟨isAt.place_eq, placed⟩

theorem reachSafePoint_local : Local place reachSafePoint :=
  Local.catches.reachSafePoint flushStore_local writeCheckpoint_local markClean_local

/-! ## The end of a run -/

theorem removeCheckpoint_local : Local place (onMachine (RunFiles.removeCheckpoint place)) := by
  have inside := (RunFiles.checkpointFile_isInside place).1
  refine .onMachine_get_bind (fun machine other same => ?_) fun machine => ?_
  · simp only [Disk.at?_of_within same.disk (.inl inside), Disk.missing_of_within same.disk inside]
  · simp only []
    split
    · exact .onMachine_pure ()
    · exact .commit (RunFiles.removes_isOwn place)

theorem persistEnd_local (nodes : List Node) (result : RunResult) :
    Local place (persistEnd nodes result) := by
  have stores : Local place (nodes.forM storeStep) :=
    Local.catches.forM fun node _ => storeStep_local node
  refine .bind markDirty_local fun _ => .bind stores fun _ => .bind flushStore_local fun _ => ?_
  refine .bind (.update fun _ isAt => ⟨isAt.place_eq, isAt.store⟩) fun _ => ?_
  refine .bind markClean_local fun _ => .current_bind fun run isAt => ?_
  rw [isAt.place_eq]
  exact removeCheckpoint_local

theorem release_local : Local place release := by
  intro live other isAt same
  have changes : live.machine.ChangesOnly place
      { live.machine with released := live.machine.released ++ [live.run.runId] } :=
    ⟨rfl, id, id, List.suffix_refl _, rfl⟩
  exact ⟨.ok (), _, _, rfl, rfl, ⟨isAt.run, isAt.reached⟩,
    ⟨same.run, same.machine.disk, same.machine.refusals, same.machine.now⟩, changes⟩

theorem conclude_local (nodes : List Node) (result : RunResult) :
    Local place (conclude nodes result) := by
  refine .bind (Local.catches.noted (persistEnd_local nodes result)) fun _ => ?_
  exact .bind (.update fun _ isAt => ⟨isAt.place_eq, isAt.store⟩) fun _ => release_local

theorem endAsFailed_local [Numbering] (reason : String) : Local place (endAsFailed reason) :=
  .current_bind fun _ _ => .bind (.update fun _ isAt => ⟨isAt.place_eq, isAt.store⟩) fun _ =>
    conclude_local _ _

/-! ## Operations -/

theorem grow_local [Numbering]
    (kind : NodeKind) (parents : List Nat) (name : String) (actions : List Action) :
    Local place (grow kind parents name actions) := by
  rw [grow_eq]
  refine .get_bind (fun live other same => ?_) fun live => ?_
  · simp only [same.run, same.machine.now]
  · split
    · exact .throw _
    · exact .bind (.update fun _ isAt => ⟨isAt.place_eq, isAt.store⟩) fun _ => .pure _

theorem growOrClose_local [Numbering] (kind : NodeKind) (parents : List Nat) (name : String)
    (actions : List Action) : Local place (growOrClose kind parents name actions) :=
  Local.catches.growOrClose (grow_local kind parents name actions) endAsFailed_local

theorem wrapUp_local (node : Node) (point : Bool) : Local place (wrapUp node point) :=
  Local.catches.wrapUp reachSafePoint_local markClean_local node point

theorem append_local [Numbering] (draft : NodeDraft) : Local place (append draft) :=
  Local.catches.append (fun _ => growOrClose_local _ _ _ _) fun node =>
    Local.catches.storing node markDirty_local (storeStep_local node) (wrapUp_local node _)

theorem attach_local (id : Nat) (action : Action) : Local place (attach id action) :=
  Local.catches.attach (fun _ => .update fun _ isAt => ⟨isAt.place_eq, isAt.store⟩) fun node =>
    Local.catches.storing node markDirty_local (storeNode_local node)
      (.current_bind fun _ _ => wrapUp_local node _)

theorem takeCheckpoint_local (blob : Bytes) : Local place (takeCheckpoint blob) := by
  rw [takeCheckpoint_eq]
  refine .bind (Local.catches.requireLive .checkpoint) fun _ => .get_bind ?_ fun live => ?_
  · exact fun live other same => by simp only [same.machine.now]
  refine .bind (.update fun _ isAt => ⟨isAt.place_eq, isAt.store⟩) fun _ => ?_
  refine .current_bind fun run _ => ?_
  split
  · exact Local.catches.heldCheckpoint markDirty_local reachSafePoint_local
  · split
    · exact Local.catches.promptCheckpoint markDirty_local writeCheckpoint_local markClean_local
    · exact .pure ()

theorem pausing_local : Local place pausing := by
  refine .bind (.update fun _ isAt => ⟨isAt.place_eq, isAt.store⟩) fun _ => ?_
  refine .bind reachSafePoint_local.attempt fun outcome => ?_
  cases outcome with
  | ok => exact .update fun _ isAt => ⟨isAt.place_eq, isAt.store⟩
  | error error =>
      exact .bind (.update fun _ isAt => ⟨isAt.place_eq, isAt.store⟩) fun _ =>
        .bind (Local.catches.noteFault error) fun _ => .throw error

theorem unpausing_local (flag : CleanFlag) : Local place (unpausing flag) :=
  .bind (.update fun _ isAt => ⟨isAt.place_eq, isAt.store⟩) fun _ =>
    .bind (Local.catches.noted (stampRecord_local flag)) fun _ =>
      .update fun _ isAt => ⟨isAt.place_eq, isAt.store⟩

theorem finish_local [Numbering] (outcome : Outcome) : Local place (finish outcome) :=
  Local.catches.finish (fun _ => growOrClose_local _ _ _ _) fun _ => conclude_local _ _

theorem fail_local [Numbering] (reason : String) : Local place (fail reason) :=
  Local.catches.fail (endAsFailed_local reason)

theorem shutdown_local : Local place shutdown := Local.catches.shutdown reachSafePoint_local

theorem enterResuming_local : Local place enterResuming := by
  refine .update fun run isAt => ?_
  split
  · exact ⟨isAt.place_eq, isAt.store⟩
  · exact isAt

theorem leaveResuming_local : Local place leaveResuming := by
  refine .update fun run isAt => ?_
  split
  · exact ⟨isAt.place_eq, isAt.store⟩
  · exact isAt

end Run

/-! ## Programs -/

open RunM

variable {place : Place}

theorem Command.carryOut_local [Numbering] (command : Command) : Local place command.carryOut := by
  cases command with
  | append draft => exact .bind (Run.append_local draft) fun _ => .pure _
  | finish outcome => exact .bind (Run.finish_local outcome) fun _ => .pure _
  | attach id action => exact .bind (Run.attach_local id action) fun _ => .pure _
  | checkpoint blob => exact .bind (Run.takeCheckpoint_local blob) fun _ => .pure _
  | flush => exact .bind (Local.catches.flush Run.reachSafePoint_local) fun _ => .pure _
  | pause => exact .bind (Local.catches.pause Run.pausing_local) fun _ => .pure _
  | unpause => exact .bind (Local.catches.unpause Run.unpausing_local) fun _ => .pure _
  | shutdown => exact .bind Run.shutdown_local fun _ => .pure _
  | look => exact .current_bind fun _ _ => .pure _

theorem Command.perform_local [Numbering] (command : Command) : Local place command.perform :=
  Local.catches.perform command.carryOut_local

/-- A program that drives a run keeps to the directory of the run. -/
theorem Program.run_local [Numbering]
    {α : Type} (program : Program α) : Local place program.run := by
  induction program with
  | result value => exact .pure _
  | ask command next ih =>
      refine .bind command.perform_local.attempt fun reply => ?_
      exact .bind (ih reply) fun _ => .pure _

end DurableRuns
