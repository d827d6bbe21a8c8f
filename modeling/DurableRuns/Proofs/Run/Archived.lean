/-
# DurableRuns.Proofs.Run.Archived -- a run that is closed is archived

A run that cannot go on is closed, whatever directory it was opened from: its graph may lack nodes,
its heads may be recorded twice.  If every change that is asked for meanwhile is made then the run
remembers no failure, and its record is on disk, complete and with the heads that the run has in
memory (`Run.fail_archives`).  From there it is opened as complete
(`Run.IsArchivedOn.opens`).

Whether every change was made is told by the machine: it knows of so many changes to come what
becomes of them, and each that it makes is logged.  A step *persists* if it fails only where a
change was not made, and else leaves the run as it is but for what it wrote.
-/
import DurableRuns.Proofs.Flow.Rooted
import DurableRuns.Proofs.Run.Local
import DurableRuns.Proofs.Run.Mirror

namespace DurableRuns

set_option autoImplicit false

open NodeStore (directoryName batchFileName nodeFile)
open Run RunM

/-! ## Changes that were not made -/

namespace Machine

/-- The changes that were made, and those of which the machine was told what becomes of them. -/
def tally (machine : Machine) : Nat := machine.log.length + machine.refusals.length

/-- From one machine to the other at least some number of changes was asked for and not made, as far
as the machine was told what becomes of them. -/
structure FallsShort (count : Nat) (before after : Machine) : Prop where
  refusals : after.refusals <:+ before.refusals
  tally_le : after.refusals ≠ [] → after.tally + count ≤ before.tally

/-- Every change that was asked for was made: the machine was told of each what becomes of it, and
made as many as it was told of. -/
structure MadeAll (before after : Machine) : Prop where
  told : after.refusals ≠ []
  tally_eq : after.tally = before.tally

variable {machine before between after : Machine} {count more : Nat}

theorem MadeAll.not_fallsShort (made : before.MadeAll after) : ¬ before.FallsShort 1 after := by
  intro short
  have less := short.tally_le made.told
  have same := made.tally_eq
  omega

namespace FallsShort

theorem refl (machine : Machine) : machine.FallsShort 0 machine :=
  ⟨List.suffix_refl _, fun _ => Nat.le_refl _⟩

theorem trans (first : before.FallsShort count between) (second : between.FallsShort more after) :
    before.FallsShort (count + more) after := by
  refine ⟨second.refusals.trans first.refusals, fun told => ?_⟩
  have later := second.tally_le told
  have told' : between.refusals ≠ [] := by
    intro none
    have nothing := second.refusals
    rw [none] at nothing
    exact told (List.suffix_nil.1 nothing)
  have earlier := first.tally_le told'
  omega

theorem zero_trans (first : before.FallsShort 0 between) (second : between.FallsShort count after) :
    before.FallsShort count after := by
  have both := first.trans second
  rwa [Nat.zero_add] at both

theorem zero (short : before.FallsShort count after) : before.FallsShort 0 after := by
  refine ⟨short.refusals, fun told => ?_⟩
  have least := short.tally_le told
  omega

/-- What the host was told does not bear on it. -/
theorem release (short : before.FallsShort count after) (released : List String) :
    before.FallsShort count { after with released } := ⟨short.refusals, short.tally_le⟩

/-- A change is made. -/
theorem changed (machine : Machine) (change : Change) (disk : Disk) :
    machine.FallsShort 0 (machine.changed change disk) := by
  refine ⟨List.tail_suffix _, fun told => ?_⟩
  cases refusals : machine.refusals with
  | nil => simp [Machine.changed, refusals] at told
  | cons first rest =>
      simp [tally, Machine.changed, refusals]
      omega

/-- A change is not made. -/
theorem refused (machine : Machine) (change : Change) :
    machine.FallsShort 1 (machine.missing change) := by
  refine ⟨List.tail_suffix _, fun told => ?_⟩
  cases refusals : machine.refusals with
  | nil => simp [Machine.missing, refusals] at told
  | cons first rest => simp [tally, Machine.missing, refusals, Nat.add_assoc]

end FallsShort
end Machine

/-! ## Steps that persist -/

/-- What a run keeps while it is written: its place and its graph, what its record tells of how it
is kept, and the first write that failed. -/
structure Run.Stays (before after : Run) : Prop where
  place_eq : after.place = before.place
  graph_eq : after.graph = before.graph
  hint_eq : after.record.hint = before.record.hint
  version_eq : after.record.version = before.record.version
  fault_eq : after.storageFault = before.storageFault

/-- A run stays, and every change that was asked for was made or the machine falls short. -/
structure LiveRun.LastsTo (live after : LiveRun) : Prop where
  run : live.run.Stays after.run
  machine : live.machine.FallsShort 0 after.machine

section Archived

variable {live between after : LiveRun} {α β : Type}

theorem Run.Stays.refl (run : Run) : run.Stays run := ⟨rfl, rfl, rfl, rfl, rfl⟩

theorem Run.Stays.trans {first second third : Run} (early : first.Stays second)
    (late : second.Stays third) : first.Stays third where
  place_eq := late.place_eq.trans early.place_eq
  graph_eq := late.graph_eq.trans early.graph_eq
  hint_eq := late.hint_eq.trans early.hint_eq
  version_eq := late.version_eq.trans early.version_eq
  fault_eq := late.fault_eq.trans early.fault_eq

namespace LiveRun.LastsTo

theorem refl (live : LiveRun) : live.LastsTo live := ⟨.refl _, .refl _⟩

theorem trans (first : live.LastsTo between) (second : between.LastsTo after) :
    live.LastsTo after :=
  ⟨first.run.trans second.run, first.machine.trans second.machine⟩

end LiveRun.LastsTo

namespace RunM

/-- A step leaves a run as it is but for what it writes, and fails only if a change was not made. -/
abbrev Persists (step : RunM α) (live : LiveRun) : Prop :=
  Ends step live (fun _ => live.LastsTo) fun _ after => live.machine.FallsShort 1 after.machine

namespace Persists

theorem pure (value : α) : Persists (Pure.pure value) live := Ends.pure (.refl live)

theorem bind {step : RunM α} {next : α → RunM β} (first : Persists step live)
    (second : ∀ value between, live.LastsTo between → Persists (next value) between) :
    Persists (step >>= next) live := by
  refine Ends.bind (first.mono (fun value between goes => ?_) fun _ _ => id)
  exact (second value between goes).mono (fun _ _ => goes.trans) fun _ _ short =>
    goes.machine.zero_trans short

theorem current_bind {next : Run → RunM α} (second : Persists (next live.run) live) :
    Persists (RunM.current >>= next) live := Ends.bind (.current second)

theorem get_bind {next : LiveRun → RunM α} (second : Persists (next live) live) :
    Persists (MonadState.get >>= next) live := Ends.bind (.get second)

theorem update {change : Run → Run} (stays : live.run.Stays (change live.run)) :
    Persists (RunM.update change) live := Ends.update ⟨stays, .refl _⟩

theorem commit {change : Change} {toError : DiskFault → Error} :
    Persists (RunM.onMachine (Machine.commit change toError)) live :=
  Ends.commit (fun disk _ => ⟨.refl _, .changed _ change disk⟩) fun _ => .refused _ _

/-- A change is made, and what was to be given then is given. -/
theorem commit_pure {change : Change} {toError : DiskFault → Error} (value : α) :
    Persists (RunM.onMachine do Machine.commit change toError; Pure.pure value) live :=
  Ends.onMachine_bind (commit.mono (fun _ _ goes => .onMachine_pure goes) fun _ _ => id)

theorem onMachine_get_bind {next : Machine → MachineM α}
    (second : Persists (RunM.onMachine (next live.machine)) live) :
    Persists (RunM.onMachine (MonadState.get >>= next)) live :=
  Ends.onMachine_bind (.onMachine_get second)

end Persists
end RunM

namespace Run

theorem stampRecord_persists (flag : CleanFlag) (live : LiveRun) :
    Persists (stampRecord flag) live := by
  refine .get_bind (.bind (.update ⟨rfl, rfl, rfl, rfl, rfl⟩) fun _ stamped _ => ?_)
  exact .current_bind (.bind .commit fun _ _ _ => .update ⟨rfl, rfl, rfl, rfl, rfl⟩)

theorem markDirty_persists (live : LiveRun) : Persists markDirty live := by
  refine .current_bind ?_
  split
  · exact .pure ()
  · refine Ends.bind (.attempt ((stampRecord_persists .dirty live).mono ?_ ?_))
    · exact fun _ _ goes => .pure goes
    · exact fun _ _ short => .bind (.noteFault (.throw short))

theorem markClean_persists (live : LiveRun) : Persists markClean live :=
  .current_bind (.bind (.update ⟨rfl, rfl, rfl, rfl, rfl⟩) fun _ between _ =>
    stampRecord_persists _ between)

theorem storeNode_persists (node : Node) (live : LiveRun) : Persists (storeNode node) live := by
  have saves : Persists (onMachine (live.run.store.save node)) live := by
    rw [NodeStore.save_eq]
    cases live.run.store with
    | immediate directory atomic => exact .commit_pure _
    | batched file nodes unflushed fault => exact .pure _
  rw [storeNode_eq]
  exact .current_bind (.bind saves fun _ _ _ => .update ⟨rfl, rfl, rfl, rfl, rfl⟩)

/-- A node is stored with the start of the block that it closes, if this is there. -/
theorem storeStep_persists {node : Node} (opened : ∀ start, node.kind.closes = some start →
    live.run.graph.contains start = true) : Persists (storeStep node) live := by
  refine .bind (storeNode_persists node live) fun _ between goes => ?_
  cases closes : node.kind.closes with
  | none => exact .pure ()
  | some start =>
      obtain ⟨found, stored⟩ := (Graph.contains_iff _ _).1 (opened start closes)
      have here : between.run.graph.get? start = some found := goes.run.graph_eq ▸ stored
      refine .current_bind ?_
      simp only [here]
      exact storeNode_persists found between

theorem storeSteps_persists {nodes : List Node} (opened : ∀ node ∈ nodes, ∀ start,
    node.kind.closes = some start → live.run.graph.contains start = true) :
    Persists (nodes.forM storeStep) live := by
  induction nodes generalizing live with
  | nil => exact .pure ()
  | cons node rest ih =>
      refine .bind (storeStep_persists (opened node List.mem_cons_self)) fun _ between goes =>
        ih fun other inside start closes => ?_
      rw [goes.run.graph_eq]
      exact opened other (List.mem_cons_of_mem _ inside) start closes

theorem flushStore_persists (live : LiveRun) : Persists flushStore live := by
  have flushes : Persists (onMachine live.run.store.flush) live := by
    rw [NodeStore.flush_eq]
    cases live.run.store with
    | immediate directory atomic => exact .pure _
    | batched file nodes unflushed fault =>
        refine .onMachine_get_bind ?_
        split
        · exact .pure _
        · exact .commit_pure _
  rw [flushStore_eq]
  exact .current_bind (.bind flushes fun _ _ _ => .update ⟨rfl, rfl, rfl, rfl, rfl⟩)

theorem removeCheckpoint_persists (live : LiveRun) :
    Persists (do onMachine (RunFiles.removeCheckpoint (← current).place)) live := by
  refine .current_bind (.onMachine_get_bind ?_)
  dsimp only
  split
  · exact .pure ()
  · exact .commit

/-- The end of a run persists, if the blocks are there that its last nodes close. -/
theorem persistEnd_persists {nodes : List Node} (opened : ∀ node ∈ nodes, ∀ start,
    node.kind.closes = some start → live.run.graph.contains start = true) (result : RunResult) :
    Persists (persistEnd nodes result) live := by
  refine .bind (markDirty_persists live) fun _ marked goes => ?_
  refine .bind (storeSteps_persists (goes.run.graph_eq ▸ opened)) fun _ stored _ => ?_
  refine .bind (flushStore_persists stored) fun _ flushed _ => ?_
  refine .bind (.update ⟨rfl, rfl, rfl, rfl, rfl⟩) fun _ told _ => ?_
  exact .bind (markClean_persists told) fun _ cleaned _ => removeCheckpoint_persists cleaned

/-! ## The record of a run that has ended -/

/-- The record of a run that has ended is on a disk, with the heads that the run has in memory. -/
def IsArchivedOn (run : Run) (disk : Disk) : Prop :=
  ∃ record : Record,
    disk.at? (RunFiles.recordFile run.place).path = some (.file record.toJson.pretty) ∧
      record.isComplete = true ∧ record.heads = run.graph.heads ∧
      record.hint = run.record.hint ∧ record.version = run.record.version

/-- A run that is told to have ended is archived once its record is marked clean. -/
theorem markClean_archives (ended : live.run.record.isComplete = true) :
    Ends markClean live (fun _ after => after.run.IsArchivedOn after.machine.disk)
      fun _ _ => True := by
  refine .bind (.current (.bind (.update (.bind (.get (.bind (.update (.bind (.current ?_)))))))))
  refine .bind (.commit (fun disk written => .update ?_) fun _ => trivial)
  exact ⟨_, (Disk.at?_write written _).trans (if_pos rfl), ended, rfl, rfl, rfl⟩

theorem removeCheckpoint_archived (archived : live.run.IsArchivedOn live.machine.disk) :
    Ends (do onMachine (RunFiles.removeCheckpoint (← current).place)) live
      (fun _ after => after.run.IsArchivedOn after.machine.disk) fun _ _ => True := by
  refine .bind (.current (.onMachine_bind (.onMachine_get ?_)))
  dsimp only
  split
  · exact .onMachine_pure archived
  · refine .commit (fun disk removed => ?_) fun _ => trivial
    obtain ⟨record, stands, told⟩ := archived
    have still := Disk.staysAt_of_remove removed (RunFiles.recordFile_ne_checkpointFile _) _ stands
    exact ⟨record, still, told⟩

/-- A run of which all was written is archived. -/
theorem persistEnd_archives (nodes : List Node) (result : RunResult) (live : LiveRun) :
    Ends (persistEnd nodes result) live (fun _ after => after.run.IsArchivedOn after.machine.disk)
      fun _ _ => True := by
  have skip {step : RunM Unit} {next : Unit → RunM Unit} {live : LiveRun}
      (later : ∀ between, Ends (next ()) between
        (fun _ after => after.run.IsArchivedOn after.machine.disk) fun _ _ => True) :
      Ends (step >>= next) live (fun _ after => after.run.IsArchivedOn after.machine.disk)
        fun _ _ => True :=
    .bind ((Ends.trivial step live).mono (fun _ between _ => later between) fun _ _ => id)
  refine skip fun _ => skip fun _ => skip fun _ => .bind (.update (.bind ?_))
  exact (markClean_archives rfl).mono (fun _ _ => removeCheckpoint_archived) fun _ _ => id

/-! ## Closing -/

/-- What closing a run comes to, whose graph is closed as another: a failure that the run remembers
is a change that was not made, and where it remembers none it is archived. -/
structure Closes (graph : Graph) (live after : LiveRun) : Prop where
  machine : live.machine.FallsShort 0 after.machine
  told : after.run.storageFault = none ∨ live.machine.FallsShort 1 after.machine
  archived : after.run.storageFault = none →
    Stays { live.run with graph } after.run ∧ after.run.IsArchivedOn after.machine.disk

/-- A run that ends is archived, unless a change was not made. -/
theorem conclude_closes {nodes : List Node} (opened : ∀ node ∈ nodes, ∀ start,
    node.kind.closes = some start → live.run.graph.contains start = true) (result : RunResult)
    (unfailed : live.run.storageFault = none) :
    EndsIn (conclude nodes result) live (Closes live.run.graph live) := by
  refine .bind (.noted (((persistEnd_persists opened result).and
    (persistEnd_archives nodes result live)).mono ?_ ?_))
  · rintro _ after ⟨goes, archived⟩
    have fault : after.run.storageFault = none := goes.run.fault_eq.trans unfailed
    exact .bind (.update ⟨goes.machine.release _, .inl fault,
      fun _ => ⟨⟨goes.run.place_eq, goes.run.graph_eq, goes.run.hint_eq, goes.run.version_eq,
        goes.run.fault_eq⟩, archived⟩⟩)
  · rintro error after ⟨short, -⟩
    exact .bind (.update ⟨short.zero.release _, .inr (short.release _),
      fun none => absurd none (Ends.storageFault_faulted after error)⟩)

/-- **A run that is closed is archived**, unless a change was not made, which the run remembers.
Its graph may be any that was read from a directory. -/
theorem fail_archives (rooted : live.run.graph.IsRooted)
    (running : live.run.phase.isComplete = false) (unfailed : live.run.storageFault = none)
    (reason : String) :
    EndsIn (fail reason) live fun after => ∃ graph, graph.IsRooted ∧ Closes graph live after := by
  refine .bind (.current ?_)
  rw [running]
  refine .bind (.current ?_)
  cases applied : (RepairPlan.make live.run.graph reason).apply live.run.graph with
  | mk graph made =>
      have grows : Graph.IsRooted.Grows live.run.graph graph made := rooted.applyNodes applied
      let repaired : LiveRun := { live with run := { live.run with graph } }
      have closes {nodes : List Node} (opened : ∀ node ∈ nodes, ∀ start,
          node.kind.closes = some start → graph.contains start = true) :
          EndsIn (conclude nodes .failure) repaired fun after =>
            ∃ graph, graph.IsRooted ∧ Closes graph live after :=
        have ends : EndsIn (conclude nodes .failure) repaired (Closes graph repaired) :=
          conclude_closes opened .failure unfailed
        have weaker (after : LiveRun) (closes : Closes graph repaired after) :
            ∃ graph, graph.IsRooted ∧ Closes graph live after :=
          ⟨graph, grows.rooted, closes.machine, closes.told, closes.archived⟩
        ends.mono (fun _ => weaker) fun _ => weaker
      refine .bind (.update ?_)
      cases made with
      | ok nodes => exact closes (grows.opened nodes rfl)
      | error fault => exact closes nofun

end Run
end Archived
end DurableRuns
