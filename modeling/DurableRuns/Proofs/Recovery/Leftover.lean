/-
# DurableRuns.Proofs.Recovery.Leftover -- what is left in the directory of a run

A run passes from one process to the next by its directory: it is started where there is
nothing, and later opened where other processes left it (`Left`).  Any of their writes may have
been refused, and each may have been killed between two writes, at a start too.  So nodes may
be missing, and the record may be an old one.  What is there is orderly all the same
(`Left.remains`): a record, nodes and a continuation that can be read back, whose numbers were
given out.
-/
import DurableRuns.Proofs.Run.Conduct
import DurableRuns.Proofs.Run.Reopening
import DurableRuns.Proofs.Run.Starting

namespace DurableRuns

set_option autoImplicit false

open NodeStore (directoryName batchFileName nodeFile)
open Run RunM

/-- What an image holds is orderly. -/
structure Image.IsOrderly (image : Image) (hint : Hint) (bound : Nat) : Prop where
  record : ∀ record, image.record = some record → record.IsOrderly hint bound
  nodes : image.nodes.IsOrderly bound
  checkpoint : ∀ checkpoint, image.checkpoint = some checkpoint → checkpoint.IsOrderly bound

/-- The directory of a run shows what is orderly. -/
def Disk.ShowsOrderly (disk : Disk) (place : Place) (hint : Hint) (bound : Nat) : Prop :=
  ∃ image, Shows disk place hint.storageKind image ∧ image.IsOrderly hint bound

/-- A run as a process has it at first: started where there is nothing, or opened on the disk that
was left, with a report that meets a condition.  Any write of the start may be refused, and those
that come later. -/
inductive LiveRun.BegunOn (place : Place) (disk : Disk) (meets : OpeningReport → Prop) :
    LiveRun → Prop
  | start {machine after : Machine} {runId : String} {asked : Option Hint} {config : Config}
      {run : Run} (same : machine.disk = disk) (vacant : place.IsVacant disk)
      (started : Run.start place runId asked config machine = .ok run after) :
      BegunOn place disk meets { run, machine := after }
  | opened {machine : Machine} {run : Run} {report : OpeningReport} (same : machine.disk = disk)
      (opens : openReporting place machine = .ok (run, report) machine) (met : meets report) :
      BegunOn place disk meets { run, machine }

/-- The disks that processes left which drove a run at a place, one after the other.  Each had
begun the run, or was killed in the midst of its start, and then did with it whatever it did.  The
device may have refused any write, and a kill may have come between any two; node numbers have 64
bits. -/
inductive Left (place : Place) : Disk → Prop
  | nothing {disk : Disk} (vacant : place.IsVacant disk) : Left place disk
  | start {machine after : Machine} {runId : String} {asked : Option Hint} {config : Config}
      {changes : List Change} {k : Nat} {disk : Disk} (vacant : place.IsVacant machine.disk)
      (starts : (∃ run, Run.start place runId asked config machine = .ok run after) ∨
        ∃ error, Run.start place runId asked config machine = .error error after)
      (log : after.log = machine.log ++ changes)
      (killed : machine.disk.replay (changes.take k) = .ok disk) : Left place disk
  | used {earlier disk : Disk} {live : LiveRun} {deeds : List (Instant × Deed)}
      {changes : List Change} {k : Nat} (left : Left place earlier)
      (begun : live.BegunOn place earlier fun _ => True)
      (storable : ∀ given ∈ deeds, given.2.Storable)
      (fits : (live.afterDeeds deeds).run.graph.Fits)
      (log : (live.afterDeeds deeds).machine.log = live.machine.log ++ changes)
      (killed : live.machine.disk.replay (changes.take k) = .ok disk) : Left place disk

section Leftover

variable {disk after : Disk} {place : Place} {hint : Hint} {bound higher : Nat} {image : Image}

namespace Image.IsOrderly

theorem blank (hint : Hint) (bound : Nat) : Image.blank.IsOrderly hint bound where
  record := fun _ none => by cases none
  nodes := .empty bound
  checkpoint := fun _ none => by cases none

theorem mono (orderly : image.IsOrderly hint bound) (le : bound ≤ higher) :
    image.IsOrderly hint higher where
  record := fun record shown => (orderly.record record shown).mono le
  nodes := orderly.nodes.mono le
  checkpoint := fun checkpoint shown => (orderly.checkpoint checkpoint shown).mono le

/-- An orderly image can be read back, as long as the numbers below its bound have 64 bits. -/
theorem storable (orderly : image.IsOrderly hint bound) (small : bound ≤ UInt64.size) :
    image.Storable where
  record := fun record shown =>
    have below := orderly.record record shown
    ⟨below.version_lt, fun head inside => Nat.lt_of_lt_of_le (below.heads_lt head inside) small⟩
  nodes := fun id node stored => (orderly.nodes id node stored).storable small
  checkpoint := fun checkpoint shown => orderly.checkpoint checkpoint shown small

end Image.IsOrderly

theorem Disk.ShowsOrderly.mono (shows : disk.ShowsOrderly place hint bound) (le : bound ≤ higher) :
    disk.ShowsOrderly place hint higher := by
  obtain ⟨image, shown, orderly⟩ := shows
  exact ⟨image, shown, orderly.mono le⟩

/-! ## Changes -/

/-- An orderly change leaves what is orderly. -/
theorem Disk.ShowsOrderly.changed {change : Change} (shows : disk.ShowsOrderly place hint bound)
    (fits : change.IsOrderly place hint bound) (made : change.apply disk = .ok after) :
    after.ShowsOrderly place hint bound := by
  obtain ⟨image, shown, orderly⟩ := shows
  cases fits with
  | directories =>
      refine ⟨image, shown.congr fun path _ => ?_, orderly⟩
      rw [Disk.at?_makeDirectories made]
      split
      next up => exact (shown.reached path up).symm
      next => rfl
  | @record record atomic fits =>
      obtain ⟨written, ok, shows⟩ := shown.writeRecord record
      obtain rfl := Except.ok.inj (ok.symm.trans made)
      exact ⟨_, shows, { orderly with record := fun _ same => Option.some.inj same ▸ fits }⟩
  | @checkpoint checkpoint atomic fits =>
      obtain ⟨written, ok, shows⟩ := shown.writeCheckpoint checkpoint
      obtain rfl := Except.ok.inj (ok.symm.trans made)
      exact ⟨_, shows, { orderly with checkpoint := fun _ same => Option.some.inj same ▸ fits }⟩
  | @node node atomic kind fits =>
      rw [kind] at shown
      obtain ⟨written, ok, shows⟩ := shown.writeNode node
      obtain rfl := Except.ok.inj (ok.symm.trans made)
      exact ⟨{ image with nodes := image.nodes.insert node }, kind.symm ▸ shows,
        { orderly with nodes := orderly.nodes.insert fits }⟩
  | @batch table atomic kind fits =>
      rw [kind] at shown
      obtain ⟨written, ok, shows⟩ := shown.writeBatch table
      obtain rfl := Except.ok.inj (ok.symm.trans made)
      exact ⟨{ image with nodes := table }, kind.symm ▸ shows, { orderly with nodes := fits }⟩
  | drop =>
      exact ⟨_, shown.of_removeCheckpoint made,
        { orderly with checkpoint := fun _ none => by cases none }⟩

/-- So do any number of them. -/
theorem Disk.ShowsOrderly.replayed {changes : List Change}
    (shows : disk.ShowsOrderly place hint bound)
    (fits : ∀ change ∈ changes, change.IsOrderly place hint bound)
    (made : disk.replay changes = .ok after) : after.ShowsOrderly place hint bound :=
  replay_preserves (fun change inside _ _ before => ShowsOrderly.changed before (fits change inside))
    made shows

/-- What a process leaves that was conducting a run is orderly, wherever it is killed. -/
theorem Conducts.leaves {live ended : LiveRun} (conducts : Conducts live ended)
    (shows : live.machine.disk.ShowsOrderly live.run.place live.run.hint bound)
    (le : ended.run.graph.nextId ≤ bound) {changes : List Change} {k : Nat}
    (log : ended.machine.log = live.machine.log ++ changes)
    (killed : live.machine.disk.replay (changes.take k) = .ok disk) :
    disk.ShowsOrderly live.run.place live.run.hint bound := by
  obtain ⟨made, sameLog, -, orderly⟩ := conducts.writes
  obtain rfl := List.append_cancel_left (log.symm.trans sameLog)
  exact shows.replayed
    (fun change inside => (orderly change (List.mem_of_mem_take inside)).mono le) killed

/-! ## Starts -/

theorem Place.IsVacant.isRun_eq_false (vacant : place.IsVacant disk) :
    RunFiles.isRun disk place = false := by
  have nothing : disk.at? (RunFiles.recordFile place).path = none := by
    rw [RunFiles.path_recordFile]
    exact vacant _ (List.prefix_append ..) (by simp)
  rw [RunFiles.isRun, Disk.isFile, nothing]

namespace Run

theorem firstNode_isOrderly : Graph.firstNode.IsOrderly Graph.first.nextId := by
  exact ⟨Nat.lt_succ_self _, by simp [Graph.firstNode], fun _ => Graph.firstNode_storable⟩

/-- A run that was not written yet is orderly. -/
theorem begun_isOrderly {machine : Machine} (reached : machine.disk.IsReached place.path)
    (vacant : place.IsVacant machine.disk) (runId : String) (hint : Hint) :
    (begun machine place runId hint).holdings.IsOrderly where
  graph := by
    refine ⟨Graph.wellFormed_first.heads_nodup, fun _ => Graph.wellFormed_first.heads_lt, ?_⟩
    exact (NodeTable.IsOrderly.empty _).insert firstNode_isOrderly
  store := by
    show (begun machine place runId hint).store.IsOrderly place hint _
    rw [begun_store reached vacant]
    exact .ofImage place hint (.empty _)
  checkpoint := fun _ none => by cases none
  heads_nodup := List.nodup_nil
  heads_lt := fun _ none => by cases none
  version_lt := by
    show 1 < UInt32.size
    decide
  recordHint := rfl

/-- What begins a run is conducted as far as the device takes it. -/
theorem beginning_leaves (machine : Machine) (reached : machine.disk.IsReached place.path)
    (vacant : place.IsVacant machine.disk) (runId : String) (hint : Hint) :
    EndsIn beginning { run := begun machine place runId hint, machine } fun ended =>
      Conducts { run := begun machine place runId hint, machine } ended ∧
        ended.run.graph = .first := by
  have conducts : Conducting Graph.first.nextId beginning :=
    .bind markDirty_conducts fun _ => .bind (storeNode_conducts firstNode_isOrderly) fun _ =>
      reachSafePoint_conducts
  exact ((conducts _ (begun_isOrderly reached vacant runId hint) (Nat.le_refl _)).and
    (beginning_spares _)).mono
    (fun _ _ ⟨conducted, same⟩ => ⟨conducted, congrArg Snapshot.graph same⟩)
    fun _ _ ⟨conducted, same⟩ => ⟨conducted, congrArg Snapshot.graph same⟩

/-- Once its directories are made, a start is what begins a run. -/
theorem start_eq {machine reached : Machine} (place : Place) (runId : String) (asked : Option Hint)
    (config : Config) (absent : RunFiles.isRun machine.disk place = false)
    (made : Machine.commit (.makeDirectories place.path) .disk machine = .ok () reached) :
    start place runId asked config machine =
      match beginning { run := begun reached place runId (config.hintFor asked),
                        machine := reached } with
      | .ok () live => .ok live.run live.machine
      | .error error live => .error error live.machine := by
  rw [start, Machine.get_bind, absent, if_neg Bool.false_ne_true]
  dsimp only
  rw [Machine.bind_of_ok made]
  show (beginning.runOn (begun reached place runId (config.hintFor asked)) >>= fun begun =>
    pure begun.2 : MachineM Run) reached = _
  simp only [Bind.bind, EStateM.bind, runOn]
  cases beginning { run := begun reached place runId (config.hintFor asked), machine := reached } with
  | ok value live => rfl
  | error error live => rfl

/-- Where the directory cannot be made a start fails. -/
theorem start_eq_error {machine left : Machine} {place : Place} {runId : String}
    {asked : Option Hint} {config : Config} {error : Error}
    (absent : RunFiles.isRun machine.disk place = false)
    (refused : Machine.commit (.makeDirectories place.path) .disk machine = .error error left) :
    start place runId asked config machine = .error error left := by
  rw [start, Machine.get_bind, absent, if_neg Bool.false_ne_true]
  dsimp only
  simp only [Bind.bind, EStateM.bind, refused]

/-- A start where there is no record fails to make its directory, and leaves it at that, or else it
does what begins a run, as far as the device takes it. -/
theorem start_ends {machine after : Machine} {runId : String} {asked : Option Hint}
    {config : Config} (absent : RunFiles.isRun machine.disk place = false)
    (starts : (∃ run, start place runId asked config machine = .ok run after) ∨
      ∃ error, start place runId asked config machine = .error error after)
    {meets : Disk → LiveRun → Prop}
    (ends : ∀ made, machine.disk.makeDirectories place.path = .ok made →
      EndsIn beginning
        { run := begun (machine.changed (.makeDirectories place.path) made) place runId
            (config.hintFor asked)
          machine := machine.changed (.makeDirectories place.path) made } (meets made)) :
    (after.log = machine.log ∧ after.disk = machine.disk ∧ after.released = machine.released) ∨
      ∃ made ended, machine.disk.makeDirectories place.path = .ok made ∧ meets made ended ∧
        ended.machine = after := by
  rcases machine.commit_cases (.makeDirectories place.path) .disk with
    ⟨made, directories, done⟩ | ⟨fault, refused⟩
  -- The device makes the directory, and what follows is what begins a run.
  · right
    have leaves := ends made directories
    have same := start_eq place runId asked config absent done
    rw [EndsIn, Ends] at leaves
    split at leaves
    next value ended begins =>
      rw [begins] at same
      refine ⟨made, ended, directories, leaves, ?_⟩
      rcases starts with ⟨run, started⟩ | ⟨error, failed⟩
      · cases same.symm.trans started
        rfl
      · cases same.symm.trans failed
    next error ended fails =>
      rw [fails] at same
      refine ⟨made, ended, directories, leaves, ?_⟩
      rcases starts with ⟨run, started⟩ | ⟨error, failed⟩
      · cases same.symm.trans started
      · cases same.symm.trans failed
        rfl
  · left
    have same : start place runId asked config machine = .error (.disk fault) _ :=
      start_eq_error absent refused
    rcases starts with ⟨run, starts⟩ | ⟨error, starts⟩
    · cases same.symm.trans starts
    · cases same.symm.trans starts
      exact ⟨rfl, rfl, rfl⟩

/-- What a start leaves where there is nothing is what it conducted. -/
theorem start_leaves {machine after : Machine} {runId : String} {asked : Option Hint}
    {config : Config} (vacant : place.IsVacant machine.disk)
    (starts : (∃ run, start place runId asked config machine = .ok run after) ∨
      ∃ error, start place runId asked config machine = .error error after) :
    after.log = machine.log ∨ ∃ made ended, machine.disk.makeDirectories place.path = .ok made ∧
      made.IsReached place.path ∧ place.IsVacant made ∧
      Conducts
        { run := begun (machine.changed (.makeDirectories place.path) made) place runId
            (config.hintFor asked)
          machine := machine.changed (.makeDirectories place.path) made } ended ∧
      ended.run.graph = .first ∧ ended.machine = after := by
  have leaves (made : Disk) (directories : machine.disk.makeDirectories place.path = .ok made) :=
    have ⟨reached, still⟩ := vacant.reached directories
    beginning_leaves (machine.changed (.makeDirectories place.path) made) reached still runId
      (config.hintFor asked)
  rcases start_ends vacant.isRun_eq_false starts leaves with
    ⟨unchanged, -⟩ | ⟨made, ended, directories, ⟨conducts, graph⟩, same⟩
  · exact .inl unchanged
  · obtain ⟨reached, still⟩ := vacant.reached directories
    exact .inr ⟨made, ended, directories, reached, still, conducts, graph, same⟩

end Run

/-! ## Opened runs -/

namespace Run

/-- A run that is opened on an orderly image is orderly, however much of it was lost. -/
theorem ofImage_isOrderly (orderly : image.IsOrderly hint bound) (small : bound ≤ UInt64.size)
    {record : Record} (recorded : image.record = some record) :
    (ofImage place record image.nodes image.checkpoint).holdings.IsOrderly := by
  have below := orderly.record record recorded
  have graph : (Graph.regain image.nodes record.heads).IsOrderly :=
    Graph.isOrderly_regain orderly.nodes small below.heads_nodup
  constructor
  case graph => exact graph
  case store =>
    have nodes := graph.nodes
    rw [Graph.table_regain] at nodes
    exact NodeStore.IsOrderly.ofImage place record.hint nodes
  case checkpoint => exact fun checkpoint held _ => orderly.checkpoint checkpoint held small
  case heads_nodup => exact below.heads_nodup
  case heads_lt =>
    intro head inside
    exact Graph.lt_nextId_regain (List.mem_append_right _ inside)
  case version_lt => exact below.version_lt
  case recordHint => rfl

/-- Without a record nothing is opened. -/
theorem exists_of_opens {machine : Machine} {found : Run × OpeningReport}
    (opens : openReporting place machine = .ok found machine) :
    machine.disk.at? (place.path ++ ["execution.json"]) ≠ none := by
  intro nothing
  rw [← RunFiles.path_recordFile] at nothing
  obtain ⟨record, _, read, -⟩ := bind_eq_ok.1 opens
  rw [RunFiles.readRecord, Machine.readJson_eq, Disk.readJson, Disk.read, nothing] at read
  cases read

end Run

/-- A disk has nothing at a place, or it shows what is orderly. -/
def Disk.Remains (disk : Disk) (place : Place) : Prop :=
  place.IsVacant disk ∨ ∃ hint bound, bound ≤ UInt64.size ∧ disk.ShowsOrderly place hint bound

/-- What is opened on remains is the orderly image that they show. -/
theorem Disk.Remains.opens {machine : Machine} {run : Run} {report : OpeningReport}
    (remains : machine.disk.Remains place)
    (opens : openReporting place machine = .ok (run, report) machine) :
    ∃ record image bound, bound ≤ UInt64.size ∧
      Shows machine.disk place record.hint.storageKind image ∧ image.IsOrderly record.hint bound ∧
      image.record = some record ∧ run = ofImage place record image.nodes image.checkpoint ∧
      report.missingHeads = record.heads.filter fun head => !run.graph.contains head := by
  have there := Run.exists_of_opens opens
  rcases remains with vacant | ⟨hint, bound, small, image, shows, orderly⟩
  · exact absurd (vacant _ (List.prefix_append ..) (by simp)) there
  · cases recorded : image.record with
    | none =>
        have nothing := shows.record
        rw [recorded] at nothing
        exact absurd nothing there
    | some record =>
        obtain rfl : record.hint = hint := (orderly.record record recorded).hint_eq
        have opened := openReporting_eq shows recorded (orderly.storable small)
        cases opened.symm.trans opens
        exact ⟨record, image, bound, small, shows, orderly, recorded, rfl, rfl⟩

/-- A run that is begun on remains is orderly, and so is what its directory shows. -/
theorem LiveRun.BegunOn.isOrderly {live : LiveRun} {meets : OpeningReport → Prop}
    (begun : live.BegunOn place disk meets) (remains : disk.Remains place) :
    live.run.place = place ∧ live.run.holdings.IsOrderly ∧
      ∃ bound, bound ≤ UInt64.size ∧ live.machine.disk.ShowsOrderly place live.run.hint bound := by
  cases begun with
  | @start machine after runId asked config run same vacant started =>
      subst same
      obtain ⟨made, reached, still, begins⟩ := start_begins vacant started
      have leaves := beginning_leaves (machine.changed (.makeDirectories place.path) made) reached
        still runId (config.hintFor asked)
      rw [EndsIn, Ends, begins] at leaves
      obtain ⟨conducts, graph⟩ := leaves
      obtain ⟨changes, log, replayed, -⟩ := conducts.writes
      rw [← changes.take_length] at replayed
      refine ⟨conducts.place_eq, conducts.orderly, Graph.first.nextId, by decide, ?_⟩
      rw [conducts.hint_eq]
      exact conducts.leaves ⟨_, .of_empty reached still, .blank _ _⟩
        (Nat.le_of_eq (congrArg Graph.nextId graph)) log replayed
  | @opened machine run report same opens met =>
      subst same
      obtain ⟨record, image, bound, small, shows, orderly, recorded, rfl, -⟩ := remains.opens opens
      exact ⟨rfl, ofImage_isOrderly orderly small recorded, bound, small, image, shows, orderly⟩

/-- **What is left is orderly**, whatever became of the processes before. -/
theorem Left.remains (left : Left place disk) : disk.Remains place := by
  -- Every process begins on what the one before it left, cut off after any of its changes.
  induction left with
  | nothing vacant => exact .inl vacant
  | @start machine after runId asked config changes k disk vacant starts log killed =>
      rcases start_leaves vacant starts with
        unchanged | ⟨made, ended, directories, reached, still, conducts, graph, rfl⟩
      · obtain rfl : changes = [] := by simpa [unchanged] using log
        rw [List.take_nil] at killed
        obtain rfl := Except.ok.inj killed
        exact .inl vacant
      · obtain ⟨later, laterLog, -⟩ := conducts.writes
        obtain rfl : changes = .makeDirectories place.path :: later := by
          have whole := log.symm.trans laterLog
          rw [Machine.changed, List.append_assoc] at whole
          exact List.append_cancel_left whole
        cases k with
        | zero =>
            obtain rfl := Except.ok.inj killed
            exact .inl vacant
        | succ k =>
            have applied : (Change.makeDirectories place.path).apply machine.disk = .ok made :=
              directories
            rw [List.take_succ_cons, Disk.replay, applied] at killed
            exact .inr ⟨config.hintFor asked, Graph.first.nextId, by decide,
              conducts.leaves ⟨_, .of_empty reached still, .blank _ _⟩
                (Nat.le_of_eq (congrArg Graph.nextId graph)) laterLog killed⟩
  | @used earlier disk live deeds changes k left begun storable fits log killed ih =>
      obtain ⟨rfl, orderly, bound, small, shows⟩ := begun.isOrderly ih
      have conducts := LiveRun.afterDeeds_conducts orderly storable
      -- Nodes of an earlier process may still lie there, with numbers up to the bound of before.
      refine .inr ⟨live.run.hint, max bound (live.afterDeeds deeds).run.graph.nextId,
        Nat.max_le.2 ⟨small, fits⟩, ?_⟩
      exact conducts.leaves (shows.mono (Nat.le_max_left ..)) (Nat.le_max_right ..) log killed

end Leftover
end DurableRuns
