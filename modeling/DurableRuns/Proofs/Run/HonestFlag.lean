/-
# DurableRuns.Proofs.Run.HonestFlag -- when a clean record lies

A record on disk is *honest* if, being clean, it tells the heads of the graph in memory and
every node of the graph is on disk in its latest version.  A run whose device may refuse any
write does not keep its record honest: a record that could not be marked dirty stays clean
while the run goes on (`clean_after_refusals`).

This is the only way.  As long as no write of a dirty record fails the record is honest after
every operation, whatever other writes fail.  And where one does fail it is honest throughout
exactly if no operation *overlooks* it: misses the mark, changes the graph and leaves a clean
record standing as it was (`honest_until_mark_missed`).
-/
import DurableRuns.Proofs.Run.Candor
import DurableRuns.Proofs.Run.Starting

namespace DurableRuns

set_option autoImplicit false

open NodeStore (directoryName batchFileName nodeFile)
open Run RunM

/-! ## Histories -/

namespace LiveRun

/-- The record that is read from the directory of a run. -/
def Reads (live : LiveRun) (record : Record) : Prop :=
  live.machine.disk.readJson (RunFiles.recordFile live.run.place).path Record.ofJson? =
    .ok record

/-- If the record on disk is clean, it tells the heads of the graph, and the disk has every
node of the graph as it is.  Among these is every node that the run has returned. -/
def IsHonest (live : LiveRun) : Prop :=
  ∀ record, live.Reads record → record.clean = .clean →
    record.heads = live.run.graph.heads ∧
      ∀ id node, live.run.graph.get? id = some node →
        live.machine.disk.HoldsNode live.run.place live.run.hint.storageKind node

/-- From one run to the other the record was to be marked as dirty, and the write failed. -/
def MissesMark (before after : LiveRun) : Prop :=
  before.standing.MissesMark after.standing

/-- An operation changed the graph, and a clean record was left standing that is not true of
what it changed, since the write that would have marked it as dirty failed. -/
def Overlooks (before after : LiveRun) : Prop :=
  before.MissesMark after ∧
    ∃ record, before.Reads record ∧ after.Reads record ∧ record.clean = .clean ∧
      (after.run.graph.heads ≠ before.run.graph.heads ∨
        ∃ id node, after.run.graph.get? id = some node ∧ before.run.graph.get? id ≠ some node ∧
          ¬ after.machine.disk.HoldsNode after.run.place after.run.hint.storageKind node)

/-- The run after a command that was given at a point in time. -/
def after (live : LiveRun) (now : Instant) (command : Command) : LiveRun :=
  match attempt command.perform (live.atTime now) with
  | .ok _ left => left
  | .error _ left => left

/-- What holds of all that a command may leave holds of what it leaves. -/
theorem after_of_ends {live : LiveRun} {now : Instant} {command : Command} {meets : LiveRun → Prop}
    (ends : EndsIn command.perform (live.atTime now) meets) : meets (live.after now command) := by
  obtain ⟨outcome, left, done⟩ := attempt_returns command.perform (live.atTime now)
  rw [after, done]
  exact ends.of_attempt done

/-- The run after a history of commands, each given at a point in time. -/
def afterAll (live : LiveRun) (history : List (Instant × Command)) : LiveRun :=
  history.foldl (fun live given => live.after given.1 given.2) live

theorem afterAll_concat (live : LiveRun) (history : List (Instant × Command))
    (given : Instant × Command) :
    live.afterAll (history ++ [given]) = (live.afterAll history).after given.1 given.2 := by
  rw [afterAll, List.foldl_append]
  rfl

end LiveRun

section Honesty

variable {live before after : LiveRun} {shown old : Record}

theorem Standing.Sound.reads (sound : live.standing.Sound shown) (fits : live.run.graph.Fits) :
    live.Reads shown := by
  have storable : shown.Storable :=
    ⟨sound.shown_version, fun head inside =>
      Nat.lt_of_lt_of_le (sound.shown_heads head inside) fits⟩
  exact Disk.readJson_eq_ok sound.shows (Record.isOrdinary_toJson storable)
    (Record.ofJson?_toJson storable)

/-- The record of a candid run is honest. -/
theorem Candid.honest (candid : Candid live shown) (fits : live.run.graph.Fits) :
    live.IsHonest := by
  intro record read clean
  obtain rfl := Except.ok.inj ((candid.sound.reads fits).symm.trans read)
  have whole := candid.whole (candid.sound.flag.symm.trans clean)
  refine ⟨whole.shown_heads, fun id node stored => whole.stands node ?_⟩
  have number : node.id = id := NodeTable.get?_id stored
  rw [Standing.Has, number]
  exact stored

theorem Proceeds.nextId_le (proceeds : Proceeds before old after) :
    before.run.graph.nextId ≤ after.run.graph.nextId := by
  cases proceeds with
  | still since =>
      have same : after.run.graph = before.run.graph := since.steady.graph
      exact Nat.le_of_eq (congrArg Graph.nextId same).symm
  | grown le marks since =>
      have same : after.run.graph = _ := since.steady.graph.trans marks.steady.graph
      exact same ▸ le

/-- If the record that an operation may have left standing is true, the run it leaves is candid. -/
theorem Since.candid {base : Standing} {first : Record} {pending : List Nat}
    (since : Since base first pending after.standing)
    (settled : after.run.phase.isComplete = false → pending = [])
    (truthful : after.standing.Sound first → first.clean = .clean →
      first.heads = after.standing.graph.heads ∧
        ∀ node, after.standing.Has node → after.standing.Stands node) :
    ∃ shown, Candid after shown := by
  obtain ⟨shown, sound, trusted⟩ := since.trusted
  refine ⟨shown, sound, fun clean => ?_, fun running => settled running ▸ since.synced⟩
  refine (trusted clean).elim id ?_
  rintro ⟨rfl, heads⟩
  obtain ⟨headsNow, stands⟩ := truthful sound (sound.flag.trans clean)
  exact ⟨headsNow, heads.elim (fun old => old.trans headsNow) id, stands⟩

/-- A candid run stays so, unless an operation misses the mark and overlooks the record. -/
theorem Proceeds.candid_or_overlooks (proceeds : Proceeds before old after)
    (candid : Candid before old) (fits : after.run.graph.Fits) :
    (∃ shown, Candid after shown) ∨ before.Overlooks after := by
  have fitsBefore : before.run.graph.Fits := Nat.le_trans proceeds.nextId_le fits
  cases proceeds with
  | still since settled =>
      refine .inl (since.candid settled fun _ clean => ?_)
      have whole := candid.whole (candid.sound.flag.symm.trans clean)
      refine ⟨whole.shown_heads.trans (congrArg Graph.heads since.steady.graph).symm, ?_⟩
      intro node has
      have old := (since.steady.has_iff node).1 has
      exact since.steady.stands node old (whole.stands node old)
  | @grown graph first marked pending le marks since settled =>
      rcases marks.dirty with dirty | ⟨rfl, missed⟩
      · exact .inl (since.candid settled fun _ clean => by cases clean.symm.trans dirty)
      have steady := marks.steady.trans since.steady
      by_cases overlooks : before.Overlooks after
      · exact .inr overlooks
      refine .inl (since.candid settled fun sound clean => ?_)
      have whole := candid.whole (candid.sound.flag.symm.trans clean)
      have unchanged : ¬ (after.run.graph.heads ≠ before.run.graph.heads ∨
          ∃ id node, after.run.graph.get? id = some node ∧ before.run.graph.get? id ≠ some node ∧
            ¬ after.machine.disk.HoldsNode after.run.place after.run.hint.storageKind node) :=
        fun change => overlooks ⟨since.steady.missesMark_first missed, first,
          candid.sound.reads fitsBefore, sound.reads fits, clean, change⟩
      obtain ⟨sameHeads, allHeld⟩ := not_or.1 unchanged
      refine ⟨whole.shown_heads.trans (not_ne_iff.1 sameHeads).symm, fun node has => ?_⟩
      by_cases old : before.standing.Has node
      · exact steady.stands node ((steady.has_iff node).1 has) (whole.stands node old)
      · exact by_contra fun lost => allHeld ⟨node.id, node, has, old, lost⟩

end Honesty

/-! ## From the start on -/

section Start

variable {place : Place} {runId : String} {asked : Option Hint} {config : Config}
  {machine started : Machine} {run : Run}

theorem NodeStore.openBatched_eq (disk : Disk) (run : Place) :
    ∃ nodes fault, openBatched disk run = .batched (run.join batchFileName) nodes 0 fault := by
  unfold openBatched
  dsimp only
  split
  · split
    · exact ⟨_, _, rfl⟩
    · exact ⟨_, _, rfl⟩
  · exact ⟨_, _, rfl⟩

theorem NodeStore.ofRun_isPlaced {standing : Standing} (disk : Disk)
    (store : standing.store = NodeStore.ofRun disk standing.place standing.hint) :
    standing.IsPlaced := by
  rw [NodeStore.ofRun] at store
  unfold Standing.IsPlaced
  cases kind : standing.hint.storageKind with
  | immediate =>
      rw [kind] at store
      rw [store]
      exact ⟨rfl, rfl⟩
  | batched =>
      obtain ⟨nodes, fault, opened⟩ := NodeStore.openBatched_eq disk standing.place
      rw [kind] at store
      rw [store.trans opened]
      exact ⟨rfl, rfl⟩

/-- What begins a run leaves it candid, whatever its directory held before. -/
theorem beginning_candid (machine : Machine) (place : Place) (runId : String) (hint : Hint) :
    Ends beginning { run := begun machine place runId hint, machine }
      (fun _ after => ∃ shown, Candid after shown) (fun _ _ => True) := by
  have placed : LiveRun.standing { run := begun machine place runId hint, machine } |>.IsPlaced :=
    NodeStore.ofRun_isPlaced machine.disk rfl
  refine .bind ((markDirty_ends placed).mono ?_ fun _ _ _ => trivial)
  rintro _ marked (⟨already, -⟩ | ⟨record, recorded⟩)
  · cases already
  · have has : marked.standing.Has Graph.firstNode := by
      rw [Standing.Has, recorded.graph]
      rfl
    refine .bind ((storeNode_ends (recorded.placed placed) has).mono ?_ fun _ _ _ => trivial)
    rintro _ stored ⟨quiet, kept, honest⟩
    have graph : stored.standing.graph = .first := quiet.graph.trans recorded.graph
    have synced : stored.standing.IsSynced [] := by
      intro _ node there _
      rw [Standing.Has, graph, Graph.get?_first] at there
      split at there
      · obtain rfl := Option.some.inj there
        exact kept
      · cases there
    have dirty : stored.standing.diskFlag = .dirty := quiet.diskFlag.trans recorded.diskFlag
    have sound : stored.standing.Sound record := by
      constructor
      case shows => exact quiet.shows record recorded.shows
      case flag => exact recorded.record_clean.trans dirty.symm
      case shown_version =>
        rw [recorded.record_version]
        show 1 < UInt32.size
        decide
      case shown_heads =>
        rw [recorded.record_heads]
        exact fun _ inside => by cases inside
      case version =>
        rw [quiet.version, recorded.version]
        show 1 < UInt32.size
        decide
      case heads =>
        rw [quiet.heads, recorded.heads]
        exact fun _ inside => by cases inside
      case well => exact graph ▸ Graph.wellFormed_first
      case placed => exact quiet.placed (recorded.placed placed)
      case honest => exact honest
    have since : Since stored.standing record [] stored.standing :=
      ⟨.refl _, synced, record, sound, fun clean => by cases clean.symm.trans dirty⟩
    refine (reachSafePoint_since since).mono ?_ fun _ _ _ => trivial
    intro _ after since
    obtain ⟨shown, known, trusted⟩ := since.trusted
    refine ⟨shown, known, fun clean => (trusted clean).resolve_right ?_, fun _ => since.synced⟩
    rintro ⟨same, -⟩
    have flag : shown.clean = .clean := known.flag.trans clean
    rw [same, recorded.record_clean] at flag
    cases flag

theorem start_candid (begins : start place runId asked config machine = .ok run started) :
    ∃ shown, Candid { run, machine := started } shown := by
  obtain ⟨reached, -, done⟩ := of_start_eq_ok begins
  have ends := beginning_candid reached place runId (config.hintFor asked)
  rw [Ends, done] at ends
  exact ends

end Start

/-- What time it is has no bearing on what an operation wrote. -/
theorem Proceeds.of_atTime {live after : LiveRun} {old : Record} {now : Instant}
    (proceeds : Proceeds (live.atTime now) old after) : Proceeds live old after := by
  cases proceeds with
  | still since settled => exact .still since settled
  | grown le marks since settled => exact .grown le marks since settled

theorem LiveRun.after_proceeds {live : LiveRun} {old : Record} (candid : Candid live old)
    (now : Instant) (command : Command) : Proceeds live old (live.after now command) := by
  have timely : Candid (live.atTime now) old := ⟨candid.sound, candid.whole, candid.synced⟩
  have ends : EndsIn command.perform (live.atTime now) (Proceeds live old) :=
    (command.perform_proceeds timely).mono (fun _ _ => .of_atTime) fun _ _ => .of_atTime
  exact after_of_ends ends

/-- After commands of which none overlooks the record the run is candid. -/
theorem LiveRun.afterAll_candid {live : LiveRun} {shown : Record} (candid : Candid live shown)
    {history : List (Instant × Command)}
    (fits : ∀ done, done <+: history → (live.afterAll done).run.graph.Fits)
    (never : ∀ done given, done ++ [given] <+: history →
      ¬ (live.afterAll done).Overlooks (live.afterAll (done ++ [given]))) :
    ∀ done, done <+: history → ∃ shown, Candid (live.afterAll done) shown := by
  -- Honesty is not enough to go on from: the store must also have every node.
  intro done
  induction done using List.reverseRecOn with
  | nil => exact fun _ => ⟨shown, candid⟩
  | append_singleton done given ih =>
      intro inside
      obtain ⟨old, candid⟩ := ih ((List.prefix_append done [given]).trans inside)
      have proceeds := LiveRun.after_proceeds candid given.1 given.2
      rw [← LiveRun.afterAll_concat] at proceeds
      exact (proceeds.candid_or_overlooks candid (fits _ inside)).resolve_right
        (never done given inside)

/-- **When a clean record can be trusted**: a run was started, its directory holding whatever
it held, and was given commands, while the device refused any of the writes.  If none of the
writes that would have marked the record as dirty failed, its record is honest after each
command.  In any case it is honest after each command exactly if no command overlooks it, as only
a command can in which such a write failed. -/
theorem honest_unless_mark_missed {place : Place} {runId : String} {asked : Option Hint}
    {config : Config} {machine started : Machine} {run : Run}
    (begins : Run.start place runId asked config machine = .ok run started)
    (history : List (Instant × Command))
    (fits : ∀ done, done <+: history →
      (LiveRun.afterAll { run, machine := started } done).run.graph.Fits) :
    ((∀ done given, done ++ [given] <+: history →
        ¬ (LiveRun.afterAll { run, machine := started } done).MissesMark
          (LiveRun.afterAll { run, machine := started } (done ++ [given]))) →
      ∀ done, done <+: history →
        (LiveRun.afterAll { run, machine := started } done).IsHonest) ∧
    ((∀ done, done <+: history →
        (LiveRun.afterAll { run, machine := started } done).IsHonest) ↔
      ∀ done given, done ++ [given] <+: history →
        ¬ (LiveRun.afterAll { run, machine := started } done).Overlooks
          (LiveRun.afterAll { run, machine := started } (done ++ [given]))) := by
  have honest (never : ∀ done given, done ++ [given] <+: history →
      ¬ (LiveRun.afterAll { run, machine := started } done).Overlooks
        (LiveRun.afterAll { run, machine := started } (done ++ [given])))
      (done : List (Instant × Command)) (inside : done <+: history) :
      (LiveRun.afterAll { run, machine := started } done).IsHonest := by
    obtain ⟨_, candid⟩ := start_candid begins
    obtain ⟨shown, candid⟩ := LiveRun.afterAll_candid candid fits never done inside
    exact candid.honest (fits done inside)
  refine ⟨fun marked => ?_, ?_, honest⟩
  · exact honest fun done given inside overlooks => marked done given inside overlooks.1
  · rintro honest done given inside ⟨-, record, read, still, clean, change⟩
    have before := honest done ((List.prefix_append done [given]).trans inside) record read clean
    have after := honest (done ++ [given]) inside record still clean
    rcases change with heads | ⟨id, node, stored, -, lost⟩
    · exact heads (after.1.symm.trans before.1)
    · exact lost (after.2 id node stored)

/-- A machine that takes the four writes of a start and one more, and refuses the next. -/
def Machine.refusingSixth : Machine :=
  { Machine.blank with refusals := [false, false, false, false, false, true] }

/-- A node is appended. -/
def onceAppended : List (Instant × Command) :=
  [(.sample, .append { kind := .atom, name := "only" })]

/-- The file of a node is refused: the record was marked as dirty before, and stays honest. -/
theorem honest_after_refused_node : ∃ run started,
    Run.start .sample "sample" none .default .refusingSixth = .ok run started ∧
      (∀ done, done <+: onceAppended →
        (LiveRun.afterAll { run, machine := started } done).run.graph.Fits) ∧
      (LiveRun.afterAll { run, machine := started } onceAppended).machine.missed ≠ [] ∧
      ∀ done, done <+: onceAppended →
        (LiveRun.afterAll { run, machine := started } done).IsHonest := by
  have passed : Run.passes (fun run started =>
      let last := LiveRun.afterAll { run, machine := started } onceAppended
      decide (∀ k ∈ List.range 2, (LiveRun.afterAll { run, machine := started }
          (onceAppended.take k)).run.graph.Fits) &&
        decide (run.place = .sample) && started.missed.isEmpty && !last.machine.missed.isEmpty &&
        last.machine.missed.all fun change => match change with
          | .write path _ _ => decide (path ≠ (RunFiles.recordFile .sample).path)
          | _ => true)
      (Run.start .sample "sample" none .default .refusingSixth) = true := by
    decide +kernel
  obtain ⟨run, started, begins, holds⟩ := Run.of_passes passed
  simp only [Bool.and_eq_true, decide_eq_true_eq, List.isEmpty_iff, Bool.not_eq_true',
    List.isEmpty_eq_false_iff] at holds
  obtain ⟨⟨⟨⟨holds, here⟩, none⟩, some⟩, others⟩ := holds
  have fits : ∀ done, done <+: onceAppended →
      (LiveRun.afterAll { run, machine := started } done).run.graph.Fits := by
    intro done inside
    rw [List.prefix_iff_eq_take.1 inside]
    exact holds done.length (List.mem_range.2 (Nat.lt_succ_of_le inside.length_le))
  refine ⟨run, started, begins, fits, some,
    (honest_unless_mark_missed begins onceAppended fits).1 ?_⟩
  rintro done given inside ⟨missed, same, change, member, record, atomic, rfl, -⟩
  obtain rfl : done = [] := by
    have short := inside.length_le
    simpa [onceAppended] using short
  have whole : [] ++ [given] = onceAppended := inside.eq_of_length rfl
  rw [whole] at same
  have before : (LiveRun.afterAll { run, machine := started } []).standing.missed = [] := none
  rw [before, List.nil_append] at same
  rw [← same] at member
  have apart := List.all_eq_true.1 others _ member
  simp only [decide_eq_true_eq] at apart
  exact apart (congrArg (fun place => (RunFiles.recordFile place).path) here)

/-- A machine that takes the five writes of a start and a pause, and refuses the next two. -/
def Machine.refusing : Machine :=
  { Machine.blank with refusals := [false, false, false, false, false, true, true] }

/-- **A clean record lies**: the run goes on after its record could not be marked dirty, takes the
action and returns the node.  When the pause ends it writes the record with the flag it remembers,
which is clean, and the disk has the node without the action. -/
theorem clean_after_refusals : ∃ run started left node record,
    Run.start .sample "sample" none .default .refusing = .ok run started ∧
      attempt (Command.attach firstId (.log "late")).perform
        (LiveRun.atTime (LiveRun.afterAll { run, machine := started } [(.sample, .pause)]) .sample) =
          .ok (.ok (.node node)) left ∧
      (left.after .sample .unpause).Reads record ∧ record.clean = .clean ∧
      ¬ (left.after .sample .unpause).machine.disk.HoldsNode .sample .immediate node := by
  have passed : Run.passes (fun run started =>
      Run.passes (fun outcome left =>
          let last := left.after .sample .unpause
          last.machine.disk.at? (RunFiles.recordFile last.run.place).path =
              some (.file last.run.record.toJson.pretty) &&
            decide (last.run.record.version < UInt32.size) &&
            decide (∀ head ∈ last.run.record.heads, head < UInt64.size) &&
            decide (last.run.record.clean = .clean) &&
            decide (∃ node ∈ left.run.graph.table.nodes, outcome = .ok (.node node) ∧
              last.machine.disk.at? (nodeFile (Place.sample.join directoryName) node.id).path ≠
                some (.file node.toJson.pretty)))
        (attempt (Command.attach firstId (.log "late")).perform
          (LiveRun.atTime (LiveRun.afterAll { run, machine := started } [(.sample, .pause)])
            .sample)))
      (Run.start .sample "sample" none .default .refusing) = true := by
    decide +kernel
  obtain ⟨run, started, begins, holds⟩ := Run.of_passes passed
  obtain ⟨_, left, attached, holds⟩ := Run.of_passes holds
  simp only [Bool.and_eq_true, decide_eq_true_eq] at holds
  obtain ⟨⟨⟨⟨shown, version⟩, heads⟩, clean⟩, node, -, rfl, lost⟩ := holds
  have storable : (left.after .sample .unpause).run.record.Storable := ⟨version, heads⟩
  exact ⟨run, started, left, node, _, begins, attached,
    Disk.readJson_eq_ok shown (Record.isOrdinary_toJson storable) (Record.ofJson?_toJson storable),
    clean, lost⟩

end DurableRuns
