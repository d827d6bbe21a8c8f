/-
# DurableRuns.Proofs.Run.Trust -- a clean record is true, or it was left standing

`Since base old pending standing` says what holds in the midst of an operation that began with
`old` as the record on disk, and had by then the graph of `base`: if the record on disk is
clean, it is either true (`Standing.IsWhole`) or still the old one.  So what an operation
writes can be trusted, whatever the device refuses; what it fails to overwrite need not be.

`pending` lists the nodes that changed in memory and may not have reached the store.

An operation that grows the graph marks the record as dirty before it stores anything, or misses
to (`Marks`).  Once the record is dirty, the one that an operation would leave standing is not
clean.
-/
import DurableRuns.Proofs.Run.Standing

namespace DurableRuns

set_option autoImplicit false

open Run RunM

namespace Standing

/-- A run knows what record is on its disk, and its store is in order. -/
structure Sound (standing : Standing) (shown : Record) : Prop where
  shows : standing.Shows shown
  flag : shown.clean = standing.diskFlag
  shown_version : shown.version < UInt32.size
  shown_heads : ∀ head ∈ shown.heads, head < standing.graph.nextId
  version : standing.version < UInt32.size
  heads : ∀ head ∈ standing.heads, head < standing.graph.nextId
  well : standing.graph.WellFormed
  placed : standing.IsPlaced
  honest : standing.IsHonest

/-- The record on disk is that of the graph, and the disk has the graph. -/
structure IsWhole (standing : Standing) (shown : Record) : Prop where
  shown_heads : shown.heads = standing.graph.heads
  heads : standing.heads = standing.graph.heads
  stands : ∀ node, standing.Has node → standing.Stands node

variable {standing : Standing}

/-- Where nothing waits in the store, what it has stands. -/
theorem stands_of_keeps {node : Node} (placed : standing.IsPlaced) (honest : standing.IsHonest)
    (flushed : standing.store.isFlushed = true) (kept : standing.Keeps node) :
    standing.Stands node := by
  unfold IsPlaced at placed
  unfold IsHonest at honest
  unfold Keeps at kept
  unfold Stands Disk.HoldsNode
  cases store : standing.store with
  | immediate directory atomic =>
      simp only [store] at placed kept
      obtain ⟨kind, rfl⟩ := placed
      simp only [kind]
      exact kept
  | batched file nodes unflushed fault =>
      simp only [store, NodeStore.isFlushed, decide_eq_true_eq] at placed honest flushed kept
      obtain ⟨kind, rfl⟩ := placed
      simp only [kind]
      exact ⟨nodes, honest flushed, kept⟩

theorem written_of_flushed (placed : standing.IsPlaced) (honest : standing.IsHonest)
    (synced : standing.IsSynced []) (flushed : standing.store.isFlushed = true) :
    standing.IsWritten := by
  intro none node has
  exact stands_of_keeps placed honest flushed (synced (.inl none) node has (List.not_mem_nil))

end Standing

/-- In the midst of an operation a clean record is true, or it is the one from before. -/
structure Since (base : Standing) (old : Record) (pending : List Nat) (standing : Standing) :
    Prop where
  steady : Steady base standing
  synced : standing.IsSynced pending
  trusted : ∃ shown, standing.Sound shown ∧ (standing.diskFlag = .clean →
    standing.IsWhole shown ∨
      shown = old ∧ (standing.heads = old.heads ∨ standing.heads = standing.graph.heads))

namespace Since

variable {base standing after : Standing} {old : Record} {pending : List Nat}

theorem placed (since : Since base old pending standing) : standing.IsPlaced := by
  obtain ⟨shown, sound, -⟩ := since.trusted
  exact sound.placed

theorem honest (since : Since base old pending standing) : standing.IsHonest := by
  obtain ⟨shown, sound, -⟩ := since.trusted
  exact sound.honest

/-- A quiet step changes nothing about it. -/
theorem quiet (since : Since base old pending standing) (quiet : Quiet standing after) :
    Since base old pending after := by
  obtain ⟨shown, sound, trusted⟩ := since.trusted
  refine ⟨since.steady.trans quiet.toSteady, quiet.synced since.synced, shown, ?_, ?_⟩
  · constructor
    case shows => exact quiet.shows shown sound.shows
    case flag => exact sound.flag.trans quiet.diskFlag.symm
    case shown_version => exact sound.shown_version
    case shown_heads => exact quiet.graph ▸ sound.shown_heads
    case version => exact quiet.version ▸ sound.version
    case heads => exact quiet.graph ▸ quiet.heads ▸ sound.heads
    case well => exact quiet.graph ▸ sound.well
    case placed => exact quiet.placed sound.placed
    case honest => exact quiet.honest sound.honest
  · intro clean
    rw [quiet.heads, quiet.graph]
    refine (trusted (quiet.diskFlag.symm.trans clean)).imp_left fun whole => ?_
    constructor
    case shown_heads => exact whole.shown_heads.trans (congrArg Graph.heads quiet.graph.symm)
    case heads =>
      exact quiet.heads.trans (whole.heads.trans (congrArg Graph.heads quiet.graph.symm))
    case stands =>
      intro node has
      have before := (quiet.has_iff node).1 has
      exact quiet.stands node before (whole.stands node before)

/-- Nodes that have reached the store are not pending. -/
theorem kept (since : Since base old pending standing) (later : List Nat)
    (kept : standing.failed = false ∨ standing.store.kind = .batched →
      ∀ node, standing.Has node → node.id ∉ later → standing.Keeps node) :
    Since base old later standing :=
  { since with synced := kept }

/-- What held up to a point of an operation is where the rest of it goes on from. -/
theorem onward (since : Since base old pending standing) : Since standing old pending standing :=
  { since with steady := .refl standing }

/-- The run turns to the present heads. -/
theorem turned (since : Since base old pending standing) :
    Since base old pending { standing with heads := standing.graph.heads } := by
  obtain ⟨shown, sound, trusted⟩ := since.trusted
  refine ⟨{ since.steady with }, since.synced, shown, ?_, ?_⟩
  · exact { sound with heads := fun head inside => sound.well.heads_lt inside }
  · intro clean
    rcases trusted clean with whole | ⟨same, -⟩
    · exact .inl ⟨whole.shown_heads, rfl, whole.stands⟩
    · exact .inr ⟨same, .inr rfl⟩

/-- A record that is written can be trusted if its heads are those of the graph and every node
of the graph stands, or if it is not clean. -/
theorem recorded {flag : CleanFlag} {record : Record} (since : Since base old pending standing)
    (recorded : Recorded standing after flag record)
    (whole : flag = .clean → standing.heads = standing.graph.heads ∧
      ∀ node, standing.Has node → standing.Stands node) :
    Since base old pending after := by
  obtain ⟨shown, sound, -⟩ := since.trusted
  refine ⟨since.steady.trans recorded.toSteady, recorded.synced since.synced, record, ?_, ?_⟩
  · constructor
    case shows => exact recorded.shows
    case flag => exact recorded.record_clean.trans recorded.diskFlag.symm
    case shown_version => exact recorded.record_version ▸ sound.version
    case shown_heads => exact recorded.graph ▸ recorded.record_heads ▸ sound.heads
    case version => exact recorded.version ▸ sound.version
    case heads => exact recorded.graph ▸ recorded.heads ▸ sound.heads
    case well => exact recorded.graph ▸ sound.well
    case placed => exact recorded.placed sound.placed
    case honest => exact recorded.honest sound.honest
  · intro clean
    obtain ⟨heads, stands⟩ := whole (recorded.diskFlag.symm.trans clean)
    have now : standing.heads = after.graph.heads :=
      heads.trans (congrArg Graph.heads recorded.graph.symm)
    left
    constructor
    case shown_heads => exact recorded.record_heads.trans now
    case heads => exact recorded.heads.trans now
    case stands =>
      intro node has
      have before := (recorded.has_iff node).1 has
      exact recorded.stands node before (stands node before)

end Since

/-- An operation marked the record as dirty, so that `first` is on disk from then on and is not
clean; or it missed to, and the record from before still is. -/
structure Marks (base : Standing) (old first : Record) (marked : Standing) : Prop where
  steady : Steady base marked
  dirty : first.clean = .dirty ∨ first = old ∧ base.MissesMark marked

/-! ## The parts of the operations -/

namespace Run

variable {live : LiveRun} {base : Standing} {old : Record} {pending : List Nat}

theorem markDirty_since (since : Since base old pending live.standing) :
    Ends markDirty live (fun _ after => Since base old pending after.standing)
      (fun _ after => Since base old pending after.standing) := by
  refine (markDirty_ends since.placed).mono ?_ ?_
  · rintro _ after (⟨-, rfl⟩ | ⟨record, recorded⟩)
    · exact since
    · exact since.recorded recorded (fun clean => by cases clean)
  · exact fun _ after ⟨quiet, _⟩ => since.quiet quiet

/-- Marking the record as dirty succeeds, or it is missed. -/
theorem markDirty_marks (since : Since base old pending live.standing) :
    EndsIn markDirty live fun marked => ∃ first, Marks base old first marked.standing ∧
      Since marked.standing first pending marked.standing := by
  refine (markDirty_ends since.placed).mono ?_ ?_
  · rintro _ marked (⟨already, rfl⟩ | ⟨record, recorded⟩)
    · obtain ⟨shown, sound, -⟩ := since.trusted
      have dirty : shown.clean = .dirty := sound.flag.trans already
      refine ⟨shown, ⟨since.steady, .inl dirty⟩, .refl _, since.synced, shown, sound, ?_⟩
      exact fun clean => by cases clean.symm.trans already
    · have later := since.recorded recorded fun clean => by cases clean
      obtain ⟨shown, sound, -⟩ := later.trusted
      have dirty : shown.clean = .dirty := sound.flag.trans recorded.diskFlag
      refine ⟨shown, ⟨later.steady, .inl dirty⟩, .refl _, later.synced, shown, sound, ?_⟩
      exact fun clean => by cases clean.symm.trans recorded.diskFlag
  · rintro _ marked ⟨quiet, missed⟩
    have later := since.quiet quiet
    exact ⟨old, ⟨later.steady, .inr ⟨rfl, since.steady.missesMark_last missed⟩⟩, later.onward⟩

theorem markClean_since (since : Since base old pending live.standing)
    (written : live.standing.IsWritten) :
    Ends markClean live (fun _ after => Since base old pending after.standing)
      (fun _ after => Since base old pending after.standing) := by
  refine (markClean_ends since.placed).mono ?_ ?_
  · rintro _ after ⟨record, recorded⟩
    refine since.turned.recorded recorded fun clean => ⟨rfl, ?_⟩
    cases failed : live.standing.failed with
    | true =>
        rw [failed] at clean
        cases clean
    | false => exact written failed
  · exact fun _ after quiet => since.turned.quiet quiet

/-- Nodes of which one could not be stored are pending no more: a write has failed. -/
theorem faulted_since {error : Error} {later : List Nat}
    (since : Since base old pending live.standing)
    (immediate : live.standing.store.kind = .immediate) :
    Since base old later (Ends.faulted live error).standing := by
  refine (since.quiet (.faulted live error)).kept later fun able => ?_
  have kind : (Ends.faulted live error).standing.store.kind = .immediate := immediate
  exfalso
  rcases able with none | batched
  · cases fault : live.run.storageFault with
    | none => simp [LiveRun.standing, Ends.faulted, fault] at none
    | some first => simp [LiveRun.standing, Ends.faulted, fault] at none
  · cases kind.symm.trans batched

theorem storeNode_since {node : Node} (since : Since base old [node.id] live.standing)
    (has : live.standing.Has node) :
    Ends (storeNode node) live (fun _ after => Since base old [] after.standing)
      (fun error after => Since base old [] (Ends.faulted after error).standing) := by
  refine (storeNode_ends since.placed has).mono ?_ ?_
  · rintro _ after ⟨quiet, kept, -⟩
    refine (since.quiet quiet).kept [] fun able other there _ => ?_
    by_cases same : other.id = node.id
    · have current := (quiet.has_iff node).2 has
      rw [Standing.Has, same] at there
      obtain rfl := Option.some.inj (there.symm.trans current)
      exact kept
    · exact (since.quiet quiet).synced able other there (by simpa using same)
  · rintro error after ⟨quiet, immediate⟩
    exact faulted_since (since.quiet quiet) (quiet.kind.trans immediate)

theorem storeStep_since {node : Node} {later : List Nat}
    (since : Since base old pending live.standing) (has : live.standing.Has node)
    (opened : ∀ start, node.kind.closes = some start →
      live.standing.graph.contains start = true)
    (covers : ∀ id ∈ pending, id ∈ node.touched ∨ id ∈ later) :
    Ends (storeStep node) live (fun _ after => Since base old later after.standing)
      (fun error after => Since base old [] (Ends.faulted after error).standing) := by
  refine (storeStep_ends since.placed has opened).mono ?_ ?_
  · rintro _ after ⟨quiet, kept⟩
    refine (since.quiet quiet).kept later fun able other there apart => ?_
    by_cases touched : other.id ∈ node.touched
    · exact kept other ((quiet.has_iff other).1 there) touched
    · refine (since.quiet quiet).synced able other there fun inside => ?_
      exact (covers other.id inside).elim touched apart
  · rintro error after ⟨quiet, immediate⟩
    exact faulted_since (since.quiet quiet) (quiet.kind.trans immediate)

theorem storeSteps_since {nodes : List Node} (since : Since base old pending live.standing)
    (has : ∀ node ∈ nodes, base.Has node)
    (opened : ∀ node ∈ nodes, ∀ start, node.kind.closes = some start →
      base.graph.contains start = true)
    (covers : ∀ id ∈ pending, id ∈ nodes.flatMap Node.touched) :
    Ends (nodes.forM storeStep) live (fun _ after => Since base old [] after.standing)
      (fun error after => Since base old [] (Ends.faulted after error).standing) := by
  -- What is pending shrinks, node by node, to what the nodes that are left touch.
  induction nodes generalizing live pending with
  | nil =>
      obtain rfl : pending = [] := List.eq_nil_iff_forall_not_mem.2 fun id inside => by
        simpa using covers id inside
      exact .pure since
  | cons node rest ih =>
      obtain ⟨first, others⟩ := List.forall_mem_cons.1 has
      obtain ⟨opens, othersOpen⟩ := List.forall_mem_cons.1 opened
      have split : ∀ id ∈ pending, id ∈ node.touched ∨ id ∈ rest.flatMap Node.touched := by
        intro id inside
        simpa using covers id inside
      have current : live.standing.Has node := (since.steady.has_iff node).2 first
      refine .bind ((storeStep_since since current ?_ split).mono ?_ fun _ _ => id)
      · intro start closes
        exact since.steady.graph ▸ opens start closes
      · exact fun _ between later => ih later others othersOpen fun _ => id

theorem flushStore_since (since : Since base old [] live.standing) :
    Ends flushStore live
      (fun _ after => Since base old [] after.standing ∧ after.standing.IsWritten)
      (fun _ after => Since base old [] after.standing) := by
  have kept : live.standing.store.kind = .batched →
      ∀ node, live.standing.Has node → live.standing.Keeps node :=
    fun batched node has => since.synced (.inr batched) node has (List.not_mem_nil)
  refine (flushStore_ends since.placed kept).mono ?_ ?_
  · rintro _ after ⟨quiet, flushed⟩
    have later := since.quiet quiet
    exact ⟨later, Standing.written_of_flushed later.placed later.honest later.synced flushed⟩
  · exact fun _ after quiet => since.quiet quiet

theorem writeCheckpoint_since (since : Since base old pending live.standing) :
    Ends writeCheckpoint live
      (fun _ after => Since base old pending after.standing ∧
        (live.standing.IsWritten → after.standing.IsWritten))
      (fun _ after => Since base old pending after.standing) := by
  refine (writeCheckpoint_ends since.placed).mono ?_ ?_
  · exact fun _ after quiet => ⟨since.quiet quiet, quiet.written⟩
  · exact fun _ after quiet => since.quiet quiet

/-- A safe point writes nothing that cannot be trusted, wherever it fails. -/
theorem reachSafePoint_since (since : Since base old [] live.standing) :
    Ends reachSafePoint live (fun _ after => Since base old [] after.standing)
      (fun _ after => Since base old [] after.standing) := by
  refine .bind ((flushStore_since since).mono ?_ fun _ _ => id)
  rintro _ between ⟨later, written⟩
  refine .bind (.current ?_)
  split
  · refine .bind ((writeCheckpoint_since later).mono ?_ fun _ _ => id)
    rintro _ last ⟨final, still⟩
    exact markClean_since final (still written)
  · exact markClean_since later written

end Run
end DurableRuns
