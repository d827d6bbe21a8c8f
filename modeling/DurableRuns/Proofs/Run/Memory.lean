/-
# DurableRuns.Proofs.Run.Memory -- what a command makes of a run in memory

Whether a write is taken or refused, a run in memory goes the same way: the steps that write
spare its `Snapshot`, and each operation changes it at one point.  So what a command does to
the graph, the phase and the continuation can be told without a look at the disk.

Two things follow for every command.  A paused run stays paused, with the nodes and the heads
it had, until it is unpaused (`Command.perform_paused`).  And a continuation is good for a
resume from the moment it is handed over until the next node is appended
(`Command.perform_goodBlob`): the new head has a number that no earlier continuation knows.
-/
import DurableRuns.Proofs.Run.HonestFlag
import DurableRuns.Proofs.Run.LastSafePoint
import DurableRuns.Proofs.Run.Laws

namespace DurableRuns

set_option autoImplicit false

open Run RunM

/-! ## Steps that only write -/

namespace RunM

/-- A step, whatever becomes of it, relates the run it was begun on to the run it leaves. -/
def Leads {α : Type} (relates : LiveRun → LiveRun → Prop) (step : RunM α) : Prop :=
  ∀ live, EndsIn step live (relates live)

/-- A step leaves what a run is in memory as it was, be it that it fails. -/
abbrev Spares {α : Type} (step : RunM α) : Prop :=
  Leads (fun live after => after.run.snapshot = live.run.snapshot) step

theorem Ends.trivial {α : Type} (step : RunM α) (live : LiveRun) :
    Ends step live (fun _ _ => True) fun _ _ => True := by
  rw [Ends]
  cases step live with
  | ok value after => exact True.intro
  | error error after => exact True.intro

namespace Leads

variable {α β : Type} {relates : LiveRun → LiveRun → Prop}

/-- Steps that follow one another relate as a whole what each of them relates. -/
theorem bind (trans : ∀ {live between after}, relates live between → relates between after →
      relates live after) {step : RunM α} {next : α → RunM β} (first : Leads relates step)
    (second : ∀ value, Leads relates (next value)) : Leads relates (step >>= next) := by
  intro live
  refine .bind ((first live).mono ?_ fun _ _ => id)
  intro value between related
  exact (second value between).mono (fun _ _ => trans related) fun _ _ => trans related

theorem attempt {step : RunM α} (leads : Leads relates step) :
    Leads relates (RunM.attempt step) := fun live => .attempt (leads live)

/-- What a run is related to by doing nothing and by one thing after the other is a law of steps,
if a failure may be noted. -/
theorem catches (refl : ∀ live, relates live live)
    (trans : ∀ {live between after}, relates live between → relates between after →
      relates live after)
    (notes : ∀ live error, relates live (Ends.faulted live error)) : Catches (Leads relates) where
  pure _ := fun live => .pure (refl live)
  throw _ := fun live => .throw (refl live)
  look next := fun live => .bind (.current (next live.run live))
  bind := by
    intro _ _ _ _ first second
    refine Leads.bind ?_ first second
    exact trans
  attempt := attempt
  noteFault error := fun live => .noteFault (notes live error)

end Leads

namespace Spares

variable {α β : Type}

theorem pure (value : α) : Spares (Pure.pure value) := fun _ => .pure rfl

theorem current : Spares RunM.current := fun _ => .current rfl

theorem get : Spares (MonadState.get : RunM LiveRun) := fun _ => .get rfl

theorem update {change : Run → Run} (spares : ∀ run, (change run).snapshot = run.snapshot) :
    Spares (RunM.update change) := fun live => .update (spares live.run)

theorem bind {step : RunM α} {next : α → RunM β} (first : Spares step)
    (second : ∀ value, Spares (next value)) : Spares (step >>= next) :=
  Leads.bind (fun same later => later.trans same) first second

theorem onMachine (step : MachineM α) : Spares (RunM.onMachine step) := by
  intro live
  rw [EndsIn, Ends, RunM.onMachine]
  cases step live.machine with
  | ok value machine => rfl
  | error error machine => rfl

theorem onStore (step : StoreM α) : Spares (RunM.onStore step) := by
  intro live
  rw [EndsIn, Ends, RunM.onStore]
  cases step { store := live.run.store, machine := live.machine } with
  | ok value left => rfl
  | error error left => rfl

theorem catches : Catches Spares :=
  Leads.catches (fun _ => rfl) (fun same later => later.trans same) fun _ _ => rfl

end Spares
end RunM

namespace Run

theorem stampRecord_spares (flag : CleanFlag) : Spares (stampRecord flag) :=
  .bind .get fun _ => .bind (.update fun _ => rfl) fun _ => .bind .current fun _ =>
    .bind (.onMachine _) fun _ => .update fun _ => rfl

theorem markDirty_spares : Spares markDirty := Spares.catches.markDirty (stampRecord_spares .dirty)

theorem markClean_spares : Spares markClean :=
  .bind .current fun _ => .bind (.update fun _ => rfl) fun _ => stampRecord_spares _

theorem writeCheckpoint_spares : Spares writeCheckpoint := by
  refine .bind .current fun run => ?_
  cases run.checkpoint with
  | none => exact .pure ()
  | some checkpoint => exact .bind (.onMachine _) fun _ => .update fun _ => rfl

theorem storeNode_spares (node : Node) : Spares (storeNode node) := .onStore _

theorem storeStep_spares (node : Node) : Spares (storeStep node) :=
  Spares.catches.storeStep storeNode_spares node

theorem flushStore_spares : Spares flushStore := .onStore _

theorem reachSafePoint_spares : Spares reachSafePoint :=
  Spares.catches.reachSafePoint flushStore_spares writeCheckpoint_spares markClean_spares

/-! ## Operations -/

variable {live : LiveRun}

/-- A run that is concluded has ended, whatever reaches the disk. -/
theorem conclude_completes (nodes : List Node) (result : RunResult) (live : LiveRun) :
    EndsIn (conclude nodes result) live fun after => after.run.phase.isComplete = true := by
  refine .bind (.noted ((Ends.trivial _ live).mono ?_ ?_))
  · exact fun _ _ _ => .bind (.update rfl)
  · exact fun _ _ _ => .bind (.update rfl)

theorem endAsFailed_completes (reason : String) (live : LiveRun) :
    EndsIn (endAsFailed reason) live fun after => after.run.phase.isComplete = true :=
  .bind (.current (.bind (.update (conclude_completes _ _ _))))

/-- A node that is in memory is given back, whether or not the disk takes it. -/
theorem storing_spares {node : Node} {store : RunM Unit} {rest : RunM Node}
    (stores : Spares store) {failed : Error → LiveRun → Prop}
    (wraps : ∀ live, Ends rest live
      (fun given after => given = node ∧ after.run.snapshot = live.run.snapshot) failed) :
    Ends (storing node store rest) live
      (fun given after => given = node ∧ after.run.snapshot = live.run.snapshot) failed := by
  refine .bind (.attempt ((markDirty_spares live).mono ?_ ?_))
  all_goals
    intro _ marked same
    refine .bind (.attempt ((stores marked).mono ?_ ?_))
    · intro _ stored later
      exact (wraps stored).mono (fun _ _ ⟨given, last⟩ => ⟨given, last.trans (later.trans same)⟩)
        fun _ _ => id
    · intro error stored later
      exact .bind (.noteFault (.pure ⟨rfl, later.trans same⟩))

/-- After its nodes were stored, an operation gives its node back. -/
theorem wrapUp_spares (node : Node) (point : Bool) (live : LiveRun)
    {failed : Error → LiveRun → Prop} :
    Ends (wrapUp node point) live
      (fun given after => given = node ∧ after.run.snapshot = live.run.snapshot) failed := by
  cases point with
  | true =>
      exact .bind (.noted ((reachSafePoint_spares live).mono (fun _ _ same => .pure ⟨rfl, same⟩)
        fun _ _ same => .pure ⟨rfl, same⟩))
  | false =>
      refine .bind (.bind (.current ?_))
      split
      · exact .noted ((markClean_spares live).mono (fun _ _ same => .pure ⟨rfl, same⟩)
          fun _ _ same => .pure ⟨rfl, same⟩)
      · exact .pure (.pure ⟨rfl, rfl⟩)

/-- A node is appended, or nothing is changed, or the run has ended. -/
theorem append_makes (well : live.run.graph.WellFormed) (draft : NodeDraft) :
    Ends (append draft) live
      (fun node after => ∃ graph, live.run.graph.Extends graph node ∧
        after.run.snapshot = { live.run.snapshot with graph })
      (fun _ after => after.run.snapshot = live.run.snapshot ∨
        after.run.phase.isComplete = true) := by
  refine .append (fun _ => .inl rfl) (fun _ => .inl rfl) fun _ _ => ?_
  refine (growOrClose_ends well.isUsable
    fun reason => endAsFailed_completes reason live).mono ?_ fun _ _ => .inr
  rintro node _ ⟨graph, rfl, extended, -⟩
  refine (storing_spares (storeStep_spares node) fun live => wrapUp_spares node _ live).mono ?_
    fun _ _ => id
  rintro _ after ⟨rfl, same⟩
  exact ⟨graph, extended, same⟩

/-- An action is attached, or nothing is changed. -/
theorem attach_makes (number : Nat) (action : Action) (live : LiveRun) :
    Ends (attach number action) live
      (fun node after => ∃ graph, live.run.graph.attach number action = .ok (graph, node) ∧
        after.run.snapshot = { live.run.snapshot with graph })
      (fun _ after => after.run.snapshot = live.run.snapshot) := by
  refine .attach (fun _ => rfl) (fun _ _ => rfl) fun _ graph node attached => ?_
  refine (storing_spares (storeNode_spares node) fun stored =>
    .bind (.current (wrapUp_spares node _ stored))).mono ?_ fun _ _ => id
  rintro _ after ⟨rfl, same⟩
  exact ⟨graph, attached, same⟩

/-- The continuation is taken over, even if the disk does not take it. -/
theorem takeCheckpoint_makes (blob : Bytes) (live : LiveRun) :
    EndsIn (takeCheckpoint blob) live fun after =>
      live.run.phase.isComplete = true ∧ after = live ∨
        live.run.phase.isComplete = false ∧
          after.run.snapshot = (live.run.holding blob live.machine.now).snapshot := by
  have held : Spares heldCheckpoint :=
    Spares.catches.heldCheckpoint markDirty_spares reachSafePoint_spares
  have prompt : Spares promptCheckpoint :=
    Spares.catches.promptCheckpoint markDirty_spares writeCheckpoint_spares markClean_spares
  refine .takeCheckpoint (fun ended => .inl ⟨ended, rfl⟩) (fun going _ => ?_) (fun going _ => ?_)
    fun going => .inr ⟨going, rfl⟩
  · exact (held _).mono (fun _ _ same => .inr ⟨going, same⟩) fun _ _ same => .inr ⟨going, same⟩
  · exact (prompt _).mono (fun _ _ same => .inr ⟨going, same⟩) fun _ _ same => .inr ⟨going, same⟩

theorem flush_spares : Spares flush := Spares.catches.flush reachSafePoint_spares

theorem shutdown_spares : Spares shutdown := Spares.catches.shutdown reachSafePoint_spares

/-- A run is paused, or it goes on, and else nothing of it changes in memory. -/
theorem pausing_makes (live : LiveRun) :
    EndsIn pausing live fun after => ∃ phase status,
      after.run.snapshot = { live.run.snapshot with phase, status } := by
  refine .bind (.update (.bind (.attempt ((reachSafePoint_spares _).mono ?_ ?_))))
  · intro _ after same
    refine .update ⟨.paused, .paused, ?_⟩
    exact congrArg (fun snapshot : Snapshot => { snapshot with phase := .paused }) same
  · intro error after same
    refine .bind (.update (.bind (.noteFault (.throw ⟨.running, .running, ?_⟩))))
    exact congrArg (fun snapshot : Snapshot =>
      { snapshot with phase := .running, status := .running }) same

/-- A pause changes the phase and what the record tells of it, but not of a run that has ended or
is paused. -/
theorem pause_makes (live : LiveRun) :
    EndsIn pause live fun after => ∃ phase status,
      after.run.snapshot = { live.run.snapshot with phase, status } ∧
        (live.run.phase.isComplete = true → phase.isComplete = true) ∧
        (live.run.phase = .paused → phase = .paused) := by
  refine .pause (fun ended => ⟨_, _, rfl, fun _ => ended, id⟩)
    (fun rests => ⟨_, _, rfl, id, id⟩) fun going runs => ?_
  have still {phase : Phase} (ended : live.run.phase.isComplete = true) :
      phase.isComplete = true := by cases going.symm.trans ended
  have rests {phase : Phase} (paused : live.run.phase = .paused) : phase = .paused := by
    cases (paused ▸ runs : Phase.paused.holdsAppends = false)
  exact (pausing_makes live).mono (fun _ _ ⟨_, _, same⟩ => ⟨_, _, same, still, rests⟩)
    fun _ _ ⟨_, _, same⟩ => ⟨_, _, same, still, rests⟩

/-- A run goes on, and else nothing of it changes in memory. -/
theorem unpausing_makes (flag : CleanFlag) (live : LiveRun) :
    EndsIn (unpausing flag) live fun after => ∃ phase status,
      after.run.snapshot = { live.run.snapshot with phase, status } := by
  have tells : Spares (noted (stampRecord flag)) := Spares.catches.noted (stampRecord_spares flag)
  refine .bind (.update (.bind ((tells _).mono ?_ ?_)))
  · intro _ after same
    refine .update ⟨.running, .running, ?_⟩
    exact congrArg (fun snapshot : Snapshot => { snapshot with phase := .running }) same
  · exact fun _ after same => ⟨live.run.phase, .running, same⟩

/-- The end of a pause changes the phase and what the record tells of it, but not of a run that
has ended. -/
theorem unpause_makes (live : LiveRun) :
    EndsIn unpause live fun after => ∃ phase status,
      after.run.snapshot = { live.run.snapshot with phase, status } ∧
        (live.run.phase.isComplete = true → phase.isComplete = true) := by
  refine .unpause (fun ended => ⟨_, _, rfl, fun _ => ended⟩) (fun _ => ⟨_, _, rfl, id⟩)
    fun going _ => ?_
  have still {phase : Phase} (ended : live.run.phase.isComplete = true) :
      phase.isComplete = true := by cases going.symm.trans ended
  exact (unpausing_makes _ live).mono (fun _ _ ⟨_, _, same⟩ => ⟨_, _, same, still⟩)
    fun _ _ ⟨_, _, same⟩ => ⟨_, _, same, still⟩

/-- After `finish` a run has ended, be it that it failed. -/
theorem finish_completes (well : live.run.graph.WellFormed) (outcome : Outcome) :
    EndsIn (finish outcome) live fun after => after.run.phase.isComplete = true := by
  refine .requireLive id fun _ => .bind (.current ?_)
  refine .bind ((growOrClose_ends well.isUsable
    fun reason => endAsFailed_completes reason live).mono ?_ fun _ _ => id)
  intro node grown _
  exact .bind ((conclude_completes [node] outcome.result grown).mono
    (fun _ _ ended => .pure ended) fun _ _ => id)

/-- After `fail` a run has ended. -/
theorem fail_completes (reason : String) (live : LiveRun) :
    EndsIn (fail reason) live fun after => after.run.phase.isComplete = true :=
  .fail id fun _ => endAsFailed_completes reason live

/-- What begins a run writes it and changes nothing in memory. -/
theorem beginning_spares : Spares beginning :=
  .bind markDirty_spares fun _ => .bind (storeNode_spares _) fun _ => reachSafePoint_spares

/-- A run that is started has no continuation. -/
theorem start_makes {place : Place} {runId : String} {asked : Option Hint} {config : Config}
    {machine started : Machine} {run : Run}
    (begins : start place runId asked config machine = .ok run started) :
    run.checkpoint = none := by
  obtain ⟨reached, -, done⟩ := of_start_eq_ok begins
  have ends := beginning_spares
    { run := begun reached place runId (config.hintFor asked), machine := reached }
  rw [EndsIn, Ends, done] at ends
  exact congrArg Snapshot.checkpoint ends

end Run

/-! ## A pause holds the graph -/

/-- The phase, the heads and the numbers of the nodes are as they were. -/
structure Run.HoldsStill (before after : Run) : Prop where
  phase_eq : after.phase = before.phase
  heads_eq : after.graph.heads = before.graph.heads
  nextId_eq : after.graph.nextId = before.graph.nextId
  contains_eq : ∀ id, after.graph.contains id = before.graph.contains id

namespace Run.HoldsStill

variable {before between after : Run}

theorem of_graph {graph : Graph} {checkpoint : Option Checkpoint}
    (same : after.snapshot = { before.snapshot with graph, checkpoint })
    (heads : graph.heads = before.graph.heads) (nextId : graph.nextId = before.graph.nextId)
    (contains : ∀ id, graph.contains id = before.graph.contains id) : before.HoldsStill after := by
  have grown : after.graph = graph := congrArg Snapshot.graph same
  exact ⟨congrArg Snapshot.phase same, grown ▸ heads, grown ▸ nextId, grown ▸ contains⟩

theorem of_snapshot (same : after.snapshot = before.snapshot) : before.HoldsStill after :=
  of_graph same rfl rfl fun _ => rfl

theorem refl (run : Run) : run.HoldsStill run := .of_snapshot rfl

theorem trans (first : before.HoldsStill between) (second : between.HoldsStill after) :
    before.HoldsStill after :=
  ⟨second.phase_eq.trans first.phase_eq, second.heads_eq.trans first.heads_eq,
    second.nextId_eq.trans first.nextId_eq,
    fun id => (second.contains_eq id).trans (first.contains_eq id)⟩

end Run.HoldsStill

namespace Command

variable {live after : LiveRun} {command : Command} {outcome : Except Error Reply}

/-- What a step comes to can be put into a reply. -/
theorem reply_ends {α : Type} {step : RunM α} {reply : α → Reply}
    {done : Reply → LiveRun → Prop} {failed : Error → LiveRun → Prop}
    (ends : Ends step live (fun value => done (reply value)) failed) :
    Ends (do return reply (← step)) live done failed :=
  .bind (ends.mono (fun _ _ met => .pure met) fun _ _ => id)

/-- A paused run is held still until it is unpaused, whatever becomes of its writes. -/
theorem perform_paused (paused : live.run.phase = .paused) (other : command ≠ .unpause) :
    EndsIn command.perform live fun after => live.run.HoldsStill after.run := by
  have still {α : Type} {step : RunM α} {reply : α → Reply} (spares : Spares step) :
      EndsIn (do return reply (← step)) live fun after => live.run.HoldsStill after.run :=
    reply_ends ((spares live).mono (fun _ _ => .of_snapshot) fun _ _ => .of_snapshot)
  refine .bind (.current ?_)
  cases waits : command.mustWait live.run.phase with
  | true => exact .pure (.refl _)
  | false =>
      cases command with
      | append draft =>
          -- What may be appended waits for the end of the pause; a boundary is refused at once.
          have boundary : draft.kind.isBoundary = true := by
            simpa [mustWait, paused, Phase.holdsAppends] using waits
          refine reply_ends ?_
          unfold Run.append
          rw [boundary]
          exact .bind (.current (.bind (.throw (.refl _))))
      | finish outcome => simp [mustWait, paused, Phase.holdsAppends] at waits
      | attach id action =>
          refine reply_ends ((attach_makes id action live).mono ?_ fun _ _ => .of_snapshot)
          rintro node after ⟨graph, attached, same⟩
          have made := Graph.attach_attached attached
          obtain ⟨old, stored, -⟩ := Graph.attach_eq_ok.1 attached
          exact .of_graph same made.heads_eq made.nextId_eq
            (made.contains_iff (Graph.contains_of_get? stored))
      | checkpoint blob =>
          refine reply_ends ((takeCheckpoint_makes blob live).mono ?_ ?_)
          all_goals
            rintro _ after (⟨-, rfl⟩ | ⟨-, same⟩)
            · exact .refl _
            · exact .of_graph same rfl rfl fun _ => rfl
      | flush => exact still flush_spares
      | pause =>
          refine reply_ends ((pause_makes live).mono ?_ ?_)
          all_goals
            rintro _ after ⟨phase, status, same, -, held⟩
            have graph : after.run.graph = live.run.graph := congrArg Snapshot.graph same
            refine ⟨?_, graph ▸ rfl, graph ▸ rfl, fun _ => graph ▸ rfl⟩
            exact (congrArg Snapshot.phase same).trans ((held paused).trans paused.symm)
      | unpause => exact absurd rfl other
      | shutdown => exact still shutdown_spares
      | look => exact .bind (.current (.pure (.refl _)))

end Command

/-- So it is over any number of commands. -/
theorem LiveRun.afterAll_paused {live : LiveRun} (paused : live.run.phase = .paused)
    {history : List (Instant × Command)} (held : ∀ given ∈ history, given.2 ≠ .unpause) :
    live.run.HoldsStill (live.afterAll history).run := by
  induction history generalizing live with
  | nil => exact .refl _
  | cons given rest ih =>
      obtain ⟨first, later⟩ := List.forall_mem_cons.1 held
      have still : live.run.HoldsStill (live.after given.1 given.2).run := by
        have ends : EndsIn given.2.perform (live.atTime given.1) fun after =>
            live.run.HoldsStill after.run := Command.perform_paused paused first
        exact after_of_ends ends
      exact still.trans (ih (still.phase_eq.trans paused) later)

/-! ## The continuation that is good for a resume -/

/-- The bytes of the continuation, if it was taken at the present heads. -/
def Snapshot.goodBlob? (snapshot : Snapshot) : Option Bytes :=
  snapshot.checkpoint.bind fun checkpoint =>
    if checkpoint.isFor snapshot.graph.heads then some checkpoint.blob else none

theorem Snapshot.goodBlob?_eq_some_iff {snapshot : Snapshot} {blob : Bytes} :
    snapshot.goodBlob? = some blob ↔ ∃ checkpoint, snapshot.checkpoint = some checkpoint ∧
      checkpoint.heads = snapshot.graph.heads ∧ checkpoint.blob = blob := by
  rw [goodBlob?]
  cases snapshot.checkpoint with
  | none => simp
  | some checkpoint => simp [Checkpoint.isFor]

/-- A command that a run was given, and what it came to. -/
abbrev Exchange := Command × Except Error Reply

/-- The bytes that are good for a resume after an exchange, given those before it: a continuation
that is handed over takes the place of the one before, and a node that is appended leaves none. -/
def Exchange.goodBlob? (before : Option Bytes) : Exchange → Option Bytes
  | (.checkpoint blob, _) => some blob
  | (.append _, .ok (.node _)) => none
  | _ => before

/-- The bytes that are good for a resume after a history of exchanges: those of the last
checkpoint, if no node was appended since. -/
def goodBlob? (history : List Exchange) : Option Bytes :=
  history.foldl Exchange.goodBlob? none

theorem goodBlob?_concat (history : List Exchange) (exchange : Exchange) :
    goodBlob? (history ++ [exchange]) = exchange.goodBlob? (goodBlob? history) := by
  simp [goodBlob?]

/-- A run that goes on went on before, and the bytes that are good for a resume are as they
were. -/
def Run.KeepsGood (before after : Run) : Prop :=
  after.phase.isComplete = false → before.phase.isComplete = false ∧
    after.snapshot.goodBlob? = before.snapshot.goodBlob?

/-- A change of the phase does not bear on what the continuation is good for. -/
theorem Run.KeepsGood.of_phase {before after : Run} {phase : Phase} {status : RecordStatus}
    (same : after.snapshot = { before.snapshot with phase, status })
    (ended : before.phase.isComplete = true → phase.isComplete = true) :
    before.KeepsGood after := by
  intro unfinished
  have now : after.phase = phase := congrArg Snapshot.phase same
  refine ⟨?_, by rw [same]; rfl⟩
  cases complete : before.phase.isComplete with
  | false => rfl
  | true => cases (now ▸ ended complete).symm.trans unfinished

theorem Run.KeepsGood.of_snapshot {before after : Run} (same : after.snapshot = before.snapshot) :
    before.KeepsGood after :=
  .of_phase same id

namespace Command

variable {live : LiveRun} {command : Command}

/-- An appended node leaves no continuation good: it is a head, and its number is new. -/
theorem goodBlob?_extends {snapshot : Snapshot} {graph : Graph} {node : Node}
    (extended : snapshot.graph.Extends graph node)
    (below : ∀ checkpoint, snapshot.checkpoint = some checkpoint →
      checkpoint.Below snapshot.graph.nextId) :
    { snapshot with graph }.goodBlob? = none := by
  rw [Option.eq_none_iff_forall_ne_some]
  intro blob good
  obtain ⟨checkpoint, taken, heads, -⟩ := Snapshot.goodBlob?_eq_some_iff.1 good
  -- All heads of the continuation are old, and the new node is a head.
  have head : node.id ∈ graph.heads := by
    rw [extended.heads_eq]
    exact Graph.mem_headsAfter_self ..
  have lower := below checkpoint taken node.id (heads ▸ head)
  have new := extended.id_eq
  omega

/-- Which bytes are good for a resume can be told from the commands and what they came to, as
long as the run has not ended. -/
theorem perform_goodBlob (well : live.run.graph.WellFormed)
    (below : ∀ checkpoint, live.run.checkpoint = some checkpoint →
      checkpoint.Below live.run.graph.nextId) :
    EndsAs command.perform live fun outcome after => after.run.phase.isComplete = false →
      live.run.phase.isComplete = false ∧ after.run.snapshot.goodBlob? =
        Exchange.goodBlob? live.run.snapshot.goodBlob? (command, outcome) := by
  refine .bind (.current ?_)
  cases waits : command.mustWait live.run.phase with
  | true =>
      refine .pure fun unfinished => ⟨unfinished, ?_⟩
      cases command with
      | append draft => rfl
      | finish outcome => rfl
      | _ => cases waits
  | false =>
      cases command with
      | append draft =>
          refine reply_ends ((append_makes well draft).mono ?_ ?_)
          · rintro node after ⟨graph, extended, made⟩ unfinished
            have phase : after.run.phase = live.run.phase := congrArg Snapshot.phase made
            exact ⟨phase ▸ unfinished, made ▸ goodBlob?_extends extended below⟩
          -- An append that was refused may have closed the run as failed, and then it has ended.
          · rintro error after (made | ended) unfinished
            · exact Run.KeepsGood.of_snapshot made unfinished
            · cases ended.symm.trans unfinished
      | finish outcome =>
          refine reply_ends ((finish_completes well outcome).mono ?_ ?_)
          all_goals
            intro _ after ended unfinished
            cases ended.symm.trans unfinished
      | attach id action =>
          refine reply_ends ((attach_makes id action live).mono ?_ fun _ _ => Run.KeepsGood.of_snapshot)
          rintro node after ⟨graph, attached, made⟩ unfinished
          have phase : after.run.phase = live.run.phase := congrArg Snapshot.phase made
          refine ⟨phase ▸ unfinished, ?_⟩
          rw [made, Snapshot.goodBlob?, (Graph.attach_attached attached).heads_eq]
          rfl
      | checkpoint blob =>
          refine reply_ends ((takeCheckpoint_makes blob live).mono ?_ ?_)
          all_goals
            rintro _ after (⟨complete, rfl⟩ | ⟨running, made⟩) unfinished
            · cases complete.symm.trans unfinished
            · refine ⟨running, Snapshot.goodBlob?_eq_some_iff.2 ?_⟩
              rw [made]
              exact ⟨_, rfl, rfl, rfl⟩
      | flush =>
          exact reply_ends ((flush_spares live).mono (fun _ _ => Run.KeepsGood.of_snapshot)
            fun _ _ => Run.KeepsGood.of_snapshot)
      | pause =>
          refine reply_ends ((pause_makes live).mono ?_ ?_)
          all_goals
            rintro _ after ⟨phase, status, made, ended, -⟩
            exact Run.KeepsGood.of_phase made ended
      | unpause =>
          refine reply_ends ((unpause_makes live).mono ?_ ?_)
          all_goals
            rintro _ after ⟨phase, status, made, ended⟩
            exact Run.KeepsGood.of_phase made ended
      | shutdown =>
          exact reply_ends ((shutdown_spares live).mono (fun _ _ => Run.KeepsGood.of_snapshot)
            fun _ _ => Run.KeepsGood.of_snapshot)
      | look => exact .bind (.current (.pure (Run.KeepsGood.of_snapshot rfl)))

end Command
end DurableRuns
