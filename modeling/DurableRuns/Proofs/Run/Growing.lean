/-
# DurableRuns.Proofs.Run.Growing -- appends, actions and the end keep a run settled

Where the graph grows, the record is dirty before the first node is stored (`Pending`).  Then
the operation ends at a safe point, or it marks the record clean if nothing waits in the
store, or the disk has still the graph of the last safe point (`wrapUp_keeps`).  A graph that
does not admit a node has the run closed as failed.
-/
import DurableRuns.Proofs.Run.SafePoints

namespace DurableRuns

set_option autoImplicit false

open Run RunM

section Growing

variable {base : Run} {live after : LiveRun} {image image' : Image} {safe grows : Bool}

/-! ## After the nodes were stored -/

/-- Since an operation began the store was written to under a dirty record, and that is all. -/
structure Pending (start live : LiveRun) (image image' : Image) : Prop where
  flag : live.run.diskFlag = .dirty
  record : image'.record = some live.run.record
  heads : live.run.record.heads = start.run.record.heads
  persisted : live.run.checkpointPersisted = start.run.checkpointPersisted
  checkpoint : image'.checkpoint = image.checkpoint
  waits : start.run.hint.storageKind = .batched →
    image'.nodes = image.nodes ∧ live.run.store.isFlushed = false

theorem Pending.of_stored {start between live : LiveRun} {image₁ image₂ : Image}
    (dirtied : Dirtied start between image image₁) (stored : Stored between live image₁ image₂)
    (record : image.record = some start.run.record)
    (waits : start.run.hint.storageKind = .batched →
      image₂.nodes = image₁.nodes ∧ live.run.store.isFlushed = false) :
    Pending start live image image₂ := by
  obtain ⟨store, run⟩ := stored.run
  constructor
  case flag =>
    rw [run]
    exact dirtied.flag
  case record =>
    rw [stored.record, run]
    exact dirtied.record record
  case heads =>
    rw [run]
    exact dirtied.heads
  case persisted =>
    rw [run]
    exact dirtied.persisted
  case checkpoint => exact stored.checkpoint.trans dirtied.checkpoint
  case waits =>
    intro batched
    obtain ⟨nodes, waiting⟩ := waits batched
    exact ⟨nodes.trans dirtied.nodes, waiting⟩

/-- The record of a tracked run is that of the run but for its heads, its flag and its time. -/
theorem record_eq_of_tracks {before : Graph} (tracks : Tracks base before live image)
    (heads : live.run.record.heads = base.record.heads) :
    { live.run.record with clean := base.record.clean, updatedAt := base.record.updatedAt } =
      base.record := by
  have version : live.run.record.version = base.record.version :=
    congrArg Life.version tracks.life
  have recordId : live.run.record.runId = base.record.runId := congrArg Life.recordId tracks.life
  have recordHint : live.run.record.hint = base.record.hint :=
    congrArg Life.recordHint tracks.life
  have status : live.run.record.status = base.record.status := congrArg Life.status tracks.life
  have result : live.run.record.result = base.record.result := congrArg Life.result tracks.life
  have createdAt : live.run.record.createdAt = base.record.createdAt :=
    congrArg Life.createdAt tracks.life
  simp only [version, recordId, recordHint, status, result, createdAt, heads]

/-- A batched run that has grown waits for its next safe point under a dirty record. -/
theorem performs_of_waiting {start : LiveRun} {graph : Graph} (settled : Settled start image)
    (tracks : Tracks { start.run with graph } start.run.graph live image')
    (pending : Pending start live image image') (nodes : image'.nodes = image.nodes)
    (kept : live.run.kept image' = graph.table) (well : graph.WellFormed)
    (storable : graph.Storable) (le : start.run.graph.nextId ≤ graph.nextId)
    (resting : live.run.mustBeSaved = false) (batched : start.run.hint.writesEveryStep = false) :
    Performs start live image image' false true := by
  have sound : Life.Sound { start.run with graph }.life := { settled.sound with }
  have notClean : live.run.diskFlag ≠ .clean := by simp [pending.flag]
  obtain ⟨safe, whole, older⟩ := settled.safe
  have grown : start.run.graph.nextId ≤ live.run.graph.nextId := by
    rw [tracks.graph_eq]
    exact le
  refine ⟨?_, tracks.place_eq, tracks.hint_eq, fun resuming => tracks.phase_eq.symm.trans resuming,
    grown, ?_, fun _ => ⟨?_, pending.flag⟩⟩
  · constructor
    case tracks =>
      apply tracks.rest
      intro found shown clean
      exact absurd ((tracks.flag found shown).symm.trans clean) notClean
    case well => exact tracks.graph_eq ▸ well
    case storable => exact tracks.graph_eq ▸ storable
    case sound => exact tracks.life ▸ sound
    case record => exact pending.record
    case kept => exact kept.trans (congrArg Graph.table tracks.graph_eq.symm)
    case flag => exact .inr pending.flag
    case safe =>
      refine ⟨safe, ⟨⟨nodes.trans whole.has.nodes, pending.heads.trans whole.has.heads⟩,
        whole.well, whole.storable, ?_⟩, Nat.le_trans older grown⟩
      rw [pending.checkpoint]
      exact whole.checkpoint_below
    case atRest => exact fun saved => by cases saved.symm.trans resting
  · intro saved
    simp [batched] at saved
  · refine ⟨nodes, pending.checkpoint, ?_⟩
    intro old same
    obtain rfl := Option.some.inj (settled.record.symm.trans same)
    have record := record_eq_of_tracks tracks pending.heads
    exact ⟨live.run.record, pending.record, record⟩

/-- After the nodes were stored, an operation ends at a safe point, or settles. -/
theorem wrapUp_keeps {start : LiveRun} {graph : Graph} {node : Node} {point : Bool}
    (settled : Settled start image)
    (tracks : Tracks { start.run with graph } start.run.graph live image')
    (pending : Pending start live image image') (kept : live.run.kept image' = graph.table)
    (well : graph.WellFormed) (storable : graph.Storable)
    (running : start.run.phase.isComplete = false)
    (free : point = false → start.run.phase.holdsAppends = false)
    (le : start.run.graph.nextId ≤ graph.nextId) :
    ∃ after image₂, Yields ({ start.run with graph }.Guarded start.run.graph) (wrapUp node point)
        live (.ok node) after ∧
      after.run.graph = graph ∧ Performs start after image image₂ point true := by
  have sound : Life.Sound { start.run with graph }.life := { settled.sound with }
  cases point with
  | true =>
      obtain ⟨after, image₂, done, tracked, onDisk, persisted⟩ :=
        reachSafePoint_yields tracks well settled.sound.unfailed kept (by simp [pending.flag])
      exact ⟨after, image₂, .bind done.noted (.pure node), tracked.graph_eq,
        .of_onDisk tracked onDisk persisted well storable (tracked.life ▸ sound) rfl rfl id le
          (by simp)⟩
  | false =>
      cases prompt : start.run.hint.writesEveryStep with
      | true =>
          obtain ⟨flushed, same⟩ := flushed_of_writesEveryStep tracks prompt
          have saved := settled.atRest (by simp [mustBeSaved, prompt])
          obtain ⟨after, clean, tracked, onDisk, persisted⟩ :=
            markClean_yields tracks well settled.sound.unfailed (same.symm.trans kept) kept
          rw [pending.persisted, saved.persisted] at persisted
          have settles : Yields ({ start.run with graph }.Guarded start.run.graph) settle live
              (.ok ()) after := by
            refine .bind .current ?_
            rw [if_pos flushed]
            exact clean.noted
          exact ⟨after, _, settles.bind (.pure node), tracked.graph_eq,
            .of_onDisk tracked onDisk persisted well storable (tracked.life ▸ sound) rfl rfl id le
              (by simp [prompt])⟩
      | false =>
          have kind : start.run.hint.storageKind = .batched := by
            simp [Hint.storageKind, prompt]
          obtain ⟨nodes, waiting⟩ := pending.waits kind
          have resting : live.run.mustBeSaved = false := by
            have phase : live.run.phase = start.run.phase := tracks.phase_eq
            simp [mustBeSaved, tracks.hint_eq, phase, prompt, running, free rfl]
          have settles : Yields ({ start.run with graph }.Guarded start.run.graph) settle live
              (.ok ()) live := by
            refine .bind .current ?_
            rw [waiting]
            exact .pure ()
          exact ⟨live, image', settles.bind (.pure node), tracks.graph_eq,
            performs_of_waiting settled tracks pending nodes kept well storable le resting prompt⟩

/-! ## The graph in memory -/

theorem mem_actionsOf {kind : NodeKind} {actions : List Action} {now : Instant} {action : Action}
    (inside : action ∈ actionsOf kind actions now) : action = .timing now ∨ action ∈ actions := by
  rw [actionsOf] at inside
  split at inside
  · exact List.mem_cons.1 inside
  · exact .inr inside

theorem actionsOf_storable {kind : NodeKind} {actions : List Action} {now : Instant}
    (fits : ∀ action ∈ actions, action.Storable) :
    ∀ action ∈ actionsOf kind actions now, action.Storable := by
  intro action inside
  rcases mem_actionsOf inside with rfl | given
  · trivial
  · exact fits action given

/-- A graph that admits a node grows by it, with its actions. -/
theorem grow_yields {kind : NodeKind} {parents : List Nat} {name : String}
    {actions : List Action} {grown : Graph × Node} (usable : live.run.graph.IsUsable)
    (ok : live.run.graph.append kind parents name = .ok grown) :
    ∃ graph node,
      (∀ meets, Yields meets (grow kind parents name actions) live (.ok node)
        { live with run := { live.run with graph } }) ∧
      live.run.graph.Extends graph node ∧ node.kind = kind ∧
      ∀ action ∈ node.actions, action ∈ actionsOf kind actions live.machine.now := by
  obtain ⟨between, fresh⟩ := grown
  obtain ⟨extended, made⟩ := Graph.append_extends_of_below usable.below ok
  let given := actionsOf kind actions live.machine.now
  have attached := Graph.attachAll_attached extended.stored given
  have stored : (RepairPlan.attachAll between fresh.id given).get? fresh.id =
      some (fresh.attachEach given) := attached.stored
  rw [grow_eq]
  refine ⟨_, fresh.attachEach given, fun meets => .bind .get ?_, extended.attached attached usable.below,
    ?_, ?_⟩
  · rw [ok]
    refine .bind (.update _) ?_
    show Yields meets (pure (((RepairPlan.attachAll between fresh.id given).get?
      fresh.id).getD fresh)) _ _ _
    rw [stored]
    exact .pure _
  · rw [Node.attachEach_kind, made]
    rfl
  · intro action inside
    refine (Node.mem_attachEach inside).resolve_right fun old => ?_
    rw [made] at old
    cases old

/-- If the actions can be written, so can the graph. -/
theorem grown_storable {kind : NodeKind} {actions : List Action} {before graph : Graph}
    {node : Node} {now : Instant} (extended : before.Extends graph node) (well : before.WellFormed)
    (storable : before.Storable) (fits : ∀ action ∈ actions, action.Storable)
    (given : ∀ action ∈ node.actions, action ∈ actionsOf kind actions now) : graph.Storable :=
  extended.storable well storable fun action inside =>
    actionsOf_storable fits action (given action inside)

theorem grow_yields_error (meets : Disk → Prop) {kind : NodeKind} {parents : List Nat}
    {name : String} {actions : List Action} {fault : GraphFault}
    (refused : live.run.graph.append kind parents name = .error fault) :
    Yields meets (grow kind parents name actions) live (.error (.graph fault)) live := by
  rw [grow_eq]
  refine .bind .get ?_
  rw [refused]
  exact .throw _

/-- A run is closed as failed. -/
theorem endAsFailed_keeps (settled : Settled live image) (reason : String) :
    ∃ after image',
      Yields (after.run.Guarded (graphBefore live.run.diskFlag live.run.graph after.run.graph))
        (endAsFailed reason) live (.ok ()) after ∧
      Performs live after image image' true grows := by
  obtain ⟨repaired, after, image', done, tracked, onDisk, persisted, well, storable, le⟩ :=
    endAsFailed_yields settled.tracks settled.well settled.storable settled.sound.unfailed
      settled.kept reason
  have sound : after.run.life.Sound := by
    rw [tracked.life]
    exact ⟨rfl, settled.sound.recordId, settled.sound.recordHint, fun _ => rfl,
      settled.sound.unfailed⟩
  refine ⟨after, image', ?_, .of_onDisk tracked onDisk persisted well storable sound rfl rfl
    (fun resuming => by cases resuming) le (by simp)⟩
  rw [guarded_congr tracked.place_eq tracked.hint_eq tracked.graph_eq, tracked.graph_eq]
  exact done

/-! ## Appends and actions -/

/-- The actions that a draft brings along can be written. -/
def NodeDraft.Storable (draft : NodeDraft) : Prop := ∀ action ∈ draft.actions, action.Storable

/-- An append is a safe point if it closes a block, and if it closes the run. -/
def Run.appendIsSafe : Except Error Node → Bool
  | .ok node => node.kind.closes.isSome
  | .error error => error.isGraphFault

/-- A node that is in memory is marked, stored and, where it closes a block, made safe. -/
theorem storing_keeps {graph : Graph} (node : Node) (point : Bool) (settled : Settled live image)
    (running : live.run.phase.isComplete = false)
    (free : point = false → live.run.phase.holdsAppends = false)
    (le : live.run.graph.nextId ≤ graph.nextId) (well : graph.WellFormed) (storable : graph.Storable)
    {step : RunM Unit} {rest : RunM Node} {ids : List Nat}
    (stores : ∀ {between : LiveRun} {image₁ : Image},
      Tracks { live.run with graph } live.run.graph between image₁ →
      between.run.diskFlag = .dirty →
      ∃ after image₂, Yields ({ live.run with graph }.Guarded live.run.graph) step between
          (.ok ()) after ∧
        Tracks { live.run with graph } live.run.graph after image₂ ∧
        Stored between after image₁ image₂ ∧
        TakesOver graph ids (between.run.kept image₁) (after.run.kept image₂) ∧
        Waits { live.run with graph } after image₁ image₂)
    (lacks : ∀ id, id ∉ ids → graph.get? id = live.run.graph.get? id)
    (goes : ∀ {meets : Disk → Prop} {stored after : LiveRun},
      stored.run.phase = live.run.phase → Yields meets (wrapUp node point) stored (.ok node) after →
        Yields meets rest stored (.ok node) after) :
    ∃ after image', Yields (after.run.Guarded live.run.graph) (storing node step rest)
        { live with run := { live.run with graph } } (.ok node) after ∧
      Performs live after image image' point true := by
  obtain ⟨live₁, image₁, mark, tracks₁, dirtied⟩ := markDirty_yields (settled.tracks.grown le)
  obtain ⟨live₂, image₂, store, tracks₂, stored, takes, waits⟩ := stores tracks₁ dirtied.flag
  have kept : live₂.run.kept image₂ = graph.table := by
    rw [dirtied.kept_eq] at takes
    apply takes.eq_table
    intro id untouched
    have before : ({ live.run with graph } : Run).kept image = live.run.graph.table := settled.kept
    rw [before]
    exact (lacks id untouched).symm
  have pending : Pending live live₂ image image₂ :=
    .of_stored ⟨dirtied.flag, dirtied.record, dirtied.heads, dirtied.store, dirtied.persisted,
      dirtied.nodes, dirtied.checkpoint⟩ stored settled.record waits
  obtain ⟨after, image₃, wrap, grown, performs⟩ :=
    wrapUp_keeps settled tracks₂ pending kept well storable running free le
  have phase : live₂.run.phase = live.run.phase := tracks₂.phase_eq
  have same : after.run.Guarded live.run.graph =
      ({ live.run with graph } : Run).Guarded live.run.graph := by
    apply guarded_congr
    · exact performs.place_eq
    · exact performs.hint_eq
    · exact grown
  refine ⟨after, image₃, ?_, performs⟩
  rw [same]
  exact .bind mark.attempt (.bind store.attempt (goes phase wrap))

theorem growOrClose_yields {meets : Disk → Prop} {kind : NodeKind} {parents : List Nat}
    {name : String} {actions : List Action} {node : Node}
    (grows : Yields meets (grow kind parents name actions) live (.ok node) after) :
    Yields meets (growOrClose kind parents name actions) live (.ok node) after :=
  grows.attempt.bind (.pure node)

/-- A node that the graph does not admit has the run closed as failed. -/
theorem growOrClose_keeps_error (settled : Settled live image) {kind : NodeKind}
    {parents : List Nat} {name : String} {actions : List Action} {fault : GraphFault}
    (refused : live.run.graph.append kind parents name = .error fault) :
    ∃ after image', Yields (after.run.Guarded live.run.graph)
        (growOrClose kind parents name actions) live (.error (.graph fault)) after ∧
      Performs live after image image' true grows := by
  obtain ⟨after, image', done, performs⟩ :=
    endAsFailed_keeps settled (Error.graph fault).message
  have weaker := done.mono fun disk guarded => guarded.of_graphBefore
  exact ⟨after, image', .bind (grow_yields_error _ refused).attempt (.bind weaker (.throw _)),
    performs⟩

/-- So has a step that is appended. -/
theorem append_refused_keeps (settled : Settled live image) {draft : NodeDraft}
    (step : draft.kind.isBoundary = false) (running : live.run.phase.isComplete = false)
    {fault : GraphFault}
    (refused : live.run.graph.append draft.kind (draft.parents.getD live.run.graph.heads)
      draft.name = .error fault) (grows : Bool) :
    ∃ after image', Yields (after.run.Guarded live.run.graph) (append draft) live
        (.error (.graph fault)) after ∧ Performs live after image image' true grows := by
  obtain ⟨after, image', closes, performs⟩ := growOrClose_keeps_error settled refused
  refine ⟨after, image', ?_, performs⟩
  rw [append_eq, step]
  exact .bind (requireLive_yields _ _ running) (.bind .current (.bind_error closes))

/-- A node is appended; if the graph does not admit it the run is closed as failed. -/
theorem append_keeps (settled : Settled live image) {draft : NodeDraft} (fits : draft.Storable)
    (free : draft.kind.isBoundary = true ∨ live.run.phase.holdsAppends = false) :
    Keeps (append draft) live image appendIsSafe (fun outcome => outcome.isOk) := by
  rw [append_eq]
  cases boundary : draft.kind.isBoundary with
  | true =>
      refine .nothing (.error (.invalidState live.run.phase .appendBoundary)) settled
        (.bind .current (.bind_error (.throw _))) (fun point => by cases point) rfl
  | false =>
      have held : live.run.phase.holdsAppends = false := by simpa [boundary] using free
      cases complete : live.run.phase.isComplete with
      | true =>
          refine .nothing (.error (.invalidState live.run.phase .append)) settled
            (.bind_error (requireLive_yields_error _ _ complete)) (fun point => by cases point) rfl
      | false =>
          cases grown : live.run.graph.append draft.kind
              (draft.parents.getD live.run.graph.heads) draft.name with
          | error fault =>
              obtain ⟨after, image', closes, performs⟩ :=
                append_refused_keeps settled boundary complete grown _
              rw [append_eq, boundary] at closes
              exact ⟨.error (.graph fault), after, image', closes, performs⟩
          | ok made =>
              obtain ⟨graph, node, grows, extended, -, given⟩ := grow_yields settled.well.isUsable grown
              have storable := grown_storable extended settled.well settled.storable fits given
              obtain ⟨after, image', stored, performs⟩ :=
                storing_keeps node node.kind.closes.isSome settled complete (fun _ => held)
                  extended.nextId_le (extended.wellFormed settled.well) storable
                  (fun tracks dirty =>
                    storeStep_yields tracks dirty extended.stored fun _ => extended.start_stored)
                  (fun _ => extended.get?_of_not_mem_touched) fun _ => id
              exact ⟨.ok node, after, image', .bind (requireLive_yields _ _ complete)
                (.bind .current (.bind (growOrClose_yields (grows _)) stored)), performs⟩

/-- An action is attached to a node. -/
theorem attach_keeps (settled : Settled live image) (id : Nat) {action : Action}
    (fits : action.Storable) :
    Keeps (attach id action) live image
      (fun outcome => outcome.isOk && live.run.phase.holdsAppends)
      (fun outcome => outcome.isOk) := by
  rw [attach_eq]
  cases complete : live.run.phase.isComplete with
  | true =>
      exact .nothing (.error (.invalidState live.run.phase .attach)) settled
        (.bind_error (requireLive_yields_error _ _ complete)) (fun point => by cases point) rfl
  | false =>
      cases attached : live.run.graph.attach id action with
      | error fault =>
          refine .nothing (.error (.graph fault)) settled
            (.bind (requireLive_yields _ _ complete) (.bind .current ?_))
            (fun point => by cases point) rfl
          rw [attached]
          exact .throw _
      | ok made =>
          obtain ⟨graph, node⟩ := made
          have extended := Graph.attach_attached attached
          have there : live.run.graph.contains id = true := by
            obtain ⟨old, stored, -⟩ := Graph.attach_eq_ok.1 attached
            exact Graph.contains_of_get? stored
          have number : node.id = id := NodeTable.get?_id extended.stored
          subst number
          have goes {meets : Disk → Prop} {stored after : LiveRun}
              (same : stored.run.phase = live.run.phase)
              (wrap : Yields meets (wrapUp node live.run.phase.holdsAppends) stored (.ok node) after) :
              Yields meets (do wrapUp node (← current).phase.holdsAppends) stored (.ok node) after :=
            .bind .current (same ▸ wrap)
          obtain ⟨after, image', stored, performs⟩ :=
            storing_keeps node live.run.phase.holdsAppends settled complete id
              (Nat.le_of_eq extended.nextId_eq.symm) (extended.wellFormed there settled.well)
              (settled.storable.attach attached fits)
              (fun tracks dirty => storeNode_takes tracks dirty extended.stored)
              (fun other apart => extended.others other (by simpa using apart)) goes
          refine ⟨.ok node, after, image', .bind (requireLive_yields _ _ complete)
            (.bind .current ?_), performs⟩
          rw [attached]
          exact .bind (.update _) stored

/-! ## The end -/

/-- A run that ends with a node that was appended is on disk as ended. -/
theorem conclude_keeps {graph : Graph} {node : Node} (settled : Settled live image)
    (extended : live.run.graph.Extends graph node) (storable : graph.Storable)
    (result : RunResult) :
    ∃ after image', Yields (after.run.Guarded live.run.graph) (conclude [node] result)
        { live with run := { live.run with graph } } (.ok ()) after ∧
      Performs live after image image' true grows := by
  have well := extended.wellFormed settled.well
  have current : ∀ other ∈ [node], graph.get? other.id = some other := by
    simpa using extended.stored
  have opened : ∀ other ∈ [node], ∀ start, other.kind.closes = some start →
      graph.contains start = true := by
    simpa using fun start => extended.start_stored
  have lacks : ∀ id, id ∉ [node].flatMap Node.touched →
      (({ live.run with graph } : Run).kept image).get? id = graph.get? id := by
    intro id untouched
    have before : ({ live.run with graph } : Run).kept image = live.run.graph.table := settled.kept
    rw [before]
    exact (extended.get?_of_not_mem_touched (by simpa using untouched)).symm
  obtain ⟨after, image', done, tracked, onDisk, persisted⟩ :=
    conclude_yields (settled.tracks.grown extended.nextId_le) well settled.sound.unfailed result
      current opened lacks
  have sound : after.run.life.Sound := by
    rw [tracked.life]
    exact ⟨rfl, settled.sound.recordId, settled.sound.recordHint, fun _ => rfl,
      settled.sound.unfailed⟩
  refine ⟨after, image', ?_, .of_onDisk tracked onDisk persisted well storable sound rfl rfl
    (fun resuming => by cases resuming) extended.nextId_le (by simp)⟩
  rw [guarded_congr tracked.place_eq tracked.hint_eq tracked.graph_eq]
  exact done

/-- A run that is finished has ended on disk; so has one whose end is not admitted. -/
theorem finish_keeps (settled : Settled live image) (outcome : Outcome) :
    Keeps (finish outcome) live image
      (fun
        | .ok _ => true
        | .error error => error.isGraphFault)
      (fun _ => false) := by
  have fits : ∀ action ∈ outcome.actions, action.Storable := by
    cases outcome with
    | ok => simp [Outcome.actions]
    | error message => simp [Outcome.actions, Action.Storable]
  cases complete : live.run.phase.isComplete with
  | true =>
      exact .nothing (.error (.invalidState live.run.phase .finish)) settled
        (.bind_error (requireLive_yields_error _ _ complete)) (fun point => by cases point) rfl
  | false =>
      cases grown : live.run.graph.append .flowEnd live.run.graph.heads flowEndName with
      | error fault =>
          obtain ⟨after, image', closes, performs⟩ := growOrClose_keeps_error settled grown
          exact ⟨.error (.graph fault), after, image',
            .bind (requireLive_yields _ _ complete) (.bind .current (.bind_error closes)), performs⟩
      | ok made =>
          obtain ⟨graph, node, grows, extended, -, given⟩ := grow_yields settled.well.isUsable grown
          have storable := grown_storable extended settled.well settled.storable fits given
          obtain ⟨after, image', concludes, performs⟩ :=
            conclude_keeps settled extended storable outcome.result
          exact ⟨.ok node, after, image', .bind (requireLive_yields _ _ complete)
            (.bind .current (.bind (growOrClose_yields (grows _)) (.bind concludes (.pure node)))),
            performs⟩

/-- A run that is closed as failed is on disk; one that has ended is left alone. -/
theorem fail_keeps (settled : Settled live image) (reason : String) :
    ∃ after image',
      Yields (after.run.Guarded (graphBefore live.run.diskFlag live.run.graph after.run.graph))
        (fail reason) live (.ok ()) after ∧
      Performs live after image image' true false := by
  cases complete : live.run.phase.isComplete with
  | true =>
      have saved := settled.atRest (by simp [mustBeSaved, complete])
      refine ⟨live, image, .bind .current ?_, .nothing settled fun _ => saved⟩
      rw [complete]
      exact .pure ()
  | false =>
      obtain ⟨after, image', closes, performs⟩ := endAsFailed_keeps settled reason
      refine ⟨after, image', .bind .current ?_, performs⟩
      rw [complete]
      exact closes

end Growing
end DurableRuns
