/-
# DurableRuns.Proofs.Flow.Written -- a written node is read back

A number in a file has 64 bits.  A node is *storable* if its numbers have no more; then it is
read back from its record unchanged (`Node.ofJson?_toJson`), with all its actions, and so is a
list of such nodes.
-/
import DurableRuns.Flow.NodeTable
import DurableRuns.Proofs.Json.Records
import DurableRuns.Proofs.Time.Written

namespace DurableRuns

set_option autoImplicit false

open Json

/-! ## Arguments -/

namespace Arguments

theorem insertInto_last {name text : String} {entries : List (String × String)}
    (after : ∀ entry ∈ entries, entry.1 < name) :
    insertInto name text entries = entries ++ [(name, text)] := by
  induction entries with
  | nil => rfl
  | cons first entries ih =>
      have higher := after first List.mem_cons_self
      have notLower : ¬ name < first.1 := fun lower =>
        String.lt_irrefl _ (String.lt_trans lower higher)
      have later : ∀ entry ∈ entries, entry.1 < name := fun entry member =>
        after entry (List.mem_cons_of_mem _ member)
      simp [insertInto, notLower, higher, ih later]

theorem foldl_insert {later : List (String × String)} (start : Arguments)
    (ordered : (start.entries ++ later).Pairwise fun a b => a.1 < b.1) :
    (later.foldl (fun arguments (name, text) => arguments.insert name text) start).entries =
      start.entries ++ later := by
  induction later generalizing start with
  | nil => simp
  | cons first later ih =>
      have last : (start.insert first.1 first.2).entries = start.entries ++ [first] :=
        insertInto_last fun entry member =>
          (List.pairwise_append.1 ordered).2.2 entry member first List.mem_cons_self
      have still : ((start.insert first.1 first.2).entries ++ later).Pairwise
          fun a b => a.1 < b.1 := by
        rw [last]
        simpa using ordered
      rw [List.foldl_cons, ih (start.insert first.1 first.2) still, last]
      simp

theorem eq_of_entries {a b : Arguments} (same : a.entries = b.entries) : a = b := by
  cases a
  cases b
  cases same
  rfl

theorem ofList_entries (arguments : Arguments) : ofList arguments.entries = arguments := by
  apply eq_of_entries
  have ordered : (empty.entries ++ arguments.entries).Pairwise fun a b => a.1 < b.1 := by
    simpa [empty] using arguments.ascending
  exact foldl_insert empty ordered

/-- The members of the object that arguments are written as. -/
def members (arguments : Arguments) : List (String × Json) :=
  arguments.entries.map fun entry => (entry.1, text entry.2)

/-- Arguments are read back from their object. -/
theorem ofJson?_toJson (arguments : Arguments) : ofJson? arguments.toJson = some arguments := by
  have texts : (members arguments).mapM
      (fun member => member.2.text?.map (member.1, ·)) = some arguments.entries := by
    unfold members
    induction arguments.entries with
    | nil => rfl
    | cons first entries ih =>
        rw [List.map_cons, List.mapM_cons, ih]
        simp
  change (do
    let members ← named? (written (members arguments))
    let entries ← members.mapM fun (member : String × Json) => member.2.text?.map (member.1, ·)
    some (ofList entries)) = _
  rw [named?_written]
  simp only [Option.bind_eq_bind, Option.bind_some, texts, ofList_entries]

theorem isOrdinary_toJson (arguments : Arguments) : IsOrdinary arguments.toJson := by
  apply isOrdinary_record
  intro member inside
  obtain ⟨entry, -, rfl⟩ := List.mem_map.1 inside
  exact isOrdinary_text entry.2

theorem nesting_toJson (arguments : Arguments) : arguments.toJson.nesting ≤ 1 := by
  apply nesting_record_le
  intro member inside
  obtain ⟨entry, -, rfl⟩ := List.mem_map.1 inside
  exact Nat.le_of_eq (nesting_text entry.2)

end Arguments

/-! ## Kinds and actions -/

/-- The number of a step start that the kind names has 64 bits. -/
def NodeKind.Storable : NodeKind → Prop
  | .stepEnd start => start < UInt64.size
  | _ => True

/-- The number of a node that the action names has 64 bits. -/
def Action.Storable : Action → Prop
  | .blockEnd closing => closing < UInt64.size
  | _ => True

theorem time?_timeJson (t : Instant) : Action.time? (Action.timeJson t) = some t := by
  rw [Action.timeJson, Action.time?, text?_text]
  simp [Instant.parse?_print]

theorem isOrdinary_timeJson (t : Instant) : IsOrdinary (Action.timeJson t) :=
  isOrdinary_text _

theorem NodeKind.isOrdinary_toJson {kind : NodeKind} (storable : kind.Storable) :
    IsOrdinary kind.toJson := by
  cases kind <;> refine isOrdinary_record fun member inside => ?_ <;> simp at inside
  case flowStart => subst inside; exact isOrdinary_text _
  case flowEnd => subst inside; exact isOrdinary_text _
  case stepStart =>
    rcases inside with rfl | rfl
    · exact isOrdinary_text _
    · exact isOrdinary_bool _
  case stepEnd =>
    rcases inside with rfl | rfl
    · exact isOrdinary_text _
    · exact isOrdinary_nat storable
  case atom => subst inside; exact isOrdinary_text _

theorem NodeKind.isReadBack_toJson (kind : NodeKind) : IsReadBack kind.toJson := by
  cases kind with
  | stepEnd start =>
      refine isReadBack_record fun member inside => ?_
      simp only [List.mem_cons, List.not_mem_nil, or_false] at inside
      rcases inside with rfl | rfl
      · exact (isOrdinary_text _).isReadBack
      · exact isReadBack_nat start
  | _ => exact (isOrdinary_toJson (by trivial)).isReadBack

theorem NodeKind.nesting_toJson (kind : NodeKind) : kind.toJson.nesting ≤ 1 := by
  cases kind <;> refine nesting_record_le fun member inside => ?_ <;> simp at inside
  case flowStart => subst inside; simp
  case flowEnd => subst inside; simp
  case stepStart => rcases inside with rfl | rfl <;> simp
  case stepEnd => rcases inside with rfl | rfl <;> simp
  case atom => subst inside; simp

theorem NodeKind.ofJson?_toJson {kind : NodeKind} {room : Nat} (storable : kind.Storable)
    (deep : 1 ≤ room) : ofJson? room kind.toJson = some kind := by
  have ordinary := kind.isOrdinary_toJson storable
  have shallow := Nat.le_trans kind.nesting_toJson deep
  unfold NodeKind.ofJson?
  cases kind with
  | flowStart =>
      rw [toJson, tagged?_record ordinary shallow (by rfl)]
      rfl
  | flowEnd =>
      rw [toJson, tagged?_record ordinary shallow (by rfl)]
      rfl
  | stepStart block =>
      rw [toJson, tagged?_record ordinary shallow (by rfl)]
      simp only [Option.bind_eq_bind, Option.bind_some, ofTag?, allFields?_record]
      rfl
  | stepEnd start =>
      have back := word?_nat storable
      rw [toJson, tagged?_record ordinary shallow (by rfl)]
      simp only [Option.bind_eq_bind, Option.bind_some, ofTag?, allFields?_record]
      change ((nat start).word?.bind fun start => some (stepEnd start)) = _
      rw [back]
      rfl
  | atom =>
      rw [toJson, tagged?_record ordinary shallow (by rfl)]
      rfl

theorem Action.isOrdinary_toJson {action : Action} (storable : action.Storable) :
    IsOrdinary action.toJson := by
  have pair (tag name : String) {value : Json} (ordinary : IsOrdinary value) :
      IsOrdinary (.record [("type", .text tag), (name, value)]) := by
    refine isOrdinary_record fun member inside => ?_
    simp only [List.mem_cons, List.not_mem_nil, or_false] at inside
    rcases inside with rfl | rfl
    · exact isOrdinary_text tag
    · exact ordinary
  cases action with
  | timing startedAt => exact pair _ _ (isOrdinary_timeJson startedAt)
  | arguments values => exact pair _ _ values.isOrdinary_toJson
  | log handle => exact pair _ _ (isOrdinary_text handle)
  | label text => exact pair _ _ (isOrdinary_text text)
  | blockEnd closing => exact pair _ _ (isOrdinary_nat storable)
  | error message => exact pair _ _ (isOrdinary_text message)
  | abnormalClosure reason => exact pair _ _ (isOrdinary_text reason)

theorem Action.isReadBack_toJson (action : Action) : IsReadBack action.toJson := by
  cases action with
  | blockEnd closing =>
      refine isReadBack_record fun member inside => ?_
      simp only [List.mem_cons, List.not_mem_nil, or_false] at inside
      rcases inside with rfl | rfl
      · exact (isOrdinary_text _).isReadBack
      · exact isReadBack_nat closing
  | _ => exact (isOrdinary_toJson (by trivial)).isReadBack

theorem Action.nesting_toJson (action : Action) : action.toJson.nesting ≤ 2 := by
  have pair (tag name : String) {value : Json} (shallow : value.nesting ≤ 1) :
      (Json.record [("type", .text tag), (name, value)]).nesting ≤ 2 := by
    refine nesting_record_le fun member inside => ?_
    simp only [List.mem_cons, List.not_mem_nil, or_false] at inside
    rcases inside with rfl | rfl
    · simp
    · exact shallow
  cases action with
  | arguments values => exact pair _ _ values.nesting_toJson
  | _ => exact pair _ _ (by simp [timeJson])

theorem Action.ofJson?_toJson {action : Action} {room : Nat} (storable : action.Storable)
    (deep : 2 ≤ room) : ofJson? room action.toJson = some action := by
  have ordinary := action.isOrdinary_toJson storable
  have shallow := Nat.le_trans action.nesting_toJson deep
  have only (tag name : String) (value : Json)
      (found : member? [("type", .text tag), (name, value)] name = some (some value)) :
      only? name (.record [("type", .text tag), (name, value)]) = some value := by
    rw [only?, allFields?_record]
    simp [found]
  unfold Action.ofJson?
  cases action with
  | timing startedAt =>
      rw [toJson, tagged?_record ordinary shallow (by rfl)]
      simp only [Option.bind_eq_bind, Option.bind_some, ofTag?]
      rw [only _ _ _ (by rfl)]
      simp [time?_timeJson]
  | arguments values =>
      rw [toJson, tagged?_record ordinary shallow (by rfl)]
      simp only [Option.bind_eq_bind, Option.bind_some, ofTag?]
      rw [only _ _ _ (by rfl)]
      simp [values.ofJson?_toJson]
  | log handle =>
      rw [toJson, tagged?_record ordinary shallow (by rfl)]
      simp only [Option.bind_eq_bind, Option.bind_some, ofTag?]
      rw [only _ _ _ (by rfl)]
      simp
  | label text =>
      rw [toJson, tagged?_record ordinary shallow (by rfl)]
      simp only [Option.bind_eq_bind, Option.bind_some, ofTag?]
      rw [only _ _ _ (by rfl)]
      simp
  | blockEnd closing =>
      rw [toJson, tagged?_record ordinary shallow (by rfl)]
      simp only [Option.bind_eq_bind, Option.bind_some, ofTag?]
      rw [only _ _ _ (by rfl)]
      simp [word?_nat storable]
  | error message =>
      rw [toJson, tagged?_record ordinary shallow (by rfl)]
      simp only [Option.bind_eq_bind, Option.bind_some, ofTag?]
      rw [only _ _ _ (by rfl)]
      simp
  | abnormalClosure reason =>
      rw [toJson, tagged?_record ordinary shallow (by rfl)]
      simp only [Option.bind_eq_bind, Option.bind_some, ofTag?]
      rw [only _ _ _ (by rfl)]
      simp

/-- A kind that is read can be written and read again. -/
theorem NodeKind.storable_of_ofJson? {room : Nat} {value : Json} {kind : NodeKind}
    (read : ofJson? room value = some kind) : kind.Storable := by
  obtain ⟨⟨tag, body⟩, -, read⟩ := Option.bind_eq_some_iff.1 read
  cases kind with
  | stepEnd start =>
      change ofTag? body tag = _ at read
      unfold ofTag? at read
      split at read
      case h_4 =>
        obtain ⟨fields, -, read⟩ := Option.bind_eq_some_iff.1 read
        split at read
        next =>
          obtain ⟨found, word, same⟩ := Option.bind_eq_some_iff.1 read
          cases same
          exact lt_of_natBelow? word
        next => cases read
      case h_3 =>
        obtain ⟨fields, -, read⟩ := Option.bind_eq_some_iff.1 read
        split at read
        next =>
          obtain ⟨found, -, same⟩ := Option.bind_eq_some_iff.1 read
          cases same
        next => cases read
      all_goals simp at read
  | _ => trivial

/-- An action that is read can be written and read again. -/
theorem Action.storable_of_ofJson? {room : Nat} {value : Json} {action : Action}
    (read : ofJson? room value = some action) : action.Storable := by
  obtain ⟨⟨tag, body⟩, -, read⟩ := Option.bind_eq_some_iff.1 read
  cases action with
  | blockEnd closing =>
      change ofTag? body tag = _ at read
      unfold ofTag? at read
      split at read
      case h_5 =>
        simp only [Option.bind_eq_bind, Option.bind_eq_some_iff, Option.some.injEq,
          blockEnd.injEq] at read
        obtain ⟨_, -, _, word, rfl⟩ := read
        exact lt_of_natBelow? word
      all_goals simp [Option.bind_eq_some_iff] at read
  | _ => trivial

/-! ## Nodes -/

namespace Node

/-- Every number in the node has 64 bits. -/
structure Storable (node : Node) : Prop where
  id_lt : node.id < UInt64.size
  kind : node.kind.Storable
  parents : ∀ parent ∈ node.parents, parent < UInt64.size
  actions : ∀ action ∈ node.actions, action.Storable

theorem isOrdinary_toJson {node : Node} (storable : node.Storable) :
    IsOrdinary node.toJson := by
  refine isOrdinary_record fun member inside => ?_
  simp only [List.mem_cons, List.not_mem_nil, or_false] at inside
  rcases inside with rfl | rfl | rfl | rfl | rfl
  · exact isOrdinary_nat storable.id_lt
  · exact node.kind.isOrdinary_toJson storable.kind
  · exact isOrdinary_text node.name
  · exact isOrdinary_words storable.parents
  · refine isOrdinary_array fun item inside => ?_
    obtain ⟨action, member, rfl⟩ := List.mem_map.1 inside
    exact action.isOrdinary_toJson (storable.actions action member)

/-- The text of a node is parsed back, even if its numbers are too large for the node to be read. -/
theorem isReadBack_toJson (node : Node) : IsReadBack node.toJson := by
  refine isReadBack_record fun member inside => ?_
  simp only [List.mem_cons, List.not_mem_nil, or_false] at inside
  rcases inside with rfl | rfl | rfl | rfl | rfl
  · exact isReadBack_nat node.id
  · exact node.kind.isReadBack_toJson
  · exact (isOrdinary_text node.name).isReadBack
  · refine isReadBack_array fun item inside => ?_
    obtain ⟨parent, -, rfl⟩ := List.mem_map.1 inside
    exact isReadBack_nat parent
  · refine isReadBack_array fun item inside => ?_
    obtain ⟨action, -, rfl⟩ := List.mem_map.1 inside
    exact action.isReadBack_toJson

/-- A storable node is read back from its record. -/
theorem ofJson?_toJson {node : Node} {room : Nat} (storable : node.Storable)
    (deep : 4 ≤ room) : ofJson? room node.toJson = some node := by
  have kind : NodeKind.ofJson? (room - 1) node.kind.toJson = some node.kind :=
    node.kind.ofJson?_toJson storable.kind (by omega)
  have actions : (Json.array (node.actions.map Action.toJson)).list?
      (Action.ofJson? (room - 2)) = some node.actions :=
    list?_array fun action member =>
      action.ofJson?_toJson (storable.actions action member) (by omega)
  have fields : node.toJson.fields? ["id", "kind", "name", "parents", "actions"] =
      some [some (nat node.id), some node.kind.toJson, some (text node.name),
        some (.array (node.parents.map nat)), some (.array (node.actions.map Action.toJson))] := by
    rw [toJson, fields?_record]
    rfl
  unfold ofJson?
  rw [fields]
  simp only [Option.bind_eq_bind, Option.bind_some, word?_nat storable.id_lt, kind, text?_text,
    list?_words storable.parents, actions]

/-- A node that is read can be written and read again: its numbers have 64 bits. -/
theorem storable_of_ofJson? {room : Nat} {value : Json} {node : Node}
    (read : ofJson? room value = some node) : node.Storable := by
  unfold ofJson? at read
  obtain ⟨fields, -, read⟩ := Option.bind_eq_some_iff.1 read
  split at read
  next id kind name parents actions =>
    simp only [Option.bind_eq_bind, Option.bind_eq_some_iff] at read
    obtain ⟨_, -, number, word, _, -, found, kindRead, _, -, text, -, _, -, above, parentsRead, read⟩ :=
      read
    have shape : ∃ listed, node = ⟨number, found, text, above, listed⟩ ∧
        ∀ action ∈ listed, action.Storable := by
      split at read
      next =>
        cases read
        exact ⟨[], rfl, fun action none => absurd none List.not_mem_nil⟩
      next =>
        obtain ⟨listed, actionsRead, same⟩ := Option.bind_eq_some_iff.1 read
        cases same
        refine ⟨listed, rfl, fun action inside => ?_⟩
        obtain ⟨_, read⟩ := exists_of_list? actionsRead inside
        exact Action.storable_of_ofJson? read
    obtain ⟨listed, rfl, actionsStorable⟩ := shape
    constructor
    case id_lt => exact lt_of_natBelow? word
    case kind => exact NodeKind.storable_of_ofJson? kindRead
    case parents =>
      intro parent inside
      obtain ⟨_, word⟩ := exists_of_list? parentsRead inside
      exact lt_of_natBelow? word
    case actions => exact actionsStorable
  next => cases read
/-- A list of storable nodes is read back from its array. -/
theorem listOfJson?_toJson {nodes : List Node} {room : Nat}
    (storable : ∀ node ∈ nodes, node.Storable) (deep : 5 ≤ room) :
    listOfJson? room (.array (nodes.map toJson)) = some nodes :=
  list?_array fun node member => node.ofJson?_toJson (storable node member) (by omega)

theorem isOrdinary_listToJson {nodes : List Node} (storable : ∀ node ∈ nodes, node.Storable) :
    IsOrdinary (.array (nodes.map toJson)) := by
  refine isOrdinary_array fun item inside => ?_
  obtain ⟨node, member, rfl⟩ := List.mem_map.1 inside
  exact node.isOrdinary_toJson (storable node member)

end Node
end DurableRuns
