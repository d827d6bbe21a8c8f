/-
# DurableRuns.Proofs.Json.Records -- reading back the parts of a printed value

The laws by which a typed value is read off the JSON value that was made from it: a text, a
number, a list, and the fields of a record.  An ordinary value is meaningful throughout, so a
tagged record only has to be nested no deeper than the room allows (`tagged?_record`).
-/
import DurableRuns.Proofs.Json.Printed

namespace DurableRuns.Json

set_option autoImplicit false

/-! ## Texts, numbers and lists -/

@[simp]
theorem text?_text (s : String) : (text s).text? = some s :=
  bodyText?_escape s

@[simp]
theorem choice?_text (s : String) : (text s).choice? = some s :=
  bodyText?_escape s

theorem natBelow?_nat {bound n : Nat} (below : n < bound) : (nat n).natBelow? bound = some n := by
  rw [nat_eq, natBelow?, nat?_natural]
  simp [below]

/-- A number that is read is below the bound. -/
theorem lt_of_natBelow? {value : Json} {bound n : Nat} (read : value.natBelow? bound = some n) :
    n < bound := by
  unfold natBelow? at read
  split at read
  · exact of_decide_eq_true (Option.filter_eq_some_iff.1 read).2
  · cases read

/-- What is read from an array was read from its items. -/
theorem exists_of_list? {α : Type} {read : Json → Option α} {value : Json} {found : List α}
    (reads : value.list? read = some found) {member : α} (inside : member ∈ found) :
    ∃ item, read item = some member := by
  unfold list? at reads
  split at reads
  next items =>
    induction items generalizing found with
    | nil =>
        cases reads
        cases inside
    | cons item rest ih =>
        simp only [List.mapM_cons, Option.bind_eq_bind, Option.bind_eq_some_iff, Option.pure_def,
          Option.some.injEq] at reads
        obtain ⟨first, here, others, there, rfl⟩ := reads
        rcases List.mem_cons.1 inside with rfl | later
        · exact ⟨item, here⟩
        · exact ih later there
  next => cases reads

theorem word?_nat {n : Nat} (word : n < UInt64.size) : (nat n).word? = some n :=
  natBelow?_nat word

theorem list?_array {α : Type} {read : Json → Option α} {write : α → Json} {items : List α}
    (back : ∀ item ∈ items, read (write item) = some item) :
    (Json.array (items.map write)).list? read = some items := by
  rw [list?]
  induction items with
  | nil => rfl
  | cons item items ih =>
      have later : ∀ item ∈ items, read (write item) = some item := fun item member =>
        back item (List.mem_cons_of_mem _ member)
      rw [List.map_cons, List.mapM_cons, back item List.mem_cons_self, ih later]
      rfl

theorem list?_words {ids : List Nat} (words : ∀ id ∈ ids, id < UInt64.size) :
    (Json.array (ids.map nat)).list? word? = some ids :=
  list?_array fun id member => word?_nat (words id member)

/-! ## Records -/

/-- The members of a record as they stand in the object. -/
def written (members : List (String × Json)) : List (Bytes × Json) :=
  members.map fun member => (escape member.1, member.2)

theorem written_cons (member : String × Json) (members : List (String × Json)) :
    written (member :: members) = (escape member.1, member.2) :: written members := rfl

theorem record_eq (members : List (String × Json)) : record members = .object (written members) :=
  rfl

theorem named?_written (members : List (String × Json)) :
    named? (written members) = some members := by
  induction members with
  | nil => rfl
  | cons first members ih =>
      unfold named? written at ih
      unfold named? written
      rw [List.map_cons, List.mapM_cons, ih]
      simp only [bodyText?_escape]
      rfl

theorem fields?_record (names : List String) (members : List (String × Json)) :
    (record members).fields? names = names.mapM (member? members) := by
  rw [record_eq, fields?, named?_written]
  rfl

theorem allFields?_record (names : List String) (members : List (String × Json)) :
    (record members).allFields? names = (names.mapM (member? members)).bind (·.mapM id) := by
  rw [allFields?, fields?_record]
  rfl

/-! ## Ordinary values -/

theorem isOrdinary_text (s : String) : IsOrdinary (text s) := by
  rw [text, IsOrdinary]
  exact ⟨s, rfl⟩

theorem isOrdinary_nat {n : Nat} (word : n < UInt64.size) : IsOrdinary (nat n) := by
  rw [nat_eq, IsOrdinary]
  exact ⟨n, word, rfl⟩

theorem isOrdinary_bool (b : Bool) : IsOrdinary (.bool b) := by
  rw [IsOrdinary]
  trivial

theorem isOrdinary_array {items : List Json} (ordinary : ∀ item ∈ items, IsOrdinary item) :
    IsOrdinary (.array items) := by
  rw [IsOrdinary]
  induction items with
  | nil => rw [AllOrdinary]; trivial
  | cons item items ih =>
      rw [AllOrdinary]
      exact ⟨ordinary item List.mem_cons_self,
        ih fun other member => ordinary other (List.mem_cons_of_mem _ member)⟩

theorem isOrdinary_words {ids : List Nat} (words : ∀ id ∈ ids, id < UInt64.size) :
    IsOrdinary (.array (ids.map nat)) := by
  apply isOrdinary_array
  intro item member
  obtain ⟨id, inside, rfl⟩ := List.mem_map.1 member
  exact isOrdinary_nat (words id inside)

theorem isOrdinary_record {members : List (String × Json)}
    (ordinary : ∀ member ∈ members, IsOrdinary member.2) : IsOrdinary (record members) := by
  rw [record_eq, IsOrdinary]
  induction members with
  | nil => rw [written, List.map_nil, MembersOrdinary]; trivial
  | cons first members ih =>
      rw [written, List.map_cons, MembersOrdinary]
      exact ⟨⟨first.1, rfl⟩, ordinary first List.mem_cons_self,
        ih fun other member => ordinary other (List.mem_cons_of_mem _ member)⟩

/-! ## Numbers of any size -/

/-- The value is read back from its form with one item per line, wherever it stands. -/
def IsReadBack (found : Json) : Prop := ∀ level, ReadsAs found (prettyAt level found)

theorem IsOrdinary.isReadBack {found : Json} (ordinary : IsOrdinary found) : IsReadBack found :=
  fun level => readsAs_prettyAt level ordinary

theorem IsReadBack.parse_pretty {found : Json} (back : IsReadBack found) :
    parse (pretty found) = some found :=
  parse_eq_some (back 0)

theorem isReadBack_nat (n : Nat) : IsReadBack (nat n) := by
  intro level
  rw [nat_eq, prettyAt, print_natural]
  exact readsAs_nat n

theorem isReadBack_array {items : List Json} (back : ∀ item ∈ items, IsReadBack item) :
    IsReadBack (.array items) := by
  have others (level : Nat) (items : List Json) (back : ∀ item ∈ items, IsReadBack item) :
      ReadsAsItems items (prettyItems level items) := by
    induction items with
    | nil =>
        rw [prettyItems]
        exact readsAsItems_nil.spaces (isSpace_newline level)
    | cons item rest ih =>
        obtain ⟨first, later⟩ := List.forall_mem_cons.1 back
        have whole := readsAsItems_cons ((first (level + 1)).spaces (isSpace_newline (level + 1)))
          (ih later)
        rw [prettyItems]
        simpa using whole
  intro level
  cases items with
  | nil =>
      rw [prettyAt]
      exact readsAs_emptyArray
  | cons item rest =>
      obtain ⟨first, later⟩ := List.forall_mem_cons.1 back
      have whole := readsAs_array ((first (level + 1)).spaces (isSpace_newline (level + 1)))
        (others level rest later)
      rw [prettyAt]
      simpa using whole

theorem isReadBack_record {members : List (String × Json)}
    (back : ∀ member ∈ members, IsReadBack member.2) : IsReadBack (record members) := by
  have others (level : Nat) (members : List (String × Json))
      (back : ∀ member ∈ members, IsReadBack member.2) :
      ReadsAsMembers (written members) (prettyMembers level (written members)) := by
    induction members with
    | nil =>
        rw [written, List.map_nil, prettyMembers]
        exact readsAsMembers_nil.spaces (isSpace_newline level)
    | cons member rest ih =>
        obtain ⟨first, later⟩ := List.forall_mem_cons.1 back
        have whole := readsAsMembers_cons member.1 (isSpace_newline (level + 1))
          ((first (level + 1)).spaces isSpace_single) (ih later)
        rw [written_cons, prettyMembers]
        simpa [quoted_escape] using whole
  intro level
  rw [record_eq]
  cases members with
  | nil =>
      rw [written, List.map_nil, prettyAt]
      exact readsAs_emptyObject
  | cons member rest =>
      obtain ⟨first, later⟩ := List.forall_mem_cons.1 back
      have whole := readsAs_object member.1 (isSpace_newline (level + 1))
        ((first (level + 1)).spaces isSpace_single) (others level rest later)
      rw [written_cons, prettyAt]
      simpa [quoted_escape] using whole

/-! ## Meanings -/

mutual

/-- Whatever the library writes has a meaning. -/
theorem IsOrdinary.isMeaningful : ∀ {found : Json}, IsOrdinary found → found.isMeaningful = true
  | .null, _ => by rw [Json.isMeaningful] <;> simp
  | .bool _, _ => by rw [Json.isMeaningful] <;> simp
  | .number _, ordinary => by
      rw [IsOrdinary] at ordinary
      obtain ⟨n, word, rfl⟩ := ordinary
      rw [Json.isMeaningful]
      exact isFinite_natural word
  | .string _, ordinary => by
      rw [IsOrdinary] at ordinary
      obtain ⟨s, rfl⟩ := ordinary
      rw [Json.isMeaningful, bodyText?_escape]
      rfl
  | .array items, ordinary => by
      rw [IsOrdinary] at ordinary
      rw [Json.isMeaningful]
      exact ordinary.allMeaningful
  | .object members, ordinary => by
      rw [IsOrdinary] at ordinary
      rw [Json.isMeaningful]
      exact ordinary.membersMeaningful

theorem AllOrdinary.allMeaningful : ∀ {items : List Json}, AllOrdinary items →
    Json.allMeaningful items = true
  | [], _ => by rw [Json.allMeaningful]
  | item :: items, ordinary => by
      rw [AllOrdinary] at ordinary
      rw [Json.allMeaningful, ordinary.1.isMeaningful, ordinary.2.allMeaningful]
      rfl

theorem MembersOrdinary.membersMeaningful : ∀ {members : List (Bytes × Json)},
    MembersOrdinary members → Json.membersMeaningful members = true
  | [], _ => by rw [Json.membersMeaningful]
  | (key, value) :: members, ordinary => by
      rw [MembersOrdinary] at ordinary
      obtain ⟨⟨name, rfl⟩, ordinaryValue, ordinaryRest⟩ := ordinary
      rw [Json.membersMeaningful, bodyText?_escape, ordinaryValue.isMeaningful,
        ordinaryRest.membersMeaningful]
      rfl

end

theorem fits_of_isOrdinary {found : Json} {room : Nat} (ordinary : IsOrdinary found)
    (shallow : found.nesting ≤ room) : fits room found = true := by
  simp [fits, shallow, ordinary.isMeaningful]

/-! ## Nesting -/

@[simp]
theorem nesting_text (s : String) : (text s).nesting = 0 := by
  rw [text, nesting] <;> simp

@[simp]
theorem nesting_nat (n : Nat) : (nat n).nesting = 0 := by
  rw [nat_eq, nesting] <;> simp

@[simp]
theorem nesting_bool (b : Bool) : (Json.bool b).nesting = 0 := by
  rw [nesting] <;> simp

theorem nesting_record_le {members : List (String × Json)} {depth : Nat}
    (shallow : ∀ member ∈ members, member.2.nesting ≤ depth) :
    (record members).nesting ≤ depth + 1 := by
  have inside : nestingMembers (written members) ≤ depth := by
    induction members with
    | nil => rw [written, List.map_nil, nestingMembers]; exact Nat.zero_le depth
    | cons first members ih =>
        rw [written, List.map_cons, nestingMembers]
        exact Nat.max_le.2 ⟨shallow first List.mem_cons_self,
          ih fun other member => shallow other (List.mem_cons_of_mem _ member)⟩
  rw [record_eq, nesting]
  omega

/-- A tagged record is taken apart into its tag and itself. -/
theorem tagged?_record {room : Nat} {tag : String} {members : List (String × Json)}
    (ordinary : IsOrdinary (record members)) (shallow : (record members).nesting ≤ room)
    (found : member? members "type" = some (some (text tag))) :
    (record members).tagged? room = some (tag, record members) := by
  have fitting := fits_of_isOrdinary ordinary shallow
  rw [record_eq] at fitting ⊢
  rw [tagged?, if_pos fitting]
  simp [named?_written, found]

end DurableRuns.Json
