/-
# DurableRuns.Proofs.Json.Printed -- what was printed is parsed

A value is *ordinary* if it is built from texts and numbers of 64 bits: the library writes no
other values.  Main statements: an ordinary value is parsed back from both of its written forms
(`parse_pretty`, `parse_compact`).
-/
import DurableRuns.Json.Printer
import DurableRuns.Proofs.Json.Layout

namespace DurableRuns.Json

set_option autoImplicit false

mutual

/-- The value is built from texts and numbers of 64 bits. -/
def IsOrdinary : Json → Prop
  | .null => True
  | .bool _ => True
  | .number numeral => ∃ n < UInt64.size, numeral = natural n
  | .string body => ∃ s, body = escape s
  | .array items => AllOrdinary items
  | .object members => MembersOrdinary members

/-- Every item is ordinary. -/
def AllOrdinary : List Json → Prop
  | [] => True
  | item :: items => IsOrdinary item ∧ AllOrdinary items

/-- Every key is a text and every value is ordinary. -/
def MembersOrdinary : List (Bytes × Json) → Prop
  | [] => True
  | (key, value) :: members => (∃ s, key = escape s) ∧ IsOrdinary value ∧ MembersOrdinary members

end

theorem print_natural (n : Nat) : (natural n).print = digits n := by
  simp [natural, Numeral.print]

theorem quoted_escape (s : String) : quoted (escape s) = 34 :: escape s ++ [34] := rfl

theorem isSpace_newline (level : Nat) : IsSpace (newline level) := by
  intro b member
  simp only [newline, List.mem_cons, List.mem_replicate] at member
  rcases member with rfl | ⟨-, rfl⟩ <;> decide

theorem isSpace_single : IsSpace [32] := by
  intro b member
  simp only [List.mem_singleton] at member
  subst member
  decide

/-! ## One item per line -/

mutual

theorem readsAs_prettyAt (level : Nat) : ∀ {found : Json}, IsOrdinary found →
    ReadsAs found (prettyAt level found)
  | .null, _ => by rw [prettyAt]; exact readsAs_null
  | .bool true, _ => by rw [prettyAt]; exact readsAs_true
  | .bool false, _ => by rw [prettyAt]; exact readsAs_false
  | .number numeral, ordinary => by
      rw [IsOrdinary] at ordinary
      obtain ⟨n, -, rfl⟩ := ordinary
      rw [prettyAt, print_natural]
      exact readsAs_nat n
  | .string body, ordinary => by
      rw [IsOrdinary] at ordinary
      obtain ⟨s, rfl⟩ := ordinary
      rw [prettyAt]
      exact readsAs_text s
  | .array [], _ => by rw [prettyAt]; exact readsAs_emptyArray
  | .array (item :: items), ordinary => by
      rw [IsOrdinary, AllOrdinary] at ordinary
      have first := (readsAs_prettyAt (level + 1) ordinary.1).spaces (isSpace_newline (level + 1))
      have whole := readsAs_array first (readsAs_prettyItems level ordinary.2)
      rw [prettyAt]
      simpa using whole
  | .object [], _ => by rw [prettyAt]; exact readsAs_emptyObject
  | .object ((key, value) :: members), ordinary => by
      rw [IsOrdinary, MembersOrdinary] at ordinary
      obtain ⟨⟨name, rfl⟩, ordinaryValue, ordinaryRest⟩ := ordinary
      have first := (readsAs_prettyAt (level + 1) ordinaryValue).spaces isSpace_single
      have whole := readsAs_object name (isSpace_newline (level + 1)) first
        (readsAs_prettyMembers level ordinaryRest)
      rw [prettyAt]
      simpa [quoted_escape] using whole

theorem readsAs_prettyItems (level : Nat) : ∀ {found : List Json}, AllOrdinary found →
    ReadsAsItems found (prettyItems level found)
  | [], _ => by
      rw [prettyItems]
      exact readsAsItems_nil.spaces (isSpace_newline level)
  | item :: items, ordinary => by
      rw [AllOrdinary] at ordinary
      have first := (readsAs_prettyAt (level + 1) ordinary.1).spaces (isSpace_newline (level + 1))
      have whole := readsAsItems_cons first (readsAs_prettyItems level ordinary.2)
      rw [prettyItems]
      simpa using whole

theorem readsAs_prettyMembers (level : Nat) : ∀ {found : List (Bytes × Json)},
    MembersOrdinary found → ReadsAsMembers found (prettyMembers level found)
  | [], _ => by
      rw [prettyMembers]
      exact readsAsMembers_nil.spaces (isSpace_newline level)
  | (key, value) :: members, ordinary => by
      rw [MembersOrdinary] at ordinary
      obtain ⟨⟨name, rfl⟩, ordinaryValue, ordinaryRest⟩ := ordinary
      have first := (readsAs_prettyAt (level + 1) ordinaryValue).spaces isSpace_single
      have whole := readsAsMembers_cons name (isSpace_newline (level + 1)) first
        (readsAs_prettyMembers level ordinaryRest)
      rw [prettyMembers]
      simpa [quoted_escape] using whole

end

/-- An ordinary value is parsed back from its form with one item per line. -/
theorem parse_pretty {found : Json} (ordinary : IsOrdinary found) :
    parse (pretty found) = some found :=
  parse_eq_some (readsAs_prettyAt 0 ordinary)

/-! ## Without blanks -/

mutual

theorem readsAs_compact : ∀ {found : Json}, IsOrdinary found → ReadsAs found (compact found)
  | .null, _ => by rw [compact]; exact readsAs_null
  | .bool true, _ => by rw [compact]; exact readsAs_true
  | .bool false, _ => by rw [compact]; exact readsAs_false
  | .number numeral, ordinary => by
      rw [IsOrdinary] at ordinary
      obtain ⟨n, -, rfl⟩ := ordinary
      rw [compact, print_natural]
      exact readsAs_nat n
  | .string body, ordinary => by
      rw [IsOrdinary] at ordinary
      obtain ⟨s, rfl⟩ := ordinary
      rw [compact]
      exact readsAs_text s
  | .array [], _ => by rw [compact]; exact readsAs_emptyArray
  | .array (item :: items), ordinary => by
      rw [IsOrdinary, AllOrdinary] at ordinary
      rw [compact]
      exact readsAs_array (readsAs_compact ordinary.1) (readsAs_compactItems ordinary.2)
  | .object [], _ => by rw [compact]; exact readsAs_emptyObject
  | .object ((key, value) :: members), ordinary => by
      rw [IsOrdinary, MembersOrdinary] at ordinary
      obtain ⟨⟨name, rfl⟩, ordinaryValue, ordinaryRest⟩ := ordinary
      have blank : IsSpace [] := by simp [IsSpace]
      have whole := readsAs_object name blank (readsAs_compact ordinaryValue) (readsAs_compactMembers ordinaryRest)
      rw [compact]
      simpa [quoted_escape] using whole

theorem readsAs_compactItems : ∀ {found : List Json}, AllOrdinary found →
    ReadsAsItems found (compactItems found)
  | [], _ => by rw [compactItems]; exact readsAsItems_nil
  | item :: items, ordinary => by
      rw [AllOrdinary] at ordinary
      rw [compactItems]
      exact readsAsItems_cons (readsAs_compact ordinary.1) (readsAs_compactItems ordinary.2)

theorem readsAs_compactMembers : ∀ {found : List (Bytes × Json)}, MembersOrdinary found →
    ReadsAsMembers found (compactMembers found)
  | [], _ => by rw [compactMembers]; exact readsAsMembers_nil
  | (key, value) :: members, ordinary => by
      rw [MembersOrdinary] at ordinary
      obtain ⟨⟨name, rfl⟩, ordinaryValue, ordinaryRest⟩ := ordinary
      have blank : IsSpace [] := by simp [IsSpace]
      have whole := readsAsMembers_cons name blank (readsAs_compact ordinaryValue) (readsAs_compactMembers ordinaryRest)
      rw [compactMembers]
      simpa [quoted_escape] using whole

end

/-- An ordinary value is parsed back from its form without blanks. -/
theorem parse_compact {found : Json} (ordinary : IsOrdinary found) :
    parse (compact found) = some found :=
  parse_eq_some (readsAs_compact ordinary)

end DurableRuns.Json
