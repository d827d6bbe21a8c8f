/-
# DurableRuns.Proofs.Json.Layout -- the parser reads every layout of a value

A value can be laid out in many ways: blanks may stand before every part of it.  This module
says when bytes are a layout of a value (`ReadsAs`), of the items that follow the first in an
array (`ReadsAsItems`) and of the members that follow the first in an object
(`ReadsAsMembers`), and how layouts of the parts make a layout of the whole.  A printer has
only to be shown to put parts together in these ways.

The budget of the parser bounds the depth of its recursion; the number of bytes is enough of
it, which each of the predicates carries along.
-/
import Mathlib.Data.List.DropRight
import DurableRuns.Proofs.Json.Numbers
import DurableRuns.Proofs.Json.Strings

namespace DurableRuns.Json

set_option autoImplicit false

/-- The parser reads the bytes as the value, and stops after them. -/
def ReadsAs (found : Json) (bytes : Bytes) : Prop :=
  ∀ (budget : Nat) (rest : Bytes), bytes.length ≤ budget → EndsNumeral rest →
    value budget (bytes ++ rest) = some (found, rest)

/-- The parser reads the bytes as the further items of an array and its end. -/
def ReadsAsItems (found : List Json) (bytes : Bytes) : Prop :=
  ∀ (budget : Nat) (rest : Bytes), bytes.length ≤ budget →
    moreItems budget (bytes ++ rest) = some (found, rest)

/-- The parser reads the bytes as the further members of an object and its end. -/
def ReadsAsMembers (found : List (Bytes × Json)) (bytes : Bytes) : Prop :=
  ∀ (budget : Nat) (rest : Bytes), bytes.length ≤ budget →
    moreMembers budget (bytes ++ rest) = some (found, rest)

/-- Blanks only. -/
def IsSpace (bytes : Bytes) : Prop := ∀ b ∈ bytes, isSpace b = true

/-! ## Blanks -/

section Blanks

attribute [local simp] value member moreItems moreMembers

theorem skipSpace_append {spaces : Bytes} (blank : IsSpace spaces) (rest : Bytes) :
    skipSpace (spaces ++ rest) = skipSpace rest :=
  List.dropWhile_append_of_pos blank

theorem skipSpace_cons {b : UInt8} (solid : isSpace b = false) (rest : Bytes) :
    skipSpace (b :: rest) = b :: rest := by
  simp [skipSpace, solid]

theorem value_spaces {spaces : Bytes} (blank : IsSpace spaces) (budget : Nat) (rest : Bytes) :
    value budget (spaces ++ rest) = value budget rest := by
  cases budget with
  | zero => simp
  | succ budget => rw [value, value, skipSpace_append blank]

theorem skipSpace_skipSpace (input : Bytes) : skipSpace (skipSpace input) = skipSpace input := by
  unfold skipSpace
  exact List.dropWhile_idempotent isSpace input

theorem value_skipSpace (budget : Nat) (input : Bytes) :
    value budget (skipSpace input) = value budget input := by
  cases budget with
  | zero => simp
  | succ budget => rw [value, value, skipSpace_skipSpace]

theorem member_skipSpace (budget : Nat) (input : Bytes) :
    member budget (skipSpace input) = member budget input := by
  cases budget with
  | zero => simp
  | succ budget => rw [member, member, skipSpace_skipSpace]

/-- Blanks may stand before a value. -/
theorem ReadsAs.spaces {found : Json} {bytes spaces : Bytes} (reads : ReadsAs found bytes)
    (blank : IsSpace spaces) : ReadsAs found (spaces ++ bytes) := by
  intro budget rest enough ends
  rw [List.append_assoc, value_spaces blank]
  rw [List.length_append] at enough
  exact reads budget rest (by omega) ends

theorem ReadsAsItems.spaces {found : List Json} {bytes spaces : Bytes}
    (reads : ReadsAsItems found bytes) (blank : IsSpace spaces) :
    ReadsAsItems found (spaces ++ bytes) := by
  intro budget rest enough
  rw [List.length_append] at enough
  have plain := reads budget rest (by omega)
  rw [List.append_assoc]
  cases budget with
  | zero => simp at plain
  | succ budget =>
      rw [moreItems] at plain ⊢
      rw [skipSpace_append blank]
      exact plain

theorem ReadsAsMembers.spaces {found : List (Bytes × Json)} {bytes spaces : Bytes}
    (reads : ReadsAsMembers found bytes) (blank : IsSpace spaces) :
    ReadsAsMembers found (spaces ++ bytes) := by
  intro budget rest enough
  rw [List.length_append] at enough
  have plain := reads budget rest (by omega)
  rw [List.append_assoc]
  cases budget with
  | zero => simp at plain
  | succ budget =>
      rw [moreMembers] at plain ⊢
      rw [skipSpace_append blank]
      exact plain

end Blanks

/-! ## Single values -/

theorem readsAs_null : ReadsAs .null (ascii "null") := by
  intro budget rest enough _
  cases budget with
  | zero => simp [ascii] at enough
  | succ budget => rw [value]; rfl

theorem readsAs_true : ReadsAs (.bool true) (ascii "true") := by
  intro budget rest enough _
  cases budget with
  | zero => simp [ascii] at enough
  | succ budget => rw [value]; rfl

theorem readsAs_false : ReadsAs (.bool false) (ascii "false") := by
  intro budget rest enough _
  cases budget with
  | zero => simp [ascii] at enough
  | succ budget => rw [value]; rfl

theorem readsAs_text (s : String) : ReadsAs (text s) (34 :: escape s ++ [34]) := by
  intro budget rest enough _
  cases budget with
  | zero => simp at enough
  | succ budget =>
      have shape : 34 :: escape s ++ [34] ++ rest = 34 :: (escape s ++ 34 :: rest) := by simp
      rw [shape, value, skipSpace_cons (by decide)]
      simp only [stringBody_escape, Option.map_some]
      rfl

theorem readsAs_nat (n : Nat) : ReadsAs (nat n) (digits n) := by
  intro budget rest enough ends
  obtain ⟨b, later, whole, digit⟩ := head?_digits_isDigit n
  cases budget with
  | zero => simp [whole] at enough
  | succ budget =>
      have range : 48 ≤ b.toNat ∧ b.toNat ≤ 57 := by
        simpa [isDigit, UInt8.le_iff_toNat_le] using digit
      have solid : isSpace b = false := by
        simp only [isSpace, Bool.or_eq_false_iff, beq_eq_false_iff_ne]
        refine ⟨⟨⟨?_, ?_⟩, ?_⟩, ?_⟩ <;> rintro rfl <;> simp at range
      have read := numeral_nat n ends
      rw [whole, List.cons_append] at read ⊢
      rw [value, skipSpace_cons solid]
      split
      case h_7 => rw [read]; rfl
      all_goals
        next same =>
          obtain ⟨rfl, -⟩ := List.cons.inj same
          simp at range

theorem readsAs_emptyArray : ReadsAs (.array []) [91, 93] := by
  intro budget rest enough _
  cases budget with
  | zero => simp at enough
  | succ budget => rw [value]; rfl

theorem readsAs_emptyObject : ReadsAs (.object []) [123, 125] := by
  intro budget rest enough _
  cases budget with
  | zero => simp at enough
  | succ budget => rw [value]; rfl

/-! ## What follows a value -/

theorem endsNumeral_of_isSpace {b : UInt8} (blank : isSpace b = true) (rest : Bytes) :
    EndsNumeral (b :: rest) := by
  apply endsNumeral_cons
  simp only [isSpace, Bool.or_eq_true, beq_iff_eq] at blank
  rcases blank with ((rfl | rfl) | rfl) | rfl <;> decide

/-- Bytes that go on, after blanks, with a byte that is no part of a numeral, end one. -/
theorem endsNumeral_of_skipSpace {b : UInt8} {bytes rest : Bytes}
    (next : skipSpace bytes = b :: rest)
    (stops : isDigit b = false ∧ b ≠ 46 ∧ b ≠ 101 ∧ b ≠ 69) : EndsNumeral bytes := by
  cases bytes with
  | nil => exact endsNumeral_nil
  | cons first later =>
      by_cases blank : isSpace first = true
      · exact endsNumeral_of_isSpace blank later
      · rw [skipSpace_cons (by simpa using blank)] at next
        obtain ⟨rfl, rfl⟩ := List.cons.inj next
        exact endsNumeral_cons stops

theorem ReadsAsItems.endsNumeral {items : List Json} {bytes : Bytes}
    (reads : ReadsAsItems items bytes) (rest : Bytes) : EndsNumeral (bytes ++ rest) := by
  have read := reads (bytes.length + 1) rest (by omega)
  rw [moreItems] at read
  split at read
  case h_1 next => exact endsNumeral_of_skipSpace next (by decide)
  case h_2 next => exact endsNumeral_of_skipSpace next (by decide)
  case h_3 => cases read

theorem ReadsAsMembers.endsNumeral {members : List (Bytes × Json)} {bytes : Bytes}
    (reads : ReadsAsMembers members bytes) (rest : Bytes) : EndsNumeral (bytes ++ rest) := by
  have read := reads (bytes.length + 1) rest (by omega)
  rw [moreMembers] at read
  split at read
  case h_1 next => exact endsNumeral_of_skipSpace next (by decide)
  case h_2 next => exact endsNumeral_of_skipSpace next (by decide)
  case h_3 => cases read

/-- No value begins with a closing bracket. -/
theorem ReadsAs.skipSpace_ne {found : Json} {bytes : Bytes} (reads : ReadsAs found bytes)
    {rest : Bytes} (ends : EndsNumeral rest) (later : Bytes) :
    skipSpace (bytes ++ rest) ≠ 93 :: later := by
  intro closing
  have read := reads (bytes.length + 1) rest (by omega) ends
  rw [value, closing] at read
  cases read

/-! ## Arrays -/

theorem readsAsItems_nil : ReadsAsItems [] [93] := by
  intro budget rest enough
  cases budget with
  | zero => simp at enough
  | succ budget => rw [moreItems]; rfl

theorem readsAsItems_cons {item : Json} {items : List Json} {first later : Bytes}
    (readsFirst : ReadsAs item first) (readsLater : ReadsAsItems items later) :
    ReadsAsItems (item :: items) (44 :: first ++ later) := by
  intro budget rest enough
  simp only [List.length_append, List.length_cons] at enough
  cases budget with
  | zero => omega
  | succ budget =>
      have one := readsFirst budget (later ++ rest) (by omega) (readsLater.endsNumeral rest)
      have more := readsLater budget rest (by omega)
      rw [moreItems, List.cons_append, List.cons_append, List.append_assoc,
        skipSpace_cons (by decide)]
      simp [one, more]

/-- An array that does not end at once has a first item. -/
theorem value_array (budget : Nat) {bytes next : Bytes} (opens : skipSpace bytes = next)
    (notEmpty : ∀ later, next ≠ 93 :: later) :
    value (budget + 1) (91 :: bytes) = (value budget next).bind fun first =>
      (moreItems budget first.2).map fun more => (.array (first.1 :: more.1), more.2) := by
  rw [value, skipSpace_cons (by decide)]
  simp only [opens, Option.map_eq_bind]
  rfl

theorem readsAs_array {item : Json} {items : List Json} {first later : Bytes}
    (readsFirst : ReadsAs item first) (readsLater : ReadsAsItems items later) :
    ReadsAs (.array (item :: items)) (91 :: first ++ later) := by
  intro budget rest enough _
  simp only [List.length_append, List.length_cons] at enough
  cases budget with
  | zero => omega
  | succ budget =>
      have stops := readsLater.endsNumeral rest
      have one := readsFirst budget (later ++ rest) (by omega) stops
      have more := readsLater budget rest (by omega)
      rw [List.cons_append, List.cons_append, List.append_assoc,
        value_array budget rfl (readsFirst.skipSpace_ne stops), value_skipSpace, one,
        Option.bind_some, more, Option.map_some]

/-! ## Objects -/

/-- A key, a colon and a value are read as a member. -/
theorem member_reads {found : Json} {bytes : Bytes} (key : String)
    (reads : ReadsAs found bytes) {budget : Nat} {rest : Bytes}
    (enough : bytes.length < budget) (ends : EndsNumeral rest) :
    member budget (34 :: escape key ++ 34 :: 58 :: bytes ++ rest) =
      some ((escape key, found), rest) := by
  cases budget with
  | zero => omega
  | succ budget =>
      have one := reads budget rest (by omega) ends
      have shape : 34 :: escape key ++ 34 :: 58 :: bytes ++ rest =
          34 :: (escape key ++ 34 :: (58 :: (bytes ++ rest))) := by simp
      rw [shape, member, skipSpace_cons (by decide)]
      simp [stringBody_escape, skipSpace_cons (b := 58) (by decide), one]

theorem readsAsMembers_nil : ReadsAsMembers [] [125] := by
  intro budget rest enough
  cases budget with
  | zero => simp at enough
  | succ budget => rw [moreMembers]; rfl

theorem member_spaces {spaces : Bytes} (blank : IsSpace spaces) (budget : Nat) (rest : Bytes) :
    member budget (spaces ++ rest) = member budget rest := by
  rw [← member_skipSpace, skipSpace_append blank, member_skipSpace]

theorem readsAsMembers_cons {found : Json} {members : List (Bytes × Json)} (key : String)
    {spaces first later : Bytes} (blank : IsSpace spaces) (readsFirst : ReadsAs found first)
    (readsLater : ReadsAsMembers members later) :
    ReadsAsMembers ((escape key, found) :: members)
      (44 :: spaces ++ (34 :: escape key ++ 34 :: 58 :: first) ++ later) := by
  intro budget rest enough
  simp only [List.length_append, List.length_cons] at enough
  cases budget with
  | zero => omega
  | succ budget =>
      have small : first.length < budget := by omega
      have one := member_reads key readsFirst small (readsLater.endsNumeral rest)
      have more := readsLater budget rest (by omega)
      have shape : 44 :: spaces ++ (34 :: escape key ++ 34 :: 58 :: first) ++ later ++ rest =
          44 :: (spaces ++ (34 :: escape key ++ 34 :: 58 :: first ++ (later ++ rest))) := by simp
      rw [shape, moreMembers, skipSpace_cons (by decide)]
      simp only [member_spaces blank, one, more, Option.bind_eq_bind, Option.bind_some]

/-- An object that does not end at once has a first member. -/
theorem value_object (budget : Nat) {bytes next : Bytes} (opens : skipSpace bytes = next)
    (notEmpty : ∀ later, next ≠ 125 :: later) :
    value (budget + 1) (123 :: bytes) = (member budget next).bind fun first =>
      (moreMembers budget first.2).map fun more => (.object (first.1 :: more.1), more.2) := by
  rw [value, skipSpace_cons (by decide)]
  simp only [opens, Option.map_eq_bind]
  rfl

theorem readsAs_object {found : Json} {members : List (Bytes × Json)} (key : String)
    {spaces first later : Bytes} (blank : IsSpace spaces) (readsFirst : ReadsAs found first)
    (readsLater : ReadsAsMembers members later) :
    ReadsAs (.object ((escape key, found) :: members))
      (123 :: spaces ++ (34 :: escape key ++ 34 :: 58 :: first) ++ later) := by
  intro budget rest enough _
  simp only [List.length_append, List.length_cons] at enough
  cases budget with
  | zero => omega
  | succ budget =>
      have small : first.length < budget := by omega
      have one := member_reads key readsFirst small (readsLater.endsNumeral rest)
      have more := readsLater budget rest (by omega)
      have shape : 123 :: spaces ++ (34 :: escape key ++ 34 :: 58 :: first) ++ later ++ rest =
          123 :: (spaces ++ (34 :: escape key ++ 34 :: 58 :: first ++ (later ++ rest))) := by simp
      have opens : skipSpace (spaces ++ (34 :: escape key ++ 34 :: 58 :: first ++
          (later ++ rest))) = 34 :: escape key ++ 34 :: 58 :: first ++ (later ++ rest) := by
        rw [skipSpace_append blank]
        exact skipSpace_cons (by decide) _
      have notEmpty (others : Bytes) :
          34 :: escape key ++ 34 :: 58 :: first ++ (later ++ rest) ≠ 125 :: others := by simp
      rw [shape, value_object budget opens notEmpty, one, Option.bind_some, more, Option.map_some]
/-! ## The whole input -/

theorem parse_eq_some {found : Json} {bytes : Bytes} (reads : ReadsAs found bytes) :
    parse bytes = some found := by
  have read := reads (2 * bytes.length + 2) [] (by omega) endsNumeral_nil
  rw [List.append_nil] at read
  simp [parse, read, skipSpace]

end DurableRuns.Json
