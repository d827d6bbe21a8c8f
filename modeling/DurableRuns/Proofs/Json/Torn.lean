/-
# DurableRuns.Proofs.Json.Torn -- no part of a printed record is parsed

Whatever the parser reads, it reads in the same way when more bytes follow (`readsOn`).  Only a
numeral at the very end of the input may go on.  So if the first bytes of a printed record were a
value, then the whole would be this value with bytes left over, and it is not: it is parsed back
(`IsReadBack.parse_torn`).  This holds wherever the record is cut, be it inside a string, an
escape, a numeral or a character of several bytes.
-/
import DurableRuns.Proofs.Json.Records

namespace DurableRuns.Json

set_option autoImplicit false

section Torn

variable {input rest : Bytes}

/-! ## Blanks and strings -/
theorem skipSpace_append_of_ne_nil (more : skipSpace input ≠ []) (later : Bytes) :
    skipSpace (input ++ later) = skipSpace input ++ later := by
  unfold skipSpace at more ⊢
  rw [List.dropWhile_append, if_neg (by simpa using more)]

theorem skipSpace_append_of_cons {b : UInt8} (next : skipSpace input = b :: rest)
    (later : Bytes) : skipSpace (input ++ later) = b :: (rest ++ later) := by
  rw [skipSpace_append_of_ne_nil (by rw [next]; exact List.cons_ne_nil b rest), next,
    List.cons_append]

theorem stringBody_append {body : Bytes} (read : stringBody input = some (body, rest))
    (later : Bytes) : stringBody (input ++ later) = some (body, rest ++ later) := by
  fun_induction stringBody input generalizing body rest with
  | case1 => cases read
  | case2 tail =>
      cases read
      rw [List.cons_append, stringBody]
  | case3 a b c d tail hex ih =>
      obtain ⟨⟨inner, after⟩, found, same⟩ := Option.map_eq_some_iff.1 read
      cases same
      simp only [List.cons_append]
      rw [stringBody, if_pos hex, ih found]
      rfl
  | case4 => cases read
  | case5 e tail _ known ih =>
      obtain ⟨⟨inner, after⟩, found, same⟩ := Option.map_eq_some_iff.1 read
      cases same
      simp only [List.cons_append]
      rw [stringBody, if_pos known, ih found]
      · rfl
      · rintro a b c d others rfl
        simp at known
  | case6 => cases read
  | case7 => cases read
  | case8 b tail noQuote _ _ plain ih =>
      obtain ⟨⟨inner, after⟩, found, same⟩ := Option.map_eq_some_iff.1 read
      cases same
      have noEscape : b ≠ 92 := by
        rintro rfl
        simp at plain
      simp only [List.cons_append]
      rw [stringBody, if_neg plain, ih found]
      · rfl
      · exact noQuote
      · exact fun _ _ _ _ _ escape => absurd escape noEscape
      · exact fun _ _ escape => absurd escape noEscape

/-! ## Numerals -/

theorem someDigits_append {found : Bytes} (read : someDigits input = some (found, rest))
    (more : rest ≠ []) (later : Bytes) :
    someDigits (input ++ later) = some (found, rest ++ later) := by
  unfold someDigits at read ⊢
  dsimp only at read ⊢
  split at read
  next => cases read
  next solid =>
    cases read
    -- The digits do not reach the end of the input, so those of the longer input are the same.
    have stops : ¬ (input.takeWhile isDigit).length = input.length := by
      intro all
      have lengths := congrArg List.length
        (List.takeWhile_append_dropWhile (p := isDigit) (l := input))
      rw [List.length_append] at lengths
      exact more (List.length_eq_zero_iff.1 (by omega))
    have left : ¬ (input.dropWhile isDigit).isEmpty = true := by
      rwa [List.isEmpty_iff]
    rw [List.takeWhile_append, if_neg stops, List.dropWhile_append, if_neg left, if_neg solid]

theorem wholePart_append {found : Bytes} (read : wholePart input = some (found, rest))
    (more : rest ≠ []) (later : Bytes) :
    wholePart (input ++ later) = some (found, rest ++ later) := by
  unfold wholePart at read ⊢
  obtain ⟨⟨digits, after⟩, first, read⟩ := Option.bind_eq_some_iff.1 read
  dsimp only at read
  split at read
  next => cases read
  next noZero =>
    cases read
    rw [someDigits_append first more later, Option.bind_eq_bind, Option.bind_some]
    exact if_neg noZero

theorem fractionPart_append {found : Option Bytes}
    (read : fractionPart input = some (found, rest)) (more : rest ≠ []) (later : Bytes) :
    fractionPart (input ++ later) = some (found, rest ++ later) := by
  unfold fractionPart at read
  split at read
  next tail =>
    obtain ⟨⟨digits, after⟩, first, same⟩ := Option.map_eq_some_iff.1 read
    cases same
    rw [List.cons_append, fractionPart, someDigits_append first more later]
    rfl
  next noPoint =>
    cases read
    obtain ⟨b, tail, rfl⟩ := List.exists_cons_of_ne_nil more
    rw [List.cons_append, fractionPart]
    exact fun others same => noPoint tail (by rw [(List.cons.inj same).1])

theorem exponentDigits_append {found : Bool × Bytes}
    (read : exponentDigits input = some (found, rest)) (more : rest ≠ []) (later : Bytes) :
    exponentDigits (input ++ later) = some (found, rest ++ later) := by
  unfold exponentDigits at read
  split at read
  next tail =>
    obtain ⟨⟨digits, after⟩, first, same⟩ := Option.map_eq_some_iff.1 read
    cases same
    rw [List.cons_append, exponentDigits, someDigits_append first more later]
    rfl
  next tail =>
    obtain ⟨⟨digits, after⟩, first, same⟩ := Option.map_eq_some_iff.1 read
    cases same
    rw [List.cons_append, exponentDigits, someDigits_append first more later]
    rfl
  next noMinus noPlus =>
    obtain ⟨⟨digits, after⟩, first, same⟩ := Option.map_eq_some_iff.1 read
    cases same
    cases input with
    | nil => cases first
    | cons b tail =>
        rw [List.cons_append, exponentDigits, ← List.cons_append,
          someDigits_append first more later]
        · rfl
        · exact fun others same => noMinus tail (by rw [(List.cons.inj same).1])
        · exact fun others same => noPlus tail (by rw [(List.cons.inj same).1])

theorem exponentPart_append {found : Option (Bool × Bytes)}
    (read : exponentPart input = some (found, rest)) (more : rest ≠ []) (later : Bytes) :
    exponentPart (input ++ later) = some (found, rest ++ later) := by
  cases input with
  | nil =>
      cases read
      exact absurd rfl more
  | cons b tail =>
      rw [exponentPart] at read
      rw [List.cons_append, exponentPart]
      split at read
      next letter =>
        obtain ⟨⟨digits, after⟩, first, same⟩ := Option.map_eq_some_iff.1 read
        cases same
        rw [if_pos letter, exponentDigits_append first more later]
        rfl
      next other =>
        cases read
        rw [if_neg other]
        rfl

theorem exponentPart_ne_nil {found : Option (Bool × Bytes)}
    (read : exponentPart input = some (found, rest)) (more : rest ≠ []) : input ≠ [] := by
  rintro rfl
  cases read
  exact more rfl

theorem fractionPart_ne_nil {found : Option Bytes}
    (read : fractionPart input = some (found, rest)) (more : rest ≠ []) : input ≠ [] := by
  rintro rfl
  cases read
  exact more rfl

theorem unsignedNumeral_append {negative : Bool} {found : Numeral}
    (read : unsignedNumeral negative input = some (found, rest)) (more : rest ≠ [])
    (later : Bytes) : unsignedNumeral negative (input ++ later) = some (found, rest ++ later) := by
  unfold unsignedNumeral at read ⊢
  simp only [Option.bind_eq_bind, Option.bind_eq_some_iff, Prod.exists, Option.some.injEq,
    Prod.mk.injEq] at read
  obtain ⟨whole, afterWhole, first, fraction, afterFraction, second, exponent, last, third, rfl,
    rfl⟩ := read
  have moreFraction := exponentPart_ne_nil third more
  have moreWhole := fractionPart_ne_nil second moreFraction
  simp only [Option.bind_eq_bind, wholePart_append first moreWhole later, Option.bind_some,
    fractionPart_append second moreFraction later, exponentPart_append third more later]

/-- A numeral that does not end the input is read in the same way when more bytes follow. -/
theorem numeral_append {found : Numeral} (read : numeral input = some (found, rest))
    (more : rest ≠ []) (later : Bytes) :
    numeral (input ++ later) = some (found, rest ++ later) := by
  unfold numeral at read
  split at read
  next tail =>
    rw [List.cons_append, numeral]
    exact unsignedNumeral_append read more later
  next noMinus =>
    cases input with
    | nil => cases read
    | cons b tail =>
        rw [List.cons_append, numeral, ← List.cons_append]
        · exact unsignedNumeral_append read more later
        · exact fun others same => noMinus tail (by rw [(List.cons.inj same).1])

theorem numeral_eq_cons {found : Numeral} (read : numeral input = some (found, rest)) :
    ∃ b tail, input = b :: tail ∧ (isDigit b = true ∨ b = 45) := by
  cases input with
  | nil => cases read
  | cons b tail =>
      refine ⟨b, tail, rfl, ?_⟩
      unfold numeral at read
      split at read
      next tail same => exact .inr (List.cons.inj same).1
      next =>
        obtain ⟨⟨whole, after⟩, first, -⟩ := Option.bind_eq_some_iff.1 read
        obtain ⟨⟨digits, after⟩, first, -⟩ := Option.bind_eq_some_iff.1 first
        unfold someDigits at first
        by_cases digit : isDigit b = true
        · exact .inl digit
        · simp [digit] at first

/-! ## Values -/

/-- What is read with a budget is read in the same way with any larger one and with more bytes
behind.  Only a numeral at the end of the input may go on. -/
structure ReadsOn (budget : Nat) : Prop where
  value : ∀ {input rest : Bytes} {found : Json}, Json.value budget input = some (found, rest) →
    (rest ≠ [] ∨ ∀ numeral, found ≠ .number numeral) → ∀ {larger : Nat}, budget ≤ larger →
      ∀ later, Json.value larger (input ++ later) = some (found, rest ++ later)
  member : ∀ {input rest : Bytes} {found : Bytes × Json},
    Json.member budget input = some (found, rest) → rest ≠ [] → ∀ {larger : Nat},
      budget ≤ larger → ∀ later, Json.member larger (input ++ later) = some (found, rest ++ later)
  items : ∀ {input rest : Bytes} {found : List Json},
    moreItems budget input = some (found, rest) → ∀ {larger : Nat}, budget ≤ larger →
      ∀ later, moreItems larger (input ++ later) = some (found, rest ++ later)
  members : ∀ {input rest : Bytes} {found : List (Bytes × Json)},
    moreMembers budget input = some (found, rest) → ∀ {larger : Nat}, budget ≤ larger →
      ∀ later, moreMembers larger (input ++ later) = some (found, rest ++ later)

theorem moreItems_ne_nil {budget : Nat} {found : List Json}
    (read : moreItems budget input = some (found, rest)) : input ≠ [] := by
  rintro rfl
  cases budget with
  | zero => rw [moreItems] at read; cases read
  | succ budget => rw [moreItems] at read; cases read

theorem moreMembers_ne_nil {budget : Nat} {found : List (Bytes × Json)}
    (read : moreMembers budget input = some (found, rest)) : input ≠ [] := by
  rintro rfl
  cases budget with
  | zero => rw [moreMembers] at read; cases read
  | succ budget => rw [moreMembers] at read; cases read

theorem value_ne_nil {budget : Nat} {found : Json}
    (read : value budget input = some (found, rest)) : input ≠ [] := by
  rintro rfl
  cases budget with
  | zero => rw [value] at read; cases read
  | succ budget => rw [value] at read; cases read

theorem member_ne_nil {budget : Nat} {found : Bytes × Json}
    (read : member budget input = some (found, rest)) : input ≠ [] := by
  rintro rfl
  cases budget with
  | zero => rw [member] at read; cases read
  | succ budget => rw [member] at read; cases read

namespace ReadsOn

variable {budget larger : Nat}

theorem items_succ (below : ReadsOn budget) {found : List Json}
    (read : moreItems (budget + 1) input = some (found, rest)) (le : budget ≤ larger)
    (later : Bytes) : moreItems (larger + 1) (input ++ later) = some (found, rest ++ later) := by
  rw [moreItems] at read ⊢
  split at read
  next tail next =>
    cases read
    rw [skipSpace_append_of_cons next]
    rfl
  next tail next =>
    simp only [Option.bind_eq_bind, Option.bind_eq_some_iff, Prod.exists, Option.some.injEq,
      Prod.mk.injEq] at read
    obtain ⟨item, between, first, items, after, others, rfl, rfl⟩ := read
    rw [skipSpace_append_of_cons next]
    simp only [Option.bind_eq_bind, Option.bind_some,
      below.value first (.inl (moreItems_ne_nil others)) le later, below.items others le later]
  next => cases read

theorem members_succ (below : ReadsOn budget) {found : List (Bytes × Json)}
    (read : moreMembers (budget + 1) input = some (found, rest)) (le : budget ≤ larger)
    (later : Bytes) : moreMembers (larger + 1) (input ++ later) = some (found, rest ++ later) := by
  rw [moreMembers] at read ⊢
  split at read
  next tail next =>
    cases read
    rw [skipSpace_append_of_cons next]
    rfl
  next tail next =>
    simp only [Option.bind_eq_bind, Option.bind_eq_some_iff, Prod.exists, Option.some.injEq,
      Prod.mk.injEq] at read
    obtain ⟨key, item, between, first, members, after, others, rfl, rfl⟩ := read
    rw [skipSpace_append_of_cons next]
    simp only [Option.bind_eq_bind, Option.bind_some,
      below.member first (moreMembers_ne_nil others) le later, below.members others le later]
  next => cases read

theorem member_succ (below : ReadsOn budget) {found : Bytes × Json}
    (read : Json.member (budget + 1) input = some (found, rest)) (more : rest ≠ [])
    (le : budget ≤ larger) (later : Bytes) :
    Json.member (larger + 1) (input ++ later) = some (found, rest ++ later) := by
  rw [Json.member] at read ⊢
  split at read
  next tail next =>
    obtain ⟨⟨key, between⟩, body, read⟩ := Option.bind_eq_some_iff.1 read
    dsimp only at read
    split at read
    next afterColon colon =>
      simp only [Option.bind_eq_bind, Option.bind_eq_some_iff, Prod.exists, Option.some.injEq,
        Prod.mk.injEq] at read
      obtain ⟨value, after, first, rfl, rfl⟩ := read
      rw [skipSpace_append_of_cons next]
      simp only [Option.bind_eq_bind, Option.bind_some, stringBody_append body later,
        skipSpace_append_of_cons colon, below.value first (.inl more) le later]
    next => cases read
  next => cases read

/-- What begins as a number does is a number or nothing. -/
theorem value_number {b : UInt8} {tail : Bytes} (starts : skipSpace input = b :: tail)
    (letter : isDigit b = true ∨ b = 45) :
    Json.value (budget + 1) input =
      (numeral (b :: tail)).map fun (found, rest) => (.number found, rest) := by
  have range : 45 ≤ b.toNat ∧ b.toNat ≤ 57 := by
    rcases letter with digit | rfl
    · simp only [isDigit, Bool.and_eq_true, decide_eq_true_eq, UInt8.le_iff_toNat_le] at digit
      exact ⟨Nat.le_trans (by decide) digit.1, digit.2⟩
    · decide
  rw [Json.value, starts]
  split
  case h_7 => rfl
  all_goals
    next same =>
      obtain ⟨rfl, -⟩ := List.cons.inj same
      simp at range

theorem value_succ (below : ReadsOn budget) {found : Json}
    (read : Json.value (budget + 1) input = some (found, rest))
    (more : rest ≠ [] ∨ ∀ numeral, found ≠ .number numeral) (le : budget ≤ larger)
    (later : Bytes) : Json.value (larger + 1) (input ++ later) = some (found, rest ++ later) := by
  have solid : skipSpace input ≠ [] := by
    rw [← value_skipSpace] at read
    exact value_ne_nil read
  have skips := skipSpace_append_of_ne_nil solid later
  rw [Json.value] at read
  split at read
  case h_1 next => cases read; rw [Json.value, skips, next]; rfl
  case h_2 next => cases read; rw [Json.value, skips, next]; rfl
  case h_3 next => cases read; rw [Json.value, skips, next]; rfl
  case h_4 tail next =>
    obtain ⟨⟨body, after⟩, first, same⟩ := Option.map_eq_some_iff.1 read
    cases same
    simp only [Json.value, skips, next, List.cons_append, stringBody_append first later,
      Option.map_some]
  case h_5 tail next =>
    simp only [Json.value, skips, next, List.cons_append]
    split at read
    next closing =>
      cases read
      rw [skipSpace_append_of_cons closing]
      rfl
    next notClosing =>
      simp only [Option.bind_eq_bind, Option.bind_eq_some_iff, Prod.exists, Option.some.injEq,
        Prod.mk.injEq] at read
      obtain ⟨item, between, first, items, after, others, rfl, rfl⟩ := read
      obtain ⟨b, inner, starts⟩ := List.exists_cons_of_ne_nil (value_ne_nil first)
      have one := below.value first (.inl (moreItems_ne_nil others)) le later
      rw [starts] at one
      rw [skipSpace_append_of_cons starts]
      split
      next closing =>
        obtain ⟨rfl, -⟩ := List.cons.inj closing
        exact absurd starts (notClosing inner)
      next =>
        rw [List.cons_append] at one
        simp only [Option.bind_eq_bind, Option.bind_some, one, below.items others le later]
  case h_6 tail next =>
    simp only [Json.value, skips, next, List.cons_append]
    split at read
    next closing =>
      cases read
      rw [skipSpace_append_of_cons closing]
      rfl
    next notClosing =>
      simp only [Option.bind_eq_bind, Option.bind_eq_some_iff, Prod.exists, Option.some.injEq,
        Prod.mk.injEq] at read
      obtain ⟨key, item, between, first, members, after, others, rfl, rfl⟩ := read
      obtain ⟨b, inner, starts⟩ := List.exists_cons_of_ne_nil (member_ne_nil first)
      have one := below.member first (moreMembers_ne_nil others) le later
      rw [starts, List.cons_append] at one
      rw [skipSpace_append_of_cons starts]
      split
      next closing =>
        obtain ⟨rfl, -⟩ := List.cons.inj closing
        exact absurd starts (notClosing inner)
      next => simp only [Option.bind_eq_bind, Option.bind_some, one, below.members others le later]
  case h_7 =>
    obtain ⟨⟨numeral, after⟩, first, same⟩ := Option.map_eq_some_iff.1 read
    cases same
    have left : rest ≠ [] := more.resolve_right fun never => never numeral rfl
    have whole := numeral_append first left later
    obtain ⟨b, tail, starts, letter⟩ := numeral_eq_cons first
    rw [starts, List.cons_append] at whole skips
    rw [value_number skips letter, whole]
    rfl

end ReadsOn

theorem readsOn (budget : Nat) : ReadsOn budget := by
  induction budget with
  | zero =>
      constructor
      case value => exact fun read => by rw [value] at read; cases read
      case member => exact fun read => by rw [member] at read; cases read
      case items => exact fun read => by rw [moreItems] at read; cases read
      case members => exact fun read => by rw [moreMembers] at read; cases read
  | succ budget ih =>
      have enough {larger : Nat} (le : budget + 1 ≤ larger) :
          ∃ smaller, larger = smaller + 1 ∧ budget ≤ smaller :=
        ⟨larger - 1, by omega, by omega⟩
      constructor
      case value =>
        intro input rest found read more larger le later
        obtain ⟨smaller, rfl, below⟩ := enough le
        exact ih.value_succ read more below later
      case member =>
        intro input rest found read more larger le later
        obtain ⟨smaller, rfl, below⟩ := enough le
        exact ih.member_succ read more below later
      case items =>
        intro input rest found read larger le later
        obtain ⟨smaller, rfl, below⟩ := enough le
        exact ih.items_succ read below later
      case members =>
        intro input rest found read larger le later
        obtain ⟨smaller, rfl, below⟩ := enough le
        exact ih.members_succ read below later

/-! ## Torn records -/

/-- What begins with a brace is no number. -/
theorem value_ne_number {budget : Nat} {found : Json}
    (read : value budget (123 :: input) = some (found, rest)) (numeral : Numeral) :
    found ≠ .number numeral := by
  rintro rfl
  cases budget with
  | zero => rw [value] at read; cases read
  | succ budget =>
      rw [value, skipSpace_cons (by decide)] at read
      split at read
      case h_6 =>
        split at read
        next => cases read
        next =>
          simp only [Option.bind_eq_bind, Option.bind_eq_some_iff, Option.some.injEq] at read
          obtain ⟨_, -, _, -, same⟩ := read
          cases same
      case h_7 =>
        obtain ⟨_, found, -⟩ := Option.map_eq_some_iff.1 read
        obtain ⟨b, tail, same, letter⟩ := numeral_eq_cons found
        obtain ⟨rfl, -⟩ := List.cons.inj same
        exact absurd letter (by decide)
      all_goals
        next same => cases same

/-- No part of a layout that begins with a brace is parsed. -/
theorem parse_eq_none_of_torn {found : Json} {whole torn : Bytes} (back : ReadsAs found whole)
    (opens : whole.head? = some 123) (cut : torn <+: whole) (strict : torn ≠ whole) :
    parse torn = none := by
  obtain ⟨lost, rfl⟩ := cut
  rw [Option.eq_none_iff_forall_ne_some]
  intro other parsed
  obtain ⟨⟨early, rest⟩, read, blank⟩ := Option.bind_eq_some_iff.1 parsed
  -- Were the part a value, the whole would be the same value, with the rest of it left over.
  have noNumber : ∀ numeral, early ≠ .number numeral := by
    obtain ⟨b, tail, rfl⟩ := List.exists_cons_of_ne_nil (value_ne_nil read)
    obtain rfl : b = 123 := Option.some.inj opens
    exact value_ne_number read
  have enough : 2 * torn.length + 2 ≤ 2 * (torn ++ lost).length + 2 := by
    rw [List.length_append]
    omega
  have longer := (readsOn _).value read (.inr noNumber) enough lost
  have whole := back (2 * (torn ++ lost).length + 2) [] (by omega) endsNumeral_nil
  rw [List.append_nil, longer] at whole
  obtain ⟨-, nothing⟩ := Prod.mk.inj (Option.some.inj whole)
  obtain ⟨-, rfl⟩ := List.append_eq_nil_iff.1 nothing
  exact strict (List.append_nil torn).symm

theorem head?_pretty_record (members : List (String × Json)) :
    (record members).pretty.head? = some 123 := by
  rw [record_eq, pretty]
  cases members with
  | nil => rw [written, List.map_nil, prettyAt]; rfl
  | cons first rest => rw [written_cons, prettyAt]; rfl

/-- No part of a printed record is parsed, if the record is parsed back. -/
theorem IsReadBack.parse_torn {members : List (String × Json)} {torn : Bytes}
    (back : IsReadBack (record members)) (cut : torn <+: (record members).pretty)
    (strict : torn ≠ (record members).pretty) : parse torn = none :=
  parse_eq_none_of_torn (back 0) (head?_pretty_record members) cut strict

end Torn
end DurableRuns.Json
