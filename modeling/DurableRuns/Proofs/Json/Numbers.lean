/-
# DurableRuns.Proofs.Json.Numbers -- a natural number in a file is read back

`Json.nat` writes a number in decimal, without a leading zero.  The reader of a numeral stops
where no digit, point or exponent follows (`numeral_nat`), and the numeral means the number
(`nat?_natural`).  A number of 64 bits is also within the range of a double
(`isFinite_natural`).
-/
import DurableRuns.Json.Parser
import DurableRuns.Json.Reading

namespace DurableRuns.Json

set_option autoImplicit false

/-- The numeral of a natural number. -/
def natural (n : Nat) : Numeral := ⟨false, digits n, none, none⟩

theorem nat_eq (n : Nat) : nat n = .number (natural n) := rfl

/-! ## Decimal digits -/

/-- The byte of an ASCII character. -/
def asciiByte (c : Char) : UInt8 := c.toNat.toUInt8

theorem toNat_of_isDigit {c : Char} (digit : c.isDigit = true) : 48 ≤ c.toNat ∧ c.toNat ≤ 57 := by
  simp only [Char.isDigit, Bool.and_eq_true, decide_eq_true_eq] at digit
  exact ⟨UInt32.le_iff_toNat_le.1 digit.1, UInt32.le_iff_toNat_le.1 digit.2⟩

theorem toNat_asciiByte {c : Char} (digit : c.isDigit = true) :
    (asciiByte c).toNat = c.toNat := by
  have range := toNat_of_isDigit digit
  unfold asciiByte
  simp only [Nat.toUInt8, UInt8.toNat_ofNat']
  omega

theorem isDigit_asciiByte {c : Char} (digit : c.isDigit = true) :
    isDigit (asciiByte c) = true := by
  have range := toNat_of_isDigit digit
  have value := toNat_asciiByte digit
  simp only [isDigit, Bool.and_eq_true, decide_eq_true_eq, UInt8.le_iff_toNat_le, value]
  exact range

theorem isDigit_of_mem_digits {n : Nat} {b : UInt8} (member : b ∈ digits n) :
    isDigit b = true := by
  obtain ⟨c, inside, rfl⟩ := List.mem_map.1 member
  exact isDigit_asciiByte (Nat.isDigit_of_mem_toDigits (by decide) (by decide) inside)

theorem digits_ne_nil (n : Nat) : digits n ≠ [] := by
  simp [digits]

theorem foldl_asciiByte {cs : List Char} (digit : ∀ c ∈ cs, c.isDigit = true) (start : Nat) :
    (cs.map asciiByte).foldl (fun n d => 10 * n + (d.toNat - 48)) start =
      Nat.ofDigitChars 10 cs start := by
  induction cs generalizing start with
  | nil => rw [Nat.ofDigitChars_nil]; rfl
  | cons c cs ih =>
      have here := toNat_asciiByte (digit c List.mem_cons_self)
      have later : ∀ c ∈ cs, c.isDigit = true := fun c member =>
        digit c (List.mem_cons_of_mem _ member)
      rw [List.map_cons, List.foldl_cons, ih later, here, Nat.ofDigitChars_cons]
      rfl

theorem natOfDigits_digits (n : Nat) : natOfDigits (digits n) = n := by
  have digit : ∀ c ∈ Nat.toDigits 10 n, c.isDigit = true := fun c member =>
    Nat.isDigit_of_mem_toDigits (by decide) (by decide) member
  exact (foldl_asciiByte digit 0).trans Nat.ofDigitChars_ten_toDigits

theorem nat?_natural (n : Nat) : (natural n).nat? = some n := by
  simp [natural, Numeral.nat?, natOfDigits_digits]

/-- A number of 64 bits has at most twenty digits, far fewer than a double has room for. -/
theorem isFinite_natural {n : Nat} (word : n < UInt64.size) : (natural n).isFinite = true := by
  have small : n < 10 ^ 20 := Nat.lt_trans word (by decide)
  have short : (digits n).length ≤ 20 := by
    unfold digits
    rw [List.length_map]
    exact (Nat.length_toDigits_le_iff (by decide) (by decide)).2 small
  have few : (0 : Int) - ((0 : Nat) : Int) + ((digits n).length : Int) ≤ 308 := by omega
  simp only [natural, Numeral.isFinite, Option.getD_none, List.append_nil, natOfDigits_digits,
    List.length_nil]
  rw [if_pos]
  simp only [Bool.or_eq_true, decide_eq_true_eq]
  exact .inr few

/-- No leading zero: only zero itself begins with the digit zero. -/
theorem head?_digits {n : Nat} (zero : (digits n).head? = some 48) : (digits n).length = 1 := by
  -- The first digit is what is left after dividing by ten as often as possible: not zero.
  have noZero (n : Nat) (positive : 0 < n) : (Nat.toDigits 10 n).head? ≠ some '0' := by
    induction n using Nat.strongRecOn with
    | _ n ih =>
        by_cases small : n < 10
        · rw [Nat.toDigits_of_lt_base small]
          have range : ∀ d < 10, 0 < d → some (Nat.digitChar d) ≠ some '0' := by decide
          exact range n small positive
        · rw [Nat.toDigits_of_base_le (by decide) (by omega), List.head?_append]
          have rest := ih (n / 10) (by omega) (by omega)
          cases found : (Nat.toDigits 10 (n / 10)).head? with
          | none => simp at found
          | some c => rw [found] at rest; simpa using rest
  rcases Nat.eq_zero_or_pos n with rfl | positive
  · decide
  · exfalso
    unfold digits at zero
    rw [List.head?_map] at zero
    cases found : (Nat.toDigits 10 n).head? with
    | none => simp at found
    | some c =>
        have digit : c.isDigit = true :=
          Nat.isDigit_of_mem_toDigits (by decide) (by decide) (List.mem_of_head? found)
        rw [found] at zero
        have code : c.toNat = 48 := by
          rw [← toNat_asciiByte digit]
          exact congrArg UInt8.toNat (Option.some.inj zero)
        apply noZero n positive
        rw [found, ← Char.ofNat_toNat c, code]

/-! ## Reading a numeral -/

/-- A numeral cannot go on with these bytes. -/
def EndsNumeral (rest : Bytes) : Prop :=
  ∀ b, rest.head? = some b → isDigit b = false ∧ b ≠ 46 ∧ b ≠ 101 ∧ b ≠ 69

theorem endsNumeral_nil : EndsNumeral [] := fun _ found => by cases found

theorem endsNumeral_cons {b : UInt8} {rest : Bytes}
    (stops : isDigit b = false ∧ b ≠ 46 ∧ b ≠ 101 ∧ b ≠ 69) : EndsNumeral (b :: rest) := by
  intro found same
  cases same
  exact stops

theorem takeWhile_digits (n : Nat) {rest : Bytes} (ends : EndsNumeral rest) :
    (digits n ++ rest).takeWhile isDigit = digits n ∧
      (digits n ++ rest).dropWhile isDigit = rest := by
  have digit : ∀ b ∈ digits n, isDigit b = true := fun b member => isDigit_of_mem_digits member
  have stops : rest.takeWhile isDigit = [] ∧ rest.dropWhile isDigit = rest := by
    cases rest with
    | nil => exact ⟨rfl, rfl⟩
    | cons b rest => simp [(ends b rfl).1]
  rw [List.takeWhile_append_of_pos digit, List.dropWhile_append_of_pos digit, stops.1, stops.2]
  exact ⟨List.append_nil _, rfl⟩

theorem wholePart_digits (n : Nat) {rest : Bytes} (ends : EndsNumeral rest) :
    wholePart (digits n ++ rest) = some (digits n, rest) := by
  obtain ⟨taken, dropped⟩ := takeWhile_digits n ends
  have found : someDigits (digits n ++ rest) = some (digits n, rest) := by
    simp [someDigits, taken, dropped, digits_ne_nil]
  have noLeadingZero : ((digits n).head? == some 48 && decide ((digits n).length ≠ 1)) = false := by
    by_cases zero : (digits n).head? = some 48
    · simp [head?_digits zero]
    · simp [zero]
  simp only [wholePart, found, Option.bind_eq_bind, Option.bind_some]
  rw [if_neg (by simpa using noLeadingZero)]

theorem fractionPart_none {rest : Bytes} (ends : EndsNumeral rest) :
    fractionPart rest = some (none, rest) := by
  cases rest with
  | nil => rfl
  | cons b rest =>
      rw [fractionPart]
      exact fun _ same => (ends b rfl).2.1 (List.cons.inj same).1

theorem exponentPart_none {rest : Bytes} (ends : EndsNumeral rest) :
    exponentPart rest = some (none, rest) := by
  cases rest with
  | nil => rfl
  | cons b rest =>
      obtain ⟨-, -, notSmall, notCapital⟩ := ends b rfl
      simp [exponentPart, notSmall, notCapital]

theorem head?_digits_isDigit (n : Nat) : ∃ b rest, digits n = b :: rest ∧ isDigit b = true := by
  cases whole : digits n with
  | nil => exact absurd whole (digits_ne_nil n)
  | cons b rest =>
      refine ⟨b, rest, rfl, isDigit_of_mem_digits (n := n) ?_⟩
      rw [whole]
      exact List.mem_cons_self

/-- The reader of a numeral reads a number up to its end. -/
theorem numeral_nat (n : Nat) {rest : Bytes} (ends : EndsNumeral rest) :
    numeral (digits n ++ rest) = some (natural n, rest) := by
  have unsigned : numeral (digits n ++ rest) = unsignedNumeral false (digits n ++ rest) := by
    obtain ⟨b, later, whole, digit⟩ := head?_digits_isDigit n
    rw [whole, List.cons_append, numeral]
    rintro _ ⟨⟩
    exact absurd digit (by decide)
  rw [unsigned]
  simp [unsignedNumeral, wholePart_digits n ends, fractionPart_none ends, exponentPart_none ends,
    natural]

end DurableRuns.Json
