/-
# DurableRuns.Proofs.Time.Written -- a written time is read back

Main statement: `parse?_print`, every instant is read back from its text, whatever its year and
however many digits its fraction takes.  A number filled up with zeros is read by its width or
up to the next character that is no digit, and means what it meant (`digitsValue_padded`).
-/
import Mathlib.Algebra.Group.Nat.Defs
import DurableRuns.Time.Written

namespace DurableRuns.Instant

set_option autoImplicit false

/-! ## Numbers of a fixed width -/

theorem isDigit_of_mem_padded {width n : Nat} {c : Char} (member : c ∈ padded width n) :
    c.isDigit = true := by
  unfold padded at member
  rcases List.mem_append.1 member with zero | digit
  · rw [List.eq_of_mem_replicate zero]
    decide
  · exact Nat.isDigit_of_mem_toDigits (by decide) (by decide) digit

theorem padded_ne_nil (width n : Nat) : padded width n ≠ [] := by
  simp [padded]

/-- A number with no more digits than the width fills it exactly. -/
theorem length_padded {width n : Nat} (positive : 0 < width) (small : n < 10 ^ width) :
    (padded width n).length = width := by
  have short := (Nat.length_toDigits_le_iff (b := 10) (by decide) positive).2 small
  simp only [padded, List.length_append, List.length_replicate]
  omega

theorem digitsValue_padded (width n : Nat) : digitsValue (padded width n) = n := by
  have value : digitsValue (padded width n) = Nat.ofDigitChars 10 (padded width n) 0 := rfl
  rw [value, padded, Nat.ofDigitChars_append, Nat.ofDigitChars_replicate_zero, Nat.mul_zero]
  exact Nat.ofDigitChars_ten_toDigits

theorem takeWhile_padded (width n : Nat) {c : Char} (noDigit : c.isDigit = false)
    (rest : List Char) :
    (padded width n ++ c :: rest).takeWhile Char.isDigit = padded width n := by
  rw [List.takeWhile_append_of_pos fun _ member => isDigit_of_mem_padded member]
  simp [noDigit]

/-- A digit is not a blank. -/
theorem isBlank_of_isDigit {c : Char} (digit : c.isDigit = true) : Text.isBlank c = false := by
  have range : ∀ n < 58, 48 ≤ n → Text.isBlank (Char.ofNat n) = false := by decide
  simp only [Char.isDigit, Bool.and_eq_true, decide_eq_true_eq] at digit
  have low : 48 ≤ c.toNat := UInt32.le_iff_toNat_le.1 digit.1
  have high : c.toNat ≤ 57 := UInt32.le_iff_toNat_le.1 digit.2
  have same := range c.toNat (by omega) low
  rwa [Char.ofNat_toNat] at same

theorem trimStart_cons {c : Char} (solid : Text.isBlank c = false) (rest : List Char) :
    Text.trimStart (c :: rest) = c :: rest := by
  simp [Text.trimStart, solid]

theorem padded_eq_cons (width n : Nat) :
    ∃ c later, padded width n = c :: later ∧ c.isDigit = true := by
  cases whole : padded width n with
  | nil => exact absurd whole (padded_ne_nil width n)
  | cons c later =>
      have member : c ∈ padded width n := whole ▸ List.mem_cons_self
      exact ⟨c, later, rfl, isDigit_of_mem_padded member⟩

theorem trimStart_padded (width n : Nat) (rest : List Char) :
    Text.trimStart (padded width n ++ rest) = padded width n ++ rest := by
  obtain ⟨c, later, whole, digit⟩ := padded_eq_cons width n
  rw [whole, List.cons_append]
  exact trimStart_cons (isBlank_of_isDigit digit) _

/-- A number that fills its width is read by its width. -/
theorem number_padded {width n : Nat} (positive : 0 < width) (small : n < 10 ^ width)
    (rest : List Char) : number width (padded width n ++ rest) = some (n, rest) := by
  have size := length_padded positive small
  have whole : ((padded width n ++ rest).take width).takeWhile Char.isDigit = padded width n := by
    rw [List.take_left' size]
    have digits : ∀ c ∈ padded width n, c.isDigit = true := fun c => isDigit_of_mem_padded
    have prefixed : (padded width n ++ []).takeWhile Char.isDigit =
        padded width n ++ [].takeWhile Char.isDigit := List.takeWhile_append_of_pos digits
    simpa using prefixed
  simp [number, whole, padded_ne_nil, digitsValue_padded]

theorem field_padded {n : Nat} (small : n < 100) (rest : List Char) :
    field 2 (padded 2 n ++ rest) = some (n, rest) := by
  rw [field, trimStart_padded]
  exact number_padded (by decide) (by omega) rest

/-- A number of any length is read up to the next character that is no digit. -/
theorem number_unbounded (n : Nat) {c : Char} (noDigit : c.isDigit = false) (rest : List Char) :
    number (padded 4 n ++ c :: rest).length (padded 4 n ++ c :: rest) =
      some (n, c :: rest) := by
  have whole := takeWhile_padded 4 n noDigit rest
  rw [number, List.take_length, whole]
  simp [padded_ne_nil, digitsValue_padded]

theorem after_cons {c : Char} (solid : Text.isBlank c = false) (rest : List Char) :
    after c (c :: rest) = some rest := by
  rw [after, trimStart_cons solid]
  simp

/-! ## The parts of a time -/

theorem year_yearText (y : Int) (rest : List Char) :
    year (yearText y ++ '-' :: rest) = some (y, '-' :: rest) := by
  unfold yearText
  split
  next usual =>
    simp only [Bool.and_eq_true, decide_eq_true_eq] at usual
    have small : y.toNat < 10 ^ 4 := by omega
    have read := number_padded (by decide) small ('-' :: rest)
    obtain ⟨c, later, whole, digit⟩ := padded_eq_cons 4 y.toNat
    rw [year, trimStart_padded]
    rw [whole, List.cons_append] at read ⊢
    split
    next same => rw [(List.cons.inj same).1] at digit; exact absurd digit (by decide)
    next same => rw [(List.cons.inj same).1] at digit; exact absurd digit (by decide)
    next =>
      rw [read]
      simp only [Option.map_some]
      rw [Int.toNat_of_nonneg usual.1]
  next =>
    split
    next negative =>
      rw [year, List.cons_append, trimStart_cons (by decide)]
      simp only [number_unbounded y.natAbs (c := '-') (by decide) rest, Option.map_some]
      have value : -(y.natAbs : Int) = y := by omega
      rw [value]
    next notNegative =>
      rw [year, List.cons_append, trimStart_cons (by decide)]
      simp only [number_unbounded y.natAbs (c := '-') (by decide) rest, Option.map_some]
      have value : (y.natAbs : Int) = y := by omega
      rw [value]

theorem fraction_padded {width n : Nat} (positive : 0 < width) (most : width ≤ 9)
    (small : n < 10 ^ width) :
    fraction ('.' :: padded width n ++ ['Z']) = some (n * 10 ^ (9 - width), ['Z']) := by
  have size := length_padded positive small
  have digits := takeWhile_padded width n (c := 'Z') (by decide) []
  have counted : (padded width n).take 9 = padded width n :=
    List.take_of_length_le (by omega)
  rw [List.cons_append, fraction]
  simp [digits, counted, digitsValue_padded, size, padded_ne_nil]

theorem fraction_fractionText {nano : Nat} (bound : nano < 1000000000) :
    fraction (fractionText nano ++ ['Z']) = some (nano, ['Z']) := by
  unfold fractionText
  split
  next zero => subst zero; rfl
  next =>
    split
    next =>
      rw [fraction_padded (by decide) (by decide) (by omega)]
      have value : nano / 1000000 * 10 ^ (9 - 3) = nano := by omega
      rw [value]
    next =>
      split
      next =>
        rw [fraction_padded (by decide) (by decide) (by omega)]
        have value : nano / 1000 * 10 ^ (9 - 6) = nano := by omega
        rw [value]
      next =>
        rw [fraction_padded (by decide) (by decide) (by omega)]
        simp

theorem offset_utc : offset ['Z'] = some (0, []) := by decide

/-! ## The whole -/

theorem month_lt (t : Instant) : t.date.month < 100 := by
  have found := t.date_exists
  simp only [Calendar.Date.exists, Bool.and_eq_true, decide_eq_true_eq] at found
  omega

theorem daysIn_le (year : Int) (month : Nat) : Calendar.daysIn year month ≤ 31 := by
  unfold Calendar.daysIn
  split
  · split <;> omega
  all_goals omega

theorem day_lt (t : Instant) : t.date.day < 100 := by
  have found := t.date_exists
  simp only [Calendar.Date.exists, Bool.and_eq_true, decide_eq_true_eq] at found
  have := daysIn_le t.date.year t.date.month
  omega

/-- Every instant is read back from its text. -/
theorem parse?_print (t : Instant) : parse? t.print = some t := by
  have minutes := t.minute_lt
  have seconds := t.second_le
  have whole : t.print = yearText t.date.year ++ '-' :: (padded 2 t.date.month ++ '-' ::
      (padded 2 t.date.day ++ 'T' :: (padded 2 (t.minute / 60) ++ ':' ::
        (padded 2 (t.minute % 60) ++ ':' :: (padded 2 t.second ++
          (fractionText t.nano ++ ['Z'])))))) := by
    simp only [print, List.append_assoc, List.cons_append]
  have time : 60 * (t.minute / 60) + t.minute % 60 = t.minute := by omega
  have found {α β : Type} {part : Option α} {value : α} {next : α → Option β}
      (read : part = some value) : part >>= next = next value := by rw [read]; rfl
  rw [whole, parse?]
  refine (found (year_yearText _ _)).trans ?_
  refine (found (after_cons (by decide) _)).trans ((found (field_padded (month_lt t) _)).trans ?_)
  refine (found (after_cons (by decide) _)).trans ((found (field_padded (day_lt t) _)).trans ?_)
  refine (found (field_padded (by omega) _)).trans ?_
  refine (found (after_cons (by decide) _)).trans ((found (field_padded (by omega) _)).trans ?_)
  refine (found (after_cons (by decide) _)).trans ((found (field_padded (by omega) _)).trans ?_)
  refine (found (fraction_fractionText t.nano_lt)).trans ((found offset_utc).trans ?_)
  have inDay : ¬ (23 < t.minute / 60 ∨ 59 < t.minute % 60) := by omega
  simp only [Text.trimStart, List.dropWhile_nil, List.isEmpty_nil, Bool.not_true, Bool.or_false,
    Bool.or_eq_true, decide_eq_true_eq, inDay, if_false, time]
  exact ofLocal?_self t

end DurableRuns.Instant
