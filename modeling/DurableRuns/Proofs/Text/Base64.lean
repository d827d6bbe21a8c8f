/-
# DurableRuns.Proofs.Text.Base64 -- what base 64 is read back, and what is refused

Main statements: `decode?_eq_some_iff`, letters are read as a byte string exactly if they are
its written form, whichever of the three lengths its last group has, so each byte string has one
written form; `decode?_eq_none_iff`, what is refused is what `IsFlawed` names: a last group that
is not filled up, a foreign character, or bits that no byte uses and that are not zero.
-/
import Mathlib.Algebra.Group.Nat.Defs
import DurableRuns.Text.Base64

namespace DurableRuns.Base64

set_option autoImplicit false

theorem number?_letter : ∀ n < 64, number? (letter n) = some n := by decide

theorem letter_ne_filling : ∀ n < 64, letter n ≠ '=' := by decide

theorem lastOne?_letters (a : UInt8) :
    lastOne? (letter (a.toNat / 4)) (letter (a.toNat % 4 * 16)) = some [a] := by
  have bound := a.toNat_lt
  simp only [lastOne?, number?_letter (a.toNat / 4) (by omega),
    number?_letter (a.toNat % 4 * 16) (by omega), Option.bind_eq_bind, Option.bind_some]
  rw [if_pos (by omega)]
  have whole : a.toNat / 4 * 4 + a.toNat % 4 * 16 / 16 = a.toNat := by omega
  rw [whole, Nat.toUInt8_eq, UInt8.ofNat_toNat]

theorem lastTwo?_letters (a b : UInt8) :
    lastTwo? (letter (a.toNat / 4)) (letter (a.toNat % 4 * 16 + b.toNat / 16))
      (letter (b.toNat % 16 * 4)) = some [a, b] := by
  have boundA := a.toNat_lt
  have boundB := b.toNat_lt
  simp only [lastTwo?, number?_letter (a.toNat / 4) (by omega),
    number?_letter (a.toNat % 4 * 16 + b.toNat / 16) (by omega),
    number?_letter (b.toNat % 16 * 4) (by omega), Option.bind_eq_bind, Option.bind_some]
  rw [if_pos (by omega)]
  have first : a.toNat / 4 * 4 + (a.toNat % 4 * 16 + b.toNat / 16) / 16 = a.toNat := by omega
  have second : (a.toNat % 4 * 16 + b.toNat / 16) % 16 * 16 + b.toNat % 16 * 4 / 4 = b.toNat := by
    omega
  rw [first, second, Nat.toUInt8_eq, Nat.toUInt8_eq, UInt8.ofNat_toNat, UInt8.ofNat_toNat]

theorem three?_letters (a b c : UInt8) :
    three? (letter (a.toNat / 4)) (letter (a.toNat % 4 * 16 + b.toNat / 16))
      (letter (b.toNat % 16 * 4 + c.toNat / 64)) (letter (c.toNat % 64)) = some [a, b, c] := by
  have boundA := a.toNat_lt
  have boundB := b.toNat_lt
  have boundC := c.toNat_lt
  simp only [three?, number?_letter (a.toNat / 4) (by omega),
    number?_letter (a.toNat % 4 * 16 + b.toNat / 16) (by omega),
    number?_letter (b.toNat % 16 * 4 + c.toNat / 64) (by omega),
    number?_letter (c.toNat % 64) (by omega), Option.bind_eq_bind, Option.bind_some]
  have first : a.toNat / 4 * 4 + (a.toNat % 4 * 16 + b.toNat / 16) / 16 = a.toNat := by omega
  have second : (a.toNat % 4 * 16 + b.toNat / 16) % 16 * 16 +
      (b.toNat % 16 * 4 + c.toNat / 64) / 4 = b.toNat := by omega
  have third : (b.toNat % 16 * 4 + c.toNat / 64) % 4 * 64 + c.toNat % 64 = c.toNat := by omega
  rw [first, second, third]
  simp

/-- A byte string is read back from its letters. -/
theorem decode?_encode (bytes : Bytes) : decode? (encode bytes) = some bytes := by
  fun_induction encode bytes with
  | case1 => rw [decode?]
  | case2 a => rw [decode?]; exact lastOne?_letters a
  | case3 a b =>
      have boundB := b.toNat_lt
      have notFilled := letter_ne_filling (b.toNat % 16 * 4) (by omega)
      rw [decode?]
      · exact lastTwo?_letters a b
      · exact fun same => notFilled same
  | case4 a b c rest ih =>
      have notFilled := letter_ne_filling (c.toNat % 64) (by omega)
      rw [decode?, three?_letters, ih]
      · rfl
      · exact fun _ same _ => notFilled same
      · exact fun same _ => notFilled same

/-! ## What is read was written -/

/-- A character that stands for a number is the letter of that number. -/
theorem letter_of_number? {c : Char} {n : Nat} (stands : number? c = some n) :
    n < 64 ∧ letter n = c := by
  have upTo (last : Char) (ascii : last.toNat < 128) (le : c ≤ last) : c.toNat < 128 :=
    Nat.lt_of_le_of_lt (UInt32.le_iff_toNat_le.1 le) ascii
  have small : c.toNat < 128 := by
    unfold number? at stands
    simp only [Bool.and_eq_true, decide_eq_true_eq] at stands
    split at stands
    next upper => exact upTo 'Z' (by decide) upper.2
    next =>
      split at stands
      next lower => exact upTo 'z' (by decide) lower.2
      next =>
        split at stands
        next digit => exact upTo '9' (by decide) digit.2
        next =>
          split at stands
          next plus => exact plus ▸ by decide
          next =>
            split at stands
            next slash => exact slash ▸ by decide
            next => cases stands
  have ascii : ∀ code < 128, ∀ n ∈ number? (Char.ofNat code),
      n < 64 ∧ letter n = Char.ofNat code := by decide
  have found := ascii c.toNat small n
  rw [Char.ofNat_toNat] at found
  exact found stands

theorem toNat_toUInt8 {n : Nat} (small : n < 256) : n.toUInt8.toNat = n :=
  UInt8.toNat_ofNat_of_lt' small

/-- A last group of one byte is read only from its letters. -/
theorem lastOne?_eq_some {p q : Char} {bytes : Bytes} (read : lastOne? p q = some bytes) :
    [p, q, '=', '='] = encode bytes := by
  simp only [lastOne?, Option.bind_eq_bind, Option.bind_eq_some_iff] at read
  obtain ⟨m, first, n, second, last⟩ := read
  obtain ⟨small, rfl⟩ := letter_of_number? first
  obtain ⟨small', rfl⟩ := letter_of_number? second
  split at last
  next zero =>
    cases last
    have value := toNat_toUInt8 (n := m * 4 + n / 16) (by omega)
    have high : (m * 4 + n / 16) / 4 = m := by omega
    have low : (m * 4 + n / 16) % 4 * 16 = n := by omega
    rw [encode, value, high, low]
  next => cases last

/-- A last group of two bytes is read only from its letters. -/
theorem lastTwo?_eq_some {p q r : Char} {bytes : Bytes} (read : lastTwo? p q r = some bytes) :
    [p, q, r, '='] = encode bytes := by
  simp only [lastTwo?, Option.bind_eq_bind, Option.bind_eq_some_iff] at read
  obtain ⟨l, first, m, second, n, third, last⟩ := read
  obtain ⟨small, rfl⟩ := letter_of_number? first
  obtain ⟨small', rfl⟩ := letter_of_number? second
  obtain ⟨small'', rfl⟩ := letter_of_number? third
  split at last
  next zero =>
    cases last
    have value := toNat_toUInt8 (n := l * 4 + m / 16) (by omega)
    have value' := toNat_toUInt8 (n := m % 16 * 16 + n / 4) (by omega)
    have high : (l * 4 + m / 16) / 4 = l := by omega
    have middle : (l * 4 + m / 16) % 4 * 16 + (m % 16 * 16 + n / 4) / 16 = m := by omega
    have low : (m % 16 * 16 + n / 4) % 16 * 4 = n := by omega
    rw [encode, value, value', high, middle, low]
  next => cases last

/-- A group of three bytes is read only from its letters, which come before those of the rest. -/
theorem three?_eq_some {p q r s : Char} {group : Bytes} (read : three? p q r s = some group)
    (rest : Bytes) : p :: q :: r :: s :: encode rest = encode (group ++ rest) := by
  simp only [three?, Option.bind_eq_bind, Option.bind_eq_some_iff] at read
  obtain ⟨k, first, l, second, m, third, n, fourth, last⟩ := read
  obtain ⟨smallK, rfl⟩ := letter_of_number? first
  obtain ⟨smallL, rfl⟩ := letter_of_number? second
  obtain ⟨smallM, rfl⟩ := letter_of_number? third
  obtain ⟨smallN, rfl⟩ := letter_of_number? fourth
  cases last
  have value := toNat_toUInt8 (n := k * 4 + l / 16) (by omega)
  have value' := toNat_toUInt8 (n := l % 16 * 16 + m / 4) (by omega)
  have value'' := toNat_toUInt8 (n := m % 4 * 64 + n) (by omega)
  have one : (k * 4 + l / 16) / 4 = k := by omega
  have two : (k * 4 + l / 16) % 4 * 16 + (l % 16 * 16 + m / 4) / 16 = l := by omega
  have three : (l % 16 * 16 + m / 4) % 16 * 4 + (m % 4 * 64 + n) / 64 = m := by omega
  have four : (m % 4 * 64 + n) % 64 = n := by omega
  rw [List.cons_append, List.cons_append, List.cons_append, List.nil_append, encode, value, value',
    value'', one, two, three, four]

/-- Letters are read as a byte string exactly if they are its written form. -/
theorem decode?_eq_some_iff {cs : List Char} {bytes : Bytes} :
    decode? cs = some bytes ↔ cs = encode bytes := by
  refine ⟨fun read => ?_, fun written => written ▸ decode?_encode bytes⟩
  fun_induction decode? cs generalizing bytes with
  | case1 =>
      cases read
      rfl
  | case2 p q => exact lastOne?_eq_some read
  | case3 p q r => exact lastTwo?_eq_some read
  | case4 p q r s rest _ _ ih =>
      simp only [Option.bind_eq_bind, Option.bind_eq_some_iff, Option.map_eq_some_iff] at read
      obtain ⟨group, first, later, second, rfl⟩ := read
      rw [ih second]
      exact three?_eq_some first later
  | case5 => cases read

/-! ## What is refused -/

/-- The letters of a text without the filling at its end, of which there is at most two. -/
def unfilled (cs : List Char) : List Char :=
  if ['=', '='] <:+ cs then cs.dropLast.dropLast
  else if ['='] <:+ cs then cs.dropLast
  else cs

/-- What is wrong with a text that writes no byte string. -/
inductive IsFlawed (cs : List Char) : Prop
  /-- The last group is not filled up. -/
  | unfinished (length : cs.length % 4 ≠ 0)
  /-- A character is no letter and does not fill the last group. -/
  | foreign (c : Char) (inside : c ∈ unfilled cs) (unknown : number? c = none)
  /-- The last letter has bits that no byte uses, two for each filling, and not all are zero. -/
  | unusedBits (c : Char) (n : Nat) (last : (unfilled cs).getLast? = some c)
      (stands : number? c = some n) (bits : n % 4 ^ (cs.length - (unfilled cs).length) ≠ 0)

theorem suffix_concat_iff (filling front : List Char) (c d : Char) :
    filling ++ [d] <:+ front ++ [c] ↔ d = c ∧ filling <:+ front := by
  rw [← List.reverse_prefix, List.reverse_concat, List.reverse_concat, List.cons_prefix_cons,
    List.reverse_prefix]

theorem unfilled_two (p q : Char) : unfilled [p, q, '=', '='] = [p, q] :=
  if_pos (List.suffix_append [p, q] ['=', '='])

theorem unfilled_one {p q r : Char} (letter : r ≠ '=') : unfilled [p, q, r, '='] = [p, q, r] := by
  have two : ¬ ['=', '='] <:+ [p, q, r, '='] := by
    intro filled
    have inner := ((suffix_concat_iff ['='] [p, q, r] '=' '=').1 filled).2
    exact letter ((suffix_concat_iff [] [p, q] r '=').1 inner).1.symm
  rw [unfilled, if_neg two]
  exact if_pos (List.suffix_append [p, q, r] ['='])

theorem unfilled_full (p q r : Char) {s : Char} (letter : s ≠ '=') :
    unfilled [p, q, r, s] = [p, q, r, s] := by
  have two : ¬ ['=', '='] <:+ [p, q, r, s] := fun filled =>
    letter ((suffix_concat_iff ['='] [p, q, r] s '=').1 filled).1.symm
  have one : ¬ ['='] <:+ [p, q, r, s] := fun filled =>
    letter ((suffix_concat_iff [] [p, q, r] s '=').1 filled).1.symm
  rw [unfilled, if_neg two, if_neg one]

/-- What comes before the last two characters is never filling. -/
theorem unfilled_append {group rest : List Char} (long : 2 ≤ rest.length) :
    unfilled (group ++ rest) = group ++ unfilled rest := by
  have suffix {filling : List Char} (short : filling.length ≤ 2) :
      filling <:+ group ++ rest ↔ filling <:+ rest :=
    ⟨fun whole => List.suffix_of_suffix_length_le whole (List.suffix_append ..) (by omega),
      fun inner => inner.trans (List.suffix_append ..)⟩
  have two : ['=', '='].length ≤ 2 := by decide
  have one : ['='].length ≤ 2 := by decide
  have first : rest ≠ [] := List.ne_nil_of_length_pos (by omega)
  have second : rest.dropLast ≠ [] := List.ne_nil_of_length_pos (by simp; omega)
  unfold unfilled
  rw [List.dropLast_append_of_ne_nil first, List.dropLast_append_of_ne_nil second]
  simp only [suffix two, suffix one]
  by_cases filledTwo : ['=', '='] <:+ rest
  · rw [if_pos filledTwo, if_pos filledTwo]
  · rw [if_neg filledTwo, if_neg filledTwo]
    exact (apply_ite (group ++ ·) _ _ _).symm

theorem lastOne?_eq_none {p q : Char} (refused : lastOne? p q = none) :
    IsFlawed [p, q, '=', '='] := by
  have inside := unfilled_two p q
  cases first : number? p with
  | none => exact .foreign p (by simp [inside]) first
  | some m =>
      cases second : number? q with
      | none => exact .foreign q (by simp [inside]) second
      | some n =>
          refine .unusedBits q n (by simp [inside]) second ?_
          simpa [lastOne?, first, second, inside] using refused

theorem lastTwo?_eq_none {p q r : Char} (letter : r ≠ '=') (refused : lastTwo? p q r = none) :
    IsFlawed [p, q, r, '='] := by
  have inside := unfilled_one (p := p) (q := q) letter
  cases first : number? p with
  | none => exact .foreign p (by simp [inside]) first
  | some l =>
      cases second : number? q with
      | none => exact .foreign q (by simp [inside]) second
      | some m =>
          cases third : number? r with
          | none => exact .foreign r (by simp [inside]) third
          | some n =>
              refine .unusedBits r n (by simp [inside]) third ?_
              simpa [lastTwo?, first, second, third, inside] using refused

theorem three?_eq_none {p q r s : Char} (refused : three? p q r s = none) :
    ∃ c ∈ [p, q, r, s], number? c = none := by
  cases first : number? p with
  | none => exact ⟨p, by simp, first⟩
  | some k =>
      cases second : number? q with
      | none => exact ⟨q, by simp, second⟩
      | some l =>
          cases third : number? r with
          | none => exact ⟨r, by simp, third⟩
          | some m =>
              cases fourth : number? s with
              | none => exact ⟨s, by simp, fourth⟩
              | some n => simp [three?, first, second, third, fourth] at refused

/-- A flaw stays one after a group that comes before it. -/
theorem IsFlawed.append {group rest : List Char} (four : group.length = 4)
    (long : 2 ≤ rest.length) (flawed : IsFlawed rest) : IsFlawed (group ++ rest) := by
  have inside := @unfilled_append group rest long
  cases flawed with
  | unfinished length => exact .unfinished (by rw [List.length_append]; omega)
  | foreign c within unknown => exact .foreign c (by simp [inside, within]) unknown
  | unusedBits c n last stands bits =>
      refine .unusedBits c n (by simp [inside, last]) stands ?_
      rwa [inside, List.length_append, List.length_append, Nat.add_sub_add_left]

/-- Letters that are refused have one of the flaws. -/
theorem isFlawed_of_decode? {cs : List Char} (refused : decode? cs = none) : IsFlawed cs := by
  fun_induction decode? cs with
  | case1 => cases refused
  | case2 p q => exact lastOne?_eq_none refused
  | case3 p q r letter => exact lastTwo?_eq_none letter refused
  | case4 p q r s rest notTwo notOne ih =>
      match rest with
      | [] =>
          have letter : s ≠ '=' := fun same => notOne same rfl
          obtain ⟨c, inside, unknown⟩ := three?_eq_none (by simpa [decode?] using refused)
          exact .foreign c (by rwa [unfilled_full p q r letter]) unknown
      | [_] => exact .unfinished (by simp)
      | x :: y :: rest =>
          have long : 2 ≤ (x :: y :: rest).length := by simp
          cases group : three? p q r s with
          | none =>
              obtain ⟨c, inside, unknown⟩ := three?_eq_none group
              have split := @unfilled_append [p, q, r, s] _ long
              have within : c ∈ [p, q, r, s] ++ unfilled (x :: y :: rest) :=
                List.mem_append_left _ inside
              exact .foreign c (split ▸ within) unknown
          | some bytes =>
              have later : decode? (x :: y :: rest) = none := by
                rw [group] at refused
                exact Option.map_eq_none_iff.1 refused
              exact @IsFlawed.append [p, q, r, s] _ rfl long (ih later)
  | case5 cs notEmpty notTwo notOne notGroup =>
      match cs with
      | [] => cases notEmpty rfl
      | [_] | [_, _] | [_, _, _] => exact .unfinished (by simp)
      | p :: q :: r :: s :: rest => cases notGroup p q r s rest rfl

theorem length_le_unfilled (cs : List Char) : cs.length ≤ (unfilled cs).length + 2 := by
  unfold unfilled
  split
  · simp
    omega
  · split <;> simp
    omega

/-- Letters that use all their bits. -/
structure AreLetters (cs : List Char) (numbers : List Nat) : Prop where
  letters : unfilled cs = numbers.map letter
  small : ∀ n ∈ numbers, n < 64
  bits : ∀ n ∈ numbers.getLast?, n % 4 ^ (cs.length - numbers.length) = 0

theorem AreLetters.append {group numbers : List Nat} {rest : List Char}
    (small : ∀ n ∈ group, n < 64) (long : 3 ≤ rest.length) (after : AreLetters rest numbers) :
    AreLetters (group.map letter ++ rest) (group ++ numbers) := by
  have few := length_le_unfilled rest
  rw [after.letters, List.length_map] at few
  have some : numbers ≠ [] := List.ne_nil_of_length_pos (by omega)
  constructor
  case letters => rw [unfilled_append (by omega), after.letters, List.map_append]
  case small =>
    intro n inside
    exact (List.mem_append.1 inside).elim (small n) (after.small n)
  case bits =>
    intro n last
    rw [List.getLast?_append, Option.or_of_isSome (by simpa using some)] at last
    rw [List.length_append, List.length_map, List.length_append, Nat.add_sub_add_left]
    exact after.bits n last

theorem length_encode (bytes : Bytes) : (encode bytes).length = (bytes.length + 2) / 3 * 4 := by
  fun_induction encode bytes with
  | case1 | case2 | case3 => simp
  | case4 a b c rest ih =>
      simp only [List.length_cons, ih]
      omega

theorem areLetters_encode (bytes : Bytes) : ∃ numbers, AreLetters (encode bytes) numbers := by
  fun_induction encode bytes with
  | case1 => exact ⟨[], rfl, by simp, by simp⟩
  | case2 a =>
      have bound := a.toNat_lt
      refine ⟨[a.toNat / 4, a.toNat % 4 * 16], unfilled_two _ _, ?_, ?_⟩
      · simp only [List.forall_mem_cons]
        exact ⟨by omega, by omega, by simp⟩
      · simp
  | case3 a b =>
      have boundA := a.toNat_lt
      have boundB := b.toNat_lt
      refine ⟨[a.toNat / 4, a.toNat % 4 * 16 + b.toNat / 16, b.toNat % 16 * 4],
        unfilled_one (letter_ne_filling _ (by omega)), ?_, ?_⟩
      · simp only [List.forall_mem_cons]
        exact ⟨by omega, by omega, by omega, by simp⟩
      · simp
  | case4 a b c rest ih =>
      have boundA := a.toNat_lt
      have boundB := b.toNat_lt
      have boundC := c.toNat_lt
      have small : ∀ n ∈ [a.toNat / 4, a.toNat % 4 * 16 + b.toNat / 16,
          b.toNat % 16 * 4 + c.toNat / 64, c.toNat % 64], n < 64 := by
        simp only [List.forall_mem_cons]
        exact ⟨by omega, by omega, by omega, by omega, by simp⟩
      match rest with
      | [] =>
          refine ⟨_, unfilled_full _ _ _ (letter_ne_filling _ (by omega)), small, ?_⟩
          simp [encode, Nat.mod_one]
      | d :: rest =>
          obtain ⟨numbers, after⟩ := ih
          have long : 3 ≤ (encode (d :: rest)).length := by
            rw [length_encode, List.length_cons]
            omega
          exact ⟨_, after.append small long⟩

/-- The written form of a byte string has no flaw. -/
theorem not_isFlawed_encode (bytes : Bytes) : ¬ IsFlawed (encode bytes) := by
  obtain ⟨numbers, written⟩ := areLetters_encode bytes
  intro flawed
  cases flawed with
  | unfinished length =>
      rw [length_encode, Nat.mul_mod_left] at length
      exact length rfl
  | foreign c inside unknown =>
      rw [written.letters] at inside
      obtain ⟨n, within, rfl⟩ := List.mem_map.1 inside
      cases (number?_letter n (written.small n within)).symm.trans unknown
  | unusedBits c n last stands unused =>
      rw [written.letters, List.getLast?_map] at last
      obtain ⟨m, final, rfl⟩ := Option.map_eq_some_iff.1 last
      cases (number?_letter m (written.small m (List.mem_of_getLast? final))).symm.trans stands
      rw [written.letters, List.length_map] at unused
      exact unused (written.bits n final)

/-- Exactly the texts that have a flaw are refused. -/
theorem decode?_eq_none_iff {cs : List Char} : decode? cs = none ↔ IsFlawed cs := by
  refine ⟨isFlawed_of_decode?, fun flawed => ?_⟩
  rw [Option.eq_none_iff_forall_ne_some]
  rintro bytes read
  exact not_isFlawed_encode bytes (decode?_eq_some_iff.1 read ▸ flawed)

end DurableRuns.Base64
