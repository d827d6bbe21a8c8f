/-
# DurableRuns.Text.Base64 -- bytes as printable text

Base 64 with the standard alphabet: three bytes become four letters, and a last group of one
or two bytes is filled up with `=`.  Reading is strict: the length is a multiple of four, the
filling is there, and the bits that no byte uses are zero.  So each byte string has exactly
one written form.
-/
import DurableRuns.Text.Utf8

namespace DurableRuns.Base64

set_option autoImplicit false

/-- The letter for a number below sixty-four. -/
def letter (n : Nat) : Char :=
  if n < 26 then Char.ofNat (65 + n)
  else if n < 52 then Char.ofNat (71 + n)
  else if n < 62 then Char.ofNat (n - 4)
  else if n = 62 then '+'
  else '/'

/-- The number a letter stands for. -/
def number? (c : Char) : Option Nat :=
  if 'A' ≤ c && c ≤ 'Z' then some (c.toNat - 65)
  else if 'a' ≤ c && c ≤ 'z' then some (c.toNat - 71)
  else if '0' ≤ c && c ≤ '9' then some (c.toNat + 4)
  else if c = '+' then some 62
  else if c = '/' then some 63
  else none

/-- The letters for a byte string. -/
def encode : Bytes → List Char
  | [] => []
  | [a] => [letter (a.toNat / 4), letter (a.toNat % 4 * 16), '=', '=']
  | [a, b] =>
      [letter (a.toNat / 4), letter (a.toNat % 4 * 16 + b.toNat / 16),
        letter (b.toNat % 16 * 4), '=']
  | a :: b :: c :: rest =>
      letter (a.toNat / 4) :: letter (a.toNat % 4 * 16 + b.toNat / 16) ::
        letter (b.toNat % 16 * 4 + c.toNat / 64) :: letter (c.toNat % 64) :: encode rest

/-- A last group of one byte. -/
def lastOne? (p q : Char) : Option Bytes := do
  let p ← number? p
  let q ← number? q
  if q % 16 = 0 then some [(p * 4 + q / 16).toUInt8] else none

/-- A last group of two bytes. -/
def lastTwo? (p q r : Char) : Option Bytes := do
  let p ← number? p
  let q ← number? q
  let r ← number? r
  if r % 4 = 0 then some [(p * 4 + q / 16).toUInt8, (q % 16 * 16 + r / 4).toUInt8] else none

/-- A full group of three bytes. -/
def three? (p q r s : Char) : Option Bytes := do
  let p ← number? p
  let q ← number? q
  let r ← number? r
  let s ← number? s
  some [(p * 4 + q / 16).toUInt8, (q % 16 * 16 + r / 4).toUInt8, (r % 4 * 64 + s).toUInt8]

/-- The byte string that letters write, if they write one. -/
def decode? : List Char → Option Bytes
  | [] => some []
  | [p, q, '=', '='] => lastOne? p q
  | [p, q, r, '='] => lastTwo? p q r
  | p :: q :: r :: s :: rest => do
      let group ← three? p q r s
      (decode? rest).map (group ++ ·)
  | _ => none

end DurableRuns.Base64
