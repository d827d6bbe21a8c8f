/-
# DurableRuns.Json.Parser -- reading a JSON value from bytes

`Json.parse` accepts exactly the JSON grammar: one value with blanks (space, tab, line feed,
carriage return) around it and between its parts, no leading zeros, no trailing commas, only
the known escapes.  It works on bytes, keeps numerals and string bodies as they stand, and
does not ask whether a string body is a text.

Every step takes a budget that bounds the depth of the recursion.  A step that goes deeper or
further has read at least one byte, so the length of the input is always enough.
-/
import DurableRuns.Json.Value

namespace DurableRuns.Json

set_option autoImplicit false

/-- A blank between the parts of a value. -/
def isSpace (b : UInt8) : Bool := b == 32 || b == 10 || b == 13 || b == 9

/-- A decimal digit. -/
def isDigit (b : UInt8) : Bool := 48 ≤ b && b ≤ 57

/-- A hexadecimal digit, in either case. -/
def isHex (b : UInt8) : Bool := isDigit b || (65 ≤ b && b ≤ 70) || (97 ≤ b && b ≤ 102)

/-- The input from its first byte that is no blank. -/
def skipSpace (input : Bytes) : Bytes := input.dropWhile isSpace

/-- The bytes up to the closing quote, escapes kept, and the rest after the quote. -/
def stringBody : Bytes → Option (Bytes × Bytes)
  | [] => none
  | 34 :: rest => some ([], rest)
  | 92 :: 117 :: a :: b :: c :: d :: rest =>
      if isHex a && isHex b && isHex c && isHex d then
        (stringBody rest).map fun (body, rest) => (92 :: 117 :: a :: b :: c :: d :: body, rest)
      else none
  | 92 :: e :: rest =>
      if e ∈ [34, 92, 47, 98, 102, 110, 114, 116] then
        (stringBody rest).map fun (body, rest) => (92 :: e :: body, rest)
      else none
  | b :: rest =>
      if b < 32 || b == 92 then none
      else (stringBody rest).map fun (body, rest) => (b :: body, rest)

/-- One or more digits, and the rest. -/
def someDigits (input : Bytes) : Option (Bytes × Bytes) :=
  let found := input.takeWhile isDigit
  if found.isEmpty then none else some (found, input.dropWhile isDigit)

/-- A whole part: digits without a leading zero, or a single zero. -/
def wholePart (input : Bytes) : Option (Bytes × Bytes) := do
  let (found, rest) ← someDigits input
  if found.head? == some 48 && found.length ≠ 1 then none else some (found, rest)

/-- The fraction after a numeral's whole part, if there is one. -/
def fractionPart : Bytes → Option (Option Bytes × Bytes)
  | 46 :: input => (someDigits input).map fun (found, rest) => (some found, rest)
  | input => some (none, input)

/-- The sign and the digits of an exponent whose letter has been read. -/
def exponentDigits : Bytes → Option ((Bool × Bytes) × Bytes)
  | 45 :: input => (someDigits input).map fun (found, rest) => ((true, found), rest)
  | 43 :: input => (someDigits input).map fun (found, rest) => ((false, found), rest)
  | input => (someDigits input).map fun (found, rest) => ((false, found), rest)

/-- The exponent at the end of a numeral, if there is one. -/
def exponentPart : Bytes → Option (Option (Bool × Bytes) × Bytes)
  | b :: input =>
      if b == 101 || b == 69 then
        (exponentDigits input).map fun (found, rest) => (some found, rest)
      else some (none, b :: input)
  | [] => some (none, [])

/-- A numeral whose sign has been read. -/
def unsignedNumeral (negative : Bool) (input : Bytes) : Option (Numeral × Bytes) := do
  let (whole, rest) ← wholePart input
  let (fraction, rest) ← fractionPart rest
  let (exponent, rest) ← exponentPart rest
  some (⟨negative, whole, fraction, exponent⟩, rest)

/-- A numeral. -/
def numeral : Bytes → Option (Numeral × Bytes)
  | 45 :: input => unsignedNumeral true input
  | input => unsignedNumeral false input

mutual

/-- A value at the start of the input, after blanks, and the rest. -/
def value : Nat → Bytes → Option (Json × Bytes)
  | 0, _ => none
  | budget + 1, input =>
      match skipSpace input with
      | 110 :: 117 :: 108 :: 108 :: rest => some (.null, rest)
      | 116 :: 114 :: 117 :: 101 :: rest => some (.bool true, rest)
      | 102 :: 97 :: 108 :: 115 :: 101 :: rest => some (.bool false, rest)
      | 34 :: rest => (stringBody rest).map fun (body, rest) => (.string body, rest)
      | 91 :: rest =>
          match skipSpace rest with
          | 93 :: rest => some (.array [], rest)
          | rest => do
              let (item, rest) ← value budget rest
              let (items, rest) ← moreItems budget rest
              some (.array (item :: items), rest)
      | 123 :: rest =>
          match skipSpace rest with
          | 125 :: rest => some (.object [], rest)
          | rest => do
              let (first, rest) ← member budget rest
              let (members, rest) ← moreMembers budget rest
              some (.object (first :: members), rest)
      | rest => (numeral rest).map fun (found, rest) => (.number found, rest)

/-- A key, a colon and a value. -/
def member : Nat → Bytes → Option ((Bytes × Json) × Bytes)
  | 0, _ => none
  | budget + 1, input =>
      match skipSpace input with
      | 34 :: rest => do
          let (key, rest) ← stringBody rest
          match skipSpace rest with
          | 58 :: rest => do
              let (found, rest) ← value budget rest
              some ((key, found), rest)
          | _ => none
      | _ => none

/-- The items after the first, up to the closing bracket. -/
def moreItems : Nat → Bytes → Option (List Json × Bytes)
  | 0, _ => none
  | budget + 1, input =>
      match skipSpace input with
      | 93 :: rest => some ([], rest)
      | 44 :: rest => do
          let (item, rest) ← value budget rest
          let (items, rest) ← moreItems budget rest
          some (item :: items, rest)
      | _ => none

/-- The members after the first, up to the closing brace. -/
def moreMembers : Nat → Bytes → Option (List (Bytes × Json) × Bytes)
  | 0, _ => none
  | budget + 1, input =>
      match skipSpace input with
      | 125 :: rest => some ([], rest)
      | 44 :: rest => do
          let (next, rest) ← member budget rest
          let (members, rest) ← moreMembers budget rest
          some (next :: members, rest)
      | _ => none

end

/-- The value that the whole input writes. -/
def parse (input : Bytes) : Option Json := do
  let (found, rest) ← value (2 * input.length + 2) input
  if (skipSpace rest).isEmpty then some found else none

end DurableRuns.Json
