/-
# DurableRuns.Json.Value -- JSON values as they are written

A `Json` value keeps what stands in the file: a number is its numeral, and a string is the
bytes between its quotes, escapes included.  What a numeral or a string means is read off
where it is needed (`DurableRuns.Json.Reading`), so a part of a file that nobody asks for only
has to be well formed and never has to make sense.

`Json.Text.encode` writes a text as string bytes: a quote, a backslash and a control
character are escaped, and every other character is written as it stands.
-/
import DurableRuns.Text.Utf8

namespace DurableRuns

set_option autoImplicit false

/-- A number as written: sign, whole part, fraction and exponent, each as digits. -/
structure Numeral where
  negative : Bool
  whole : Bytes
  fraction : Option Bytes
  /-- The sign (`true` for minus) and the digits of the power of ten. -/
  exponent : Option (Bool × Bytes)
deriving DecidableEq, Repr

/-- A JSON value as written. -/
inductive Json where
  | null
  | bool (value : Bool)
  | number (numeral : Numeral)
  | string (body : Bytes)
  | array (items : List Json)
  | object (members : List (Bytes × Json))

namespace Json

/-- The bytes of an ASCII text. -/
def ascii (s : String) : Bytes := s.toList.map fun c => c.toNat.toUInt8

/-- The decimal digits of a number. -/
def digits (n : Nat) : Bytes := (Nat.toDigits 10 n).map fun c => c.toNat.toUInt8

/-- The lower-case hexadecimal digit of a number below sixteen. -/
def hexDigit (n : Nat) : UInt8 := if n < 10 then (48 + n).toUInt8 else (87 + n).toUInt8

/-- How a character is written inside a string. -/
def escapeChar (c : Char) : Bytes :=
  if c = '"' then [92, 34]
  else if c = '\\' then [92, 92]
  else if c = '\n' then [92, 110]
  else if c = '\r' then [92, 114]
  else if c = '\t' then [92, 116]
  else if c.toNat = 8 then [92, 98]
  else if c.toNat = 12 then [92, 102]
  else if c.toNat < 32 then [92, 117, 48, 48, hexDigit (c.toNat / 16), hexDigit (c.toNat % 16)]
  else String.utf8EncodeChar c

/-- The bytes that stand for a text between quotes. -/
def escape (s : String) : Bytes := s.toList.flatMap escapeChar

/-- A text as a JSON string. -/
def text (s : String) : Json := .string (escape s)

/-- A natural number as a JSON number. -/
def nat (n : Nat) : Json := .number ⟨false, digits n, none, none⟩

/-- An object with the given members, in the given order. -/
def record (members : List (String × Json)) : Json :=
  .object (members.map fun (name, value) => (escape name, value))

end Json
end DurableRuns
