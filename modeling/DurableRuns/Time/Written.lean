/-
# DurableRuns.Time.Written -- instants as text

Times are written in the form of RFC 3339, in UTC: `2021-03-04T05:06:07.250Z`.  The fraction
has no, three, six or nine digits, as few as it takes.  A year outside 0000 to 9999 has a sign.

Reading is lenient where people and other programs differ: numbers may lack leading zeros and
have blanks before them, the date and the time may be separated by a blank, the offset may
lack its colon, and `UTC` stands for `Z`.  The offset itself must be there.
-/
import DurableRuns.Text.Blank
import DurableRuns.Time.Instant

namespace DurableRuns.Instant

set_option autoImplicit false

/-! ## Writing -/

/-- A number in decimal, filled up with zeros to a width. -/
def padded (width n : Nat) : List Char :=
  let digits := Nat.toDigits 10 n
  List.replicate (width - digits.length) '0' ++ digits

/-- A year: four digits, or a sign and at least four digits. -/
def yearText (year : Int) : List Char :=
  if 0 ≤ year && year ≤ 9999 then padded 4 year.toNat
  else (if year < 0 then '-' else '+') :: padded 4 year.natAbs

/-- The fraction of a second, in as few groups of three digits as it takes. -/
def fractionText (nano : Nat) : List Char :=
  if nano = 0 then []
  else if nano % 1000000 = 0 then '.' :: padded 3 (nano / 1000000)
  else if nano % 1000 = 0 then '.' :: padded 6 (nano / 1000)
  else '.' :: padded 9 nano

/-- The instant as text. -/
def print (t : Instant) : List Char :=
  yearText t.date.year ++ '-' :: padded 2 t.date.month ++ '-' :: padded 2 t.date.day ++
    'T' :: padded 2 (t.minute / 60) ++ ':' :: padded 2 (t.minute % 60) ++
    ':' :: padded 2 t.second ++ fractionText t.nano ++ ['Z']

/-! ## Reading -/

/-- The value of decimal digits. -/
def digitsValue (cs : List Char) : Nat := cs.foldl (fun n c => 10 * n + (c.toNat - 48)) 0

/-- A number of one digit or more, at most `width` of them, and the rest. -/
def number (width : Nat) (cs : List Char) : Option (Nat × List Char) :=
  let digits := (cs.take width).takeWhile Char.isDigit
  if digits.isEmpty then none else some (digitsValue digits, cs.drop digits.length)

/-- A number after blanks. -/
def field (width : Nat) (cs : List Char) : Option (Nat × List Char) :=
  number width (Text.trimStart cs)

/-- The rest after blanks and one given character. -/
def after (expected : Char) (cs : List Char) : Option (List Char) :=
  match Text.trimStart cs with
  | c :: rest => if c = expected then some rest else none
  | [] => none

/-- A year: up to four digits, or a sign and any number of digits. -/
def year (cs : List Char) : Option (Int × List Char) :=
  match Text.trimStart cs with
  | '-' :: rest => (number rest.length rest).map fun (n, rest) => (-(n : Int), rest)
  | '+' :: rest => (number rest.length rest).map fun (n, rest) => ((n : Int), rest)
  | rest => (number 4 rest).map fun (n, rest) => ((n : Int), rest)

/-- A fraction of a second, if there is one: nine digits count, further ones are passed over. -/
def fraction : List Char → Option (Nat × List Char)
  | '.' :: cs =>
      let digits := cs.takeWhile Char.isDigit
      let counted := digits.take 9
      if digits.isEmpty then none
      else some (digitsValue counted * Nat.pow 10 (9 - counted.length), cs.drop digits.length)
  | cs => some (0, cs)

/-- Two digits with a value of at most `bound`, and the rest. -/
def twoDigits (bound : Nat) : List Char → Option (Nat × List Char)
  | a :: b :: rest =>
      let n := digitsValue [a, b]
      if a.isDigit && b.isDigit && n ≤ bound then some (n, rest) else none
  | _ => none

/-- Hours and minutes of an offset whose sign has been read, in minutes. -/
def offsetMinutes (cs : List Char) : Option (Nat × List Char) := do
  let (hours, rest) ← twoDigits 23 cs
  let rest := rest.dropWhile fun c => c = ':' || Text.isBlank c
  let (minutes, rest) ← twoDigits 59 rest
  some (60 * hours + minutes, rest)

/-- The offset from UTC in minutes. -/
def offset (cs : List Char) : Option (Int × List Char) :=
  match Text.trimStart cs with
  | 'Z' :: rest => some (0, rest)
  | 'z' :: rest => some (0, rest)
  | '+' :: rest => (offsetMinutes rest).map fun (n, rest) => ((n : Int), rest)
  | '-' :: rest => (offsetMinutes rest).map fun (n, rest) => (-(n : Int), rest)
  | '−' :: rest => (offsetMinutes rest).map fun (n, rest) => (-(n : Int), rest)
  | a :: b :: c :: rest =>
      if [a, b, c].map Char.toUpper = ['U', 'T', 'C'] then some (0, rest) else none
  | _ => none

/-- The instant a text writes, if it writes one. -/
def parse? (cs : List Char) : Option Instant := do
  let (year, rest) ← year cs
  let (month, rest) ← field 2 (← after '-' rest)
  let (day, rest) ← field 2 (← after '-' rest)
  let rest ← match rest with
    | c :: rest => if c = 'T' || c = 't' || c = ' ' then some rest else none
    | [] => none
  let (hour, rest) ← field 2 rest
  let (minute, rest) ← field 2 (← after ':' rest)
  let (second, rest) ← field 2 (← after ':' rest)
  let (nano, rest) ← fraction rest
  let (offset, rest) ← offset rest
  if 23 < hour || 59 < minute || !(Text.trimStart rest).isEmpty then none
  else ofLocal? ⟨year, month, day⟩ (60 * hour + minute) second nano offset

end DurableRuns.Instant
