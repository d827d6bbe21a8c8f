/-
# DurableRuns.Json.Reading -- what a written JSON value means

The functions here read a typed value off a `Json` value, or refuse it.  A string body means
a text once its escapes are resolved: it must be UTF-8, and a surrogate escape only stands in
a pair.  A numeral means a natural number when it is plain digits.

Records, tagged records and choices follow one set of rules throughout the library:

* a record is an object with its fields in any order, or an array with the fields in their
  order; a member with an unknown name is passed over, a named one occurs at most once;
* a tagged record is an object whose member `type` is the tag, or an array that starts with
  the tag; all of it, the parts that are passed over included, must be meaningful and must
  not be nested deeper than the room that is left;
* a choice is its name as a string, or an object with that name as its only key and `null`.
-/
import DurableRuns.Json.Value

namespace DurableRuns

set_option autoImplicit false

/-- The number that decimal digits write. -/
def Json.natOfDigits (found : Bytes) : Nat := found.foldl (fun n d => 10 * n + (d.toNat - 48)) 0

/-- The natural number that a numeral of plain digits writes. -/
def Numeral.nat? (n : Numeral) : Option Nat :=
  if n.negative || n.fraction.isSome || n.exponent.isSome then none
  else some (Json.natOfDigits n.whole)

/-- The least whole number that, as a double, rounds to infinity. -/
def Numeral.roundsToInfinity : Nat := Nat.pow 2 1024 - Nat.pow 2 970

/-- The numeral lies within the range of a double: it does not round to infinity. -/
def Numeral.isFinite (n : Numeral) : Bool :=
  let fraction := n.fraction.getD []
  let significand := Json.natOfDigits (n.whole ++ fraction)
  let power : Int :=
    (match n.exponent with
      | none => 0
      | some (true, found) => -(Json.natOfDigits found : Int)
      | some (false, found) => Json.natOfDigits found) - fraction.length
  let places : Int := power + (Json.digits significand).length
  if significand = 0 || places ≤ 308 then true
  else if places > 310 then false
  else if power ≥ 0 then significand * Nat.pow 10 power.toNat < roundsToInfinity
  else significand < roundsToInfinity * Nat.pow 10 (-power).toNat

namespace Json

/-- The value of a hexadecimal digit. -/
def hexValue (b : UInt8) : Nat :=
  if b ≤ 57 then b.toNat - 48 else if b ≤ 70 then b.toNat - 55 else b.toNat - 87

/-- The number that four hexadecimal digits write. -/
def hexUnit (a b c d : UInt8) : Nat :=
  ((hexValue a * 16 + hexValue b) * 16 + hexValue c) * 16 + hexValue d

/-- The character a one-letter escape stands for. -/
def escaped? (letter : UInt8) : Option UInt8 :=
  if letter = 98 then some 8
  else if letter = 102 then some 12
  else if letter = 110 then some 10
  else if letter = 114 then some 13
  else if letter = 116 then some 9
  else if letter = 34 || letter = 92 || letter = 47 then some letter
  else none

/-- A string body with its escapes resolved. -/
def unescape : Bytes → Option Bytes
  | [] => some []
  | 92 :: 117 :: a :: b :: c :: d :: rest =>
      let unit := hexUnit a b c d
      if unit < 0xD800 || 0xDFFF < unit then
        (unescape rest).map (String.utf8EncodeChar (Char.ofNat unit) ++ ·)
      else if 0xDC00 ≤ unit then none
      else match rest with
        | 92 :: 117 :: e :: f :: g :: h :: rest =>
            let low := hexUnit e f g h
            if low < 0xDC00 || 0xDFFF < low then none
            else
              let code := 0x10000 + (unit - 0xD800) * 0x400 + (low - 0xDC00)
              (unescape rest).map (String.utf8EncodeChar (Char.ofNat code) ++ ·)
        | _ => none
  | 92 :: letter :: rest => do
      let meant ← escaped? letter
      (unescape rest).map (meant :: ·)
  | b :: rest => (unescape rest).map (b :: ·)

/-- The text a string body stands for. -/
def bodyText? (body : Bytes) : Option String := (unescape body).bind Text.decode?

/-- The text of a string. -/
def text? : Json → Option String
  | .string body => bodyText? body
  | _ => none

/-- The natural number below a bound that a number writes. -/
def natBelow? (bound : Nat) : Json → Option Nat
  | .number numeral => numeral.nat?.filter (· < bound)
  | _ => none

/-- A number of 64 bits. -/
def word? : Json → Option Nat := natBelow? UInt64.size

/-- A truth value. -/
def bool? : Json → Option Bool
  | .bool found => some found
  | _ => none

/-- The items of an array, each read in the same way. -/
def list? {α : Type} (read : Json → Option α) : Json → Option (List α)
  | .array items => items.mapM read
  | _ => none

mutual

/-- How many arrays and objects stand inside one another. -/
def nesting : Json → Nat
  | .array items => 1 + nestingItems items
  | .object members => 1 + nestingMembers members
  | _ => 0

/-- The deepest nesting among items. -/
def nestingItems : List Json → Nat
  | [] => 0
  | item :: items => max (nesting item) (nestingItems items)

/-- The deepest nesting among members. -/
def nestingMembers : List (Bytes × Json) → Nat
  | [] => 0
  | (_, value) :: members => max (nesting value) (nestingMembers members)

end

mutual

/-- Every string and every number in the value has a meaning. -/
def isMeaningful : Json → Bool
  | .string body => (bodyText? body).isSome
  | .number numeral => numeral.isFinite
  | .array items => allMeaningful items
  | .object members => membersMeaningful members
  | _ => true

/-- Every item is meaningful. -/
def allMeaningful : List Json → Bool
  | [] => true
  | item :: items => isMeaningful item && allMeaningful items

/-- Every key and every value is meaningful. -/
def membersMeaningful : List (Bytes × Json) → Bool
  | [] => true
  | (key, value) :: members =>
      (bodyText? key).isSome && isMeaningful value && membersMeaningful members

end

/-- How deep arrays and objects may be nested in a value that is read. -/
def maxNesting : Nat := 127

/-- The value is meaningful throughout and fits into the room that is left for nesting. -/
def fits (room : Nat) (value : Json) : Bool := nesting value ≤ room && isMeaningful value

/-- The members of an object under their names. -/
def named? (members : List (Bytes × Json)) : Option (List (String × Json)) :=
  members.mapM fun (key, value) => (bodyText? key).map (·, value)

/-- The value under a name that occurs at most once. -/
def member? (members : List (String × Json)) (name : String) : Option (Option Json) :=
  match members.filter (·.1 = name) with
  | [] => some none
  | [(_, value)] => some (some value)
  | _ => none

/-- The fields of a record, in the order of their names; a missing field is `none`. -/
def fields? (names : List String) : Json → Option (List (Option Json))
  | .object members => do
      let members ← named? members
      names.mapM (member? members)
  | .array items =>
      if items.length ≤ names.length then
        some (items.map some ++ List.replicate (names.length - items.length) none)
      else none
  | _ => none

/-- The fields of a record none of which may be missing. -/
def allFields? (names : List String) (value : Json) : Option (List Json) := do
  (← fields? names value).mapM id

/-- The tag of a tagged record and the value that holds its fields. -/
def tagged? (room : Nat) (value : Json) : Option (String × Json) :=
  if fits room value then
    match value with
    | .object members => do
        let tag ← member? (← named? members) "type"
        some (← (← tag).text?, value)
    | .array (tag :: items) => do some (← tag.text?, .array items)
    | _ => none
  else none

/-- The fields of a tagged record that has none: any object, or an empty array. -/
def noFields? : Json → Option Unit
  | .object _ => some ()
  | .array [] => some ()
  | _ => none

/-- The name of a choice without further content. -/
def choice? : Json → Option String
  | .string body => bodyText? body
  | .object [(key, .null)] => bodyText? key
  | _ => none

end Json
end DurableRuns
