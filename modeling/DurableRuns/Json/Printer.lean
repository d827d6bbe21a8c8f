/-
# DurableRuns.Json.Printer -- the two written forms of a JSON value

`Json.compact` writes a value without any blank.  `Json.pretty` writes one item per line,
each level indented by two spaces; an empty array or object stays on its line.
-/
import DurableRuns.Json.Value

namespace DurableRuns

set_option autoImplicit false

/-- The numeral as it stands in a file. -/
def Numeral.print (n : Numeral) : Bytes :=
  (if n.negative then [45] else []) ++ n.whole ++
    (match n.fraction with
      | none => []
      | some digits => 46 :: digits) ++
    (match n.exponent with
      | none => []
      | some (minus, digits) => 101 :: (if minus then 45 :: digits else digits))

namespace Json

/-- A string body between its quotes. -/
def quoted (body : Bytes) : Bytes := 34 :: body ++ [34]

mutual

/-- A value without any blank. -/
def compact : Json → Bytes
  | .null => ascii "null"
  | .bool true => ascii "true"
  | .bool false => ascii "false"
  | .number numeral => numeral.print
  | .string body => quoted body
  | .array [] => [91, 93]
  | .array (item :: items) => 91 :: compact item ++ compactItems items
  | .object [] => [123, 125]
  | .object ((key, value) :: members) =>
      123 :: quoted key ++ 58 :: compact value ++ compactMembers members

/-- The further items of an array, and its end. -/
def compactItems : List Json → Bytes
  | [] => [93]
  | item :: items => 44 :: compact item ++ compactItems items

/-- The further members of an object, and its end. -/
def compactMembers : List (Bytes × Json) → Bytes
  | [] => [125]
  | (key, value) :: members =>
      44 :: quoted key ++ 58 :: compact value ++ compactMembers members

end

/-- A new line, indented for a level. -/
def newline (level : Nat) : Bytes := 10 :: List.replicate (2 * level) 32

mutual

/-- A value that stands at a level, one item per line. -/
def prettyAt (level : Nat) : Json → Bytes
  | .array (item :: items) =>
      91 :: newline (level + 1) ++ prettyAt (level + 1) item ++ prettyItems level items
  | .object ((key, value) :: members) =>
      123 :: newline (level + 1) ++ quoted key ++ 58 :: 32 :: prettyAt (level + 1) value ++
        prettyMembers level members
  | .array [] => [91, 93]
  | .object [] => [123, 125]
  | .null => ascii "null"
  | .bool true => ascii "true"
  | .bool false => ascii "false"
  | .number numeral => numeral.print
  | .string body => quoted body

/-- The further items of an array at a level, and its end. -/
def prettyItems (level : Nat) : List Json → Bytes
  | [] => newline level ++ [93]
  | item :: items =>
      44 :: newline (level + 1) ++ prettyAt (level + 1) item ++ prettyItems level items

/-- The further members of an object at a level, and its end. -/
def prettyMembers (level : Nat) : List (Bytes × Json) → Bytes
  | [] => newline level ++ [125]
  | (key, value) :: members =>
      44 :: newline (level + 1) ++ quoted key ++ 58 :: 32 :: prettyAt (level + 1) value ++
        prettyMembers level members

end

/-- A value with one item per line. -/
def pretty (value : Json) : Bytes := prettyAt 0 value

end Json
end DurableRuns
