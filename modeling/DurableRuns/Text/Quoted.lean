/-
# DurableRuns.Text.Quoted -- texts shown between quotes

A text inside a report stands between double quotes, so that its ends can be seen.  Inside
the quotes the quote and the backslash follow a backslash, the usual controls have a letter,
and every other character without a shape of its own is shown as its number in braces.
-/
import DurableRuns.Text.Printable

namespace DurableRuns.Text

set_option autoImplicit false

/-- The lower-case hexadecimal digits of a number, without leading zeros. -/
def hexDigits (n : Nat) : List Char := Nat.toDigits 16 n

/-- How one character is shown inside quotes. -/
def quoteChar (c : Char) : List Char :=
  if c = '\x00' then ['\\', '0']
  else if c = '\t' then ['\\', 't']
  else if c = '\r' then ['\\', 'r']
  else if c = '\n' then ['\\', 'n']
  else if c = '\\' then ['\\', '\\']
  else if c = '"' then ['\\', '"']
  else if isPrintable c then [c]
  else ['\\', 'u', '\x7b'] ++ hexDigits c.toNat ++ ['\x7d']

/-- The text between quotes. -/
def quote (s : String) : String := String.ofList ('"' :: s.toList.flatMap quoteChar ++ ['"'])

end DurableRuns.Text
