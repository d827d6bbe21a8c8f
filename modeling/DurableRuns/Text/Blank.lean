/-
# DurableRuns.Text.Blank -- blanks around a text

The characters Unicode lists as `White_Space`, and a text without the blanks at its ends.
Settings typed by a person and times read from a file are both lenient about such blanks.
-/
namespace DurableRuns.Text

set_option autoImplicit false

/-- The Unicode property `White_Space`. -/
def isBlank (c : Char) : Bool :=
  (0x09 ≤ c.val && c.val ≤ 0x0D) || c.val == 0x20 || c.val == 0x85 || c.val == 0xA0 ||
    c.val == 0x1680 || (0x2000 ≤ c.val && c.val ≤ 0x200A) || c.val == 0x2028 ||
    c.val == 0x2029 || c.val == 0x202F || c.val == 0x205F || c.val == 0x3000

/-- The text from its first character that is no blank. -/
def trimStart (cs : List Char) : List Char := cs.dropWhile isBlank

/-- The text between its first and its last character that are no blanks. -/
def trim (cs : List Char) : List Char := (trimStart (trimStart cs).reverse).reverse

end DurableRuns.Text
