/-
# DurableRuns.Text.Utf8 -- text and the bytes it is stored as

A file holds bytes; a name or a message is text.  `Text.encode` is the UTF-8 form of a
text, and `Text.decode?` reads it back, refusing every byte string that is not the UTF-8
form of some text (overlong forms and surrogates included).

Main statement: `Text.decode?_encode`, what was encoded is read back unchanged.
-/
namespace DurableRuns

set_option autoImplicit false

/-- The content of a file, byte by byte. -/
abbrev Bytes := List UInt8

namespace Text

/-- The UTF-8 form of a text. -/
def encode (s : String) : Bytes := s.toUTF8.data.toList

/-- The text whose UTF-8 form is given, if there is one. -/
def decode? (bytes : Bytes) : Option String := String.fromUTF8? ⟨bytes.toArray⟩

theorem decode?_encode (s : String) : decode? (encode s) = some s := by
  have whole : (⟨s.toUTF8.data.toList.toArray⟩ : ByteArray) = s.toUTF8 := by simp
  unfold decode? encode
  rw [whole]
  exact dif_pos s.isValidUTF8

end Text
end DurableRuns
