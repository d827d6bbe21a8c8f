/-
# DurableRuns.Proofs.Json.Strings -- a text inside quotes is read back

`Json.escape` writes a text as the body of a string.  The reader of a body stops exactly at
the closing quote (`stringBody_escape`), and resolving the escapes gives the text back
(`bodyText?_escape`).

Both go character by character.  A character is written in one of three ways: as a short
escape, as a numbered escape of a control character, or as its UTF-8 form, whose bytes are
never a quote, a backslash or a control byte (`IsPlain`).
-/
import DurableRuns.Json.Parser
import DurableRuns.Json.Reading

namespace DurableRuns.Json

set_option autoImplicit false

/-- A byte that stands for itself inside quotes. -/
def IsPlain (b : UInt8) : Prop := 32 ≤ b ∧ b ≠ 34 ∧ b ≠ 92

theorem isPlain_of_le {b : UInt8} (high : 128 ≤ b) : IsPlain b := by
  have bound : 128 ≤ b.toNat := UInt8.le_iff_toNat_le.1 high
  refine ⟨?_, ?_, ?_⟩
  · exact UInt8.le_iff_toNat_le.2 (by simp; omega)
  · rintro rfl; simp at bound
  · rintro rfl; simp at bound

/-- The bytes of a character beyond ASCII are plain, and so is an ASCII character that needs
no escape. -/
theorem isPlain_utf8EncodeChar {c : Char} (noQuote : c ≠ '"') (noBackslash : c ≠ '\\')
    (noControl : 32 ≤ c.toNat) : ∀ b ∈ String.utf8EncodeChar c, IsPlain b := by
  have ofCode (n : Nat) (same : c.toNat = n) : c = Char.ofNat n := by
    rw [← same, Char.ofNat_toNat]
  intro b member
  unfold String.utf8EncodeChar at member
  simp only at member
  change 32 ≤ c.val.toNat at noControl
  split at member
  next ascii =>
    simp only [List.mem_singleton] at member
    subst member
    have value : (UInt8.ofNat c.val.toNat).toNat = c.val.toNat := by
      simp only [UInt8.toNat_ofNat']; omega
    refine ⟨UInt8.le_iff_toNat_le.2 (by rw [value]; exact noControl), ?_, ?_⟩
    · intro quote
      have code : c.toNat = 34 := by
        change c.val.toNat = 34
        rw [← value, quote]; rfl
      exact noQuote (ofCode 34 code)
    · intro backslash
      have code : c.toNat = 92 := by
        change c.val.toNat = 92
        rw [← value, backslash]; rfl
      exact noBackslash (ofCode 92 code)
  next =>
    -- Beyond ASCII all bytes of a character have their highest bit set.
    apply isPlain_of_le
    rw [UInt8.le_iff_toNat_le]
    split at member
    · simp only [List.mem_cons, List.not_mem_nil, or_false] at member
      rcases member with rfl | rfl <;> simp only [UInt8.toNat_ofNat'] <;> simp <;> omega
    · split at member
      · simp only [List.mem_cons, List.not_mem_nil, or_false] at member
        rcases member with rfl | rfl | rfl <;> simp only [UInt8.toNat_ofNat'] <;> simp <;> omega
      · simp only [List.mem_cons, List.not_mem_nil, or_false] at member
        rcases member with rfl | rfl | rfl | rfl <;> simp only [UInt8.toNat_ofNat'] <;>
          simp <;> omega

/-! ## The end of a string -/

theorem stringBody_plain {b : UInt8} (plain : IsPlain b) (rest : Bytes) :
    stringBody (b :: rest) = (stringBody rest).map fun found => (b :: found.1, found.2) := by
  obtain ⟨high, noQuote, noBackslash⟩ := plain
  have noControl : ¬ b < 32 := by simpa using high
  rw [stringBody]
  · simp [noControl, noBackslash]
  · exact fun same => noQuote same
  · exact fun _ _ _ _ _ same _ => noBackslash same
  · exact fun _ _ same _ => noBackslash same

theorem stringBody_plainBytes {bytes : Bytes} (plain : ∀ b ∈ bytes, IsPlain b) (rest : Bytes) :
    stringBody (bytes ++ rest) =
      (stringBody rest).map fun found => (bytes ++ found.1, found.2) := by
  induction bytes with
  | nil => simp
  | cons b bytes ih =>
      have later : ∀ b ∈ bytes, IsPlain b := fun b member => plain b (List.mem_cons_of_mem _ member)
      rw [List.cons_append, stringBody_plain (plain b List.mem_cons_self), ih later]
      cases stringBody rest <;> rfl

theorem stringBody_shortEscape {letter : UInt8}
    (known : letter ∈ [(34 : UInt8), 92, 47, 98, 102, 110, 114, 116]) (rest : Bytes) :
    stringBody (92 :: letter :: rest) =
      (stringBody rest).map fun found => (92 :: letter :: found.1, found.2) := by
  have notNumbered : letter ≠ 117 := by
    rintro rfl
    simp at known
  rw [stringBody]
  · rw [if_pos known]
  · exact fun _ _ _ _ _ same => absurd same notNumbered

theorem isHex_hexDigit : ∀ n < 16, isHex (hexDigit n) = true := by decide

theorem stringBody_controlEscape {high low : Nat} (highSmall : high < 16) (lowSmall : low < 16)
    (rest : Bytes) :
    stringBody (92 :: 117 :: 48 :: 48 :: hexDigit high :: hexDigit low :: rest) =
      (stringBody rest).map fun found =>
        (92 :: 117 :: 48 :: 48 :: hexDigit high :: hexDigit low :: found.1, found.2) := by
  have zero : isHex 48 = true := by decide
  rw [stringBody]
  simp [zero, isHex_hexDigit high highSmall, isHex_hexDigit low lowSmall]

/-- The reader of a body passes over a character as it is written. -/
theorem stringBody_escapeChar (c : Char) (rest : Bytes) :
    stringBody (escapeChar c ++ rest) =
      (stringBody rest).map fun found => (escapeChar c ++ found.1, found.2) := by
  unfold escapeChar
  split
  · exact stringBody_shortEscape (by decide) rest
  next noQuote =>
    split
    · exact stringBody_shortEscape (by decide) rest
    next noBackslash =>
      split
      · exact stringBody_shortEscape (by decide) rest
      · split
        · exact stringBody_shortEscape (by decide) rest
        · split
          · exact stringBody_shortEscape (by decide) rest
          · split
            · exact stringBody_shortEscape (by decide) rest
            · split
              · exact stringBody_shortEscape (by decide) rest
              · split
                next control =>
                  exact stringBody_controlEscape (by omega) (by omega) rest
                next notControl =>
                  exact stringBody_plainBytes
                    (isPlain_utf8EncodeChar noQuote noBackslash (by omega)) rest

/-- The body of a written text ends at its closing quote. -/
theorem stringBody_escape (s : String) (rest : Bytes) :
    stringBody (escape s ++ 34 :: rest) = some (escape s, rest) := by
  unfold escape
  induction s.toList with
  | nil => rw [List.flatMap_nil, List.nil_append, stringBody]
  | cons c cs ih =>
      rw [List.flatMap_cons, List.append_assoc, stringBody_escapeChar, ih]
      rfl

/-! ## The meaning of a body -/

theorem unescape_plain {b : UInt8} (plain : IsPlain b) (rest : Bytes) :
    unescape (b :: rest) = (unescape rest).map (b :: ·) := by
  rw [unescape]
  · exact fun _ _ _ _ _ same _ => plain.2.2 same
  · exact fun _ _ same _ => plain.2.2 same

theorem unescape_plainBytes {bytes : Bytes} (plain : ∀ b ∈ bytes, IsPlain b) (rest : Bytes) :
    unescape (bytes ++ rest) = (unescape rest).map (bytes ++ ·) := by
  induction bytes with
  | nil => simp
  | cons b bytes ih =>
      have later : ∀ b ∈ bytes, IsPlain b := fun b member => plain b (List.mem_cons_of_mem _ member)
      rw [List.cons_append, unescape_plain (plain b List.mem_cons_self), ih later]
      cases unescape rest <;> rfl

theorem unescape_shortEscape {letter meant : UInt8} (notNumbered : letter ≠ 117)
    (known : escaped? letter = some meant) (rest : Bytes) :
    unescape (92 :: letter :: rest) = (unescape rest).map (meant :: ·) := by
  rw [unescape]
  · rw [known]; rfl
  · exact fun _ _ _ _ _ same => absurd same notNumbered

theorem hexUnit_control : ∀ code < 32,
    hexUnit 48 48 (hexDigit (code / 16)) (hexDigit (code % 16)) = code := by decide

theorem unescape_controlEscape {c : Char} (control : c.toNat < 32) (rest : Bytes) :
    unescape (92 :: 117 :: 48 :: 48 :: hexDigit (c.toNat / 16) :: hexDigit (c.toNat % 16) :: rest) =
      (unescape rest).map (String.utf8EncodeChar c ++ ·) := by
  have value := hexUnit_control c.toNat control
  have noSurrogate : (decide (c.toNat < 0xD800) || decide (0xDFFF < c.toNat)) = true := by
    simp; omega
  rw [unescape.eq_def]
  simp only [value]
  rw [if_pos noSurrogate, Char.ofNat_toNat]

/-- A character as it is written means its UTF-8 form. -/
theorem unescape_escapeChar (c : Char) (rest : Bytes) :
    unescape (escapeChar c ++ rest) =
      (unescape rest).map (String.utf8EncodeChar c ++ ·) := by
  have ofCode (n : Nat) (same : c.toNat = n) : c = Char.ofNat n := by
    rw [← same, Char.ofNat_toNat]
  unfold escapeChar
  split
  next same => subst same; exact unescape_shortEscape (by decide) (by decide) rest
  next noQuote =>
    split
    next same => subst same; exact unescape_shortEscape (by decide) (by decide) rest
    next noBackslash =>
      split
      next same => subst same; exact unescape_shortEscape (by decide) (by decide) rest
      · split
        next same => subst same; exact unescape_shortEscape (by decide) (by decide) rest
        · split
          next same => subst same; exact unescape_shortEscape (by decide) (by decide) rest
          · split
            next same =>
              rw [ofCode 8 same]
              exact unescape_shortEscape (by decide) (by decide) rest
            · split
              next same =>
                rw [ofCode 12 same]
                exact unescape_shortEscape (by decide) (by decide) rest
              · split
                next control => exact unescape_controlEscape control rest
                next notControl =>
                  exact unescape_plainBytes
                    (isPlain_utf8EncodeChar noQuote noBackslash (by omega)) rest

theorem unescape_escape (s : String) :
    unescape (escape s) = some (s.toList.flatMap String.utf8EncodeChar) := by
  unfold escape
  induction s.toList with
  | nil => rw [List.flatMap_nil, unescape]; rfl
  | cons c cs ih =>
      rw [List.flatMap_cons, unescape_escapeChar, ih]
      rfl

theorem encode_eq_flatMap (s : String) :
    Text.encode s = s.toList.flatMap String.utf8EncodeChar := by
  have whole : s.toUTF8 = s.toList.utf8Encode := by
    rw [String.utf8Encode_toList]
    rfl
  unfold Text.encode
  rw [whole, List.utf8Encode]
  simp

/-- A text written inside quotes is read back. -/
theorem bodyText?_escape (s : String) : bodyText? (escape s) = some s := by
  rw [bodyText?, unescape_escape, ← encode_eq_flatMap]
  exact Text.decode?_encode s

end DurableRuns.Json
