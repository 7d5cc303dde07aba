import ScriptFront.Token.Scan

/-!
# Which classes of characters exclude each other

A token is told by its first character, and it ends where a character does not continue it.  That a
blank ends every token rests on the tables: no code point is both blank and alphanumeric.  That the
first character leaves no choice rests on words, numbers, marks and quotes starting differently.

**Results.**

* `Text.inRanges_eq_false_of_apart`: tables that lie apart have no code point in common.
* `Text.isAlphanumeric_of_isBlank`: no blank is alphanumeric.
* `Token.classes_of_ofChar?`, `Token.isWordStart_of_isDigit`: what starts no word.
* `Token.scan_of_ofChar?`, `Token.scan_of_isWordStart`, `Token.scan_of_isDigit`: what the first
  character tells.
-/

namespace ScriptFront
namespace Text

/-- No range of one table meets a range of the other. -/
def RangesApart (table other : List (Nat × Nat)) : Prop :=
  ∀ range ∈ table, ∀ range' ∈ other, range.2 < range'.1 ∨ range'.2 < range.1

instance (table other : List (Nat × Nat)) : Decidable (RangesApart table other) :=
  inferInstanceAs (Decidable (∀ range ∈ table, ∀ range' ∈ other, _ ∨ _))

theorem inRanges_eq_false_of_apart {table other : List (Nat × Nat)} {code : Nat}
    (hapart : RangesApart table other) (h : inRanges table code = true) :
    inRanges other code = false := by
  rw [Bool.eq_false_iff]
  intro hother
  obtain ⟨range, hrange, hle, hge⟩ := inRanges_iff.mp h
  obtain ⟨range', hrange', hle', hge'⟩ := inRanges_iff.mp hother
  rcases hapart range hrange range' hrange' with hlt | hlt <;> omega

/-- The ASCII letters. -/
def asciiLetterRanges : List (Nat × Nat) :=
  [(0x41, 0x5A), (0x61, 0x7A)]

/-- The ASCII digits. -/
def asciiDigitRanges : List (Nat × Nat) :=
  [(0x30, 0x39)]

theorem isAlpha_eq (c : Char) : c.isAlpha = inRanges asciiLetterRanges c.toNat := by
  rw [Bool.eq_iff_iff]
  unfold Char.isAlpha Char.isUpper Char.isLower
  simp [inRanges, asciiLetterRanges, UInt32.le_iff_toNat_le]

theorem isDigit_eq (c : Char) : isDigit c = inRanges asciiDigitRanges c.toNat := by
  rw [Bool.eq_iff_iff]
  simp [isDigit, Char.isDigit, inRanges, asciiDigitRanges, UInt32.le_iff_toNat_le]

variable {c : Char}

/-- The table of blanks lies apart from those of letters and numerals. -/
theorem isAlphanumeric_of_isBlank (h : isBlank c = true) : isAlphanumeric c = false := by
  have hascii : RangesApart blankRanges asciiLetterRanges := by decide
  have hdigits : RangesApart blankRanges asciiDigitRanges := by decide
  have hletters : RangesApart blankRanges letterRanges := by decide +kernel
  have hnumerics : RangesApart blankRanges numericRanges := by decide +kernel
  have hapart {other : List (Nat × Nat)} (hother : RangesApart blankRanges other) :
      inRanges other c.toNat = false :=
    inRanges_eq_false_of_apart hother h
  rw [isAlphanumeric, isLetter, isAlpha_eq, isDigit_eq, hapart hascii, hapart hdigits,
    hapart hletters, hapart hnumerics]
  simp

theorem isDigit_of_isBlank (h : isBlank c = true) : isDigit c = false := by
  rw [Bool.eq_false_iff]
  intro hdigit
  have halphanumeric := isAlphanumeric_of_isDigit hdigit
  rw [isAlphanumeric_of_isBlank h] at halphanumeric
  cases halphanumeric

theorem isBlank_of_isDigit (h : isDigit c = true) : isBlank c = false := by
  rw [Bool.eq_false_iff]
  intro hblank
  rw [isDigit_of_isBlank hblank] at h
  cases h

end Text

namespace Token

variable {c d : Char} {k : TokenKind}

/-- A blank ends a word. -/
theorem isWordChar_of_isBlank (h : Text.isBlank c = true) : isWordChar c = false := by
  have hne : c ≠ '_' := by
    rintro rfl
    revert h
    decide
  simp [isWordChar, Text.isAlphanumeric_of_isBlank h, hne]

theorem isWordChar_of_isWordStart (h : isWordStart c = true) : isWordChar c = true := by
  simp only [isWordStart, isWordChar, Bool.or_eq_true] at h ⊢
  rcases h with hletter | hline
  · exact .inl (Text.isAlphanumeric_of_isLetter hletter)
  · exact .inr hline

theorem isBlank_of_isWordStart (h : isWordStart c = true) : Text.isBlank c = false := by
  rw [Bool.eq_false_iff]
  intro hblank
  have hword := isWordChar_of_isWordStart h
  rw [isWordChar_of_isBlank hblank] at hword
  cases hword

/-- The characters that are marks of their own. -/
def marks : List Char :=
  ['(', ')', '\x7b', '\x7d', ':', ';', ',', '.', '+', '-', '*', '/', '=', '<', '>', '!']

theorem mem_marks (h : TokenKind.ofChar? c = some k) : c ∈ marks := by
  unfold TokenKind.ofChar? at h
  split at h <;> first | decide | cases h

/-- A mark is in none of the other classes. -/
theorem classes_of_ofChar? (h : TokenKind.ofChar? c = some k) :
    Text.isBlank c = false ∧ isWordStart c = false ∧ Text.isDigit c = false ∧
      c ≠ '\x22' ∧ c ≠ '\x27' := by
  have hall : marks.all (fun m => !Text.isBlank m && !isWordStart m && !Text.isDigit m &&
      m != '\x22' && m != '\x27') = true := by
    decide
  have hc := List.all_eq_true.mp hall c (mem_marks h)
  simpa [and_assoc] using hc

/-- A digit starts no word. -/
theorem isWordStart_of_isDigit (h : Text.isDigit c = true) : isWordStart c = false := by
  have hapart : Text.RangesApart Text.asciiDigitRanges Text.asciiLetterRanges := by decide
  have hne : c ≠ '_' := by
    rintro rfl
    revert h
    decide
  rw [Text.isDigit_eq] at h
  have hascii : c.toNat < 0x80 := by
    obtain ⟨range, hrange, hle, hge⟩ := Text.inRanges_iff.mp h
    obtain rfl := List.mem_singleton.mp hrange
    omega
  have hletter : Text.isLetter c = false := by
    rw [Text.isLetter, Text.isAlpha_eq, Text.inRanges_eq_false_of_apart hapart h]
    simp
    omega
  simp [isWordStart, hletter, hne]

/-- No mark of two characters ends with a blank. -/
theorem ofPair?_of_isBlank (h : Text.isBlank d = true) : TokenKind.ofPair? c d = none := by
  unfold TokenKind.ofPair?
  split <;> first | rfl | (revert h; decide)

/-- A quote starts neither a word nor a number. -/
theorem ne_quotes_of_class (h : isWordStart c = true ∨ Text.isDigit c = true) :
    c ≠ '\x22' ∧ c ≠ '\x27' ∧ c ≠ '/' := by
  refine ⟨?_, ?_, ?_⟩ <;>
  · rintro rfl
    revert h
    decide

theorem ofChar?_of_class (h : isWordStart c = true ∨ Text.isDigit c = true) :
    TokenKind.ofChar? c = none := by
  cases hk : TokenKind.ofChar? c with
  | none => rfl
  | some k =>
    obtain ⟨_, hword, hdigit, _⟩ := classes_of_ofChar? hk
    rw [hword, hdigit] at h
    simp at h

section Dispatch

variable {cs : List Char}

/-- A mark is told by its first character. -/
theorem scan_of_ofChar? (h : TokenKind.ofChar? c = some k) : scan c cs = scanMark k c cs := by
  obtain ⟨_, _, _, hquote, hapostrophe⟩ := classes_of_ofChar? h
  rw [scan, if_neg hquote, if_neg hapostrophe, h]

/-- A word is told by its first character. -/
theorem scan_of_isWordStart (h : isWordStart c = true) : scan c cs = scanWord c cs := by
  obtain ⟨hquote, hapostrophe, _⟩ := ne_quotes_of_class (.inl h)
  rw [scan, if_neg hquote, if_neg hapostrophe, ofChar?_of_class (.inl h)]
  exact if_pos h

/-- A number is told by its first character. -/
theorem scan_of_isDigit (h : Text.isDigit c = true) : scan c cs = scanNumber c cs := by
  obtain ⟨hquote, hapostrophe, _⟩ := ne_quotes_of_class (.inr h)
  have hword : ¬ isWordStart c = true := Bool.eq_false_iff.mp (isWordStart_of_isDigit h)
  rw [scan, if_neg hquote, if_neg hapostrophe, ofChar?_of_class (.inr h)]
  simp only [if_neg hword, if_pos h]

end Dispatch

end Token
end ScriptFront
