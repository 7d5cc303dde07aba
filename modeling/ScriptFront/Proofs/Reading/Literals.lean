import ScriptFront.Token.Cursor

/-!
# Literals have the type of what is scanned

A token that is scanned as a literal has the type of its literal: a string, a character, a truth
value or a number.

**Results.**

* `Token.scanString_lit`, `Token.scanChar_lit`, `Token.classifyWord_lit`: the types of literals.
* `lit_ne_none_of_mem_tokenize`: every literal of a text has a type.
-/

namespace ScriptFront

namespace TokenKind

theorem keyword?_ne_literal (word : String) : keyword? word ≠ some .literal := by
  unfold keyword?
  split <;> simp

theorem ofChar?_ne_literal (c : Char) : ofChar? c ≠ some .literal := by
  unfold ofChar?
  split <;> simp

theorem ofPair?_ne_literal (c d : Char) : ofPair? c d ≠ some .literal := by
  unfold ofPair?
  split <;> simp

end TokenKind

namespace Token

theorem scanString_lit (cs : List Char) : (scanString cs).lit = .string := by
  unfold scanString
  split <;> rfl

theorem scanChar_lit (cs : List Char) : (scanChar cs).lit = .char := by
  unfold scanChar
  repeat' split
  all_goals rfl

theorem scanMark_lit (kind : TokenKind) (c : Char) (cs : List Char) :
    (scanMark kind c cs).lit = .none := by
  unfold scanMark
  repeat' split
  all_goals rfl

theorem scanMark_kind {k : TokenKind} (hk : k ≠ .literal) (c : Char) (cs : List Char) :
    (scanMark k c cs).kind ≠ .literal := by
  cases cs with
  | nil => exact hk
  | cons d ds =>
    unfold scanMark
    simp only
    cases hpair : TokenKind.ofPair? c d with
    | none => exact hk
    | some wide => exact fun hwide => TokenKind.ofPair?_ne_literal c d (hwide ▸ hpair)

theorem classifyWord_lit {word : String} (h : (classifyWord word).1 = .literal) :
    (classifyWord word).2 ≠ .none := by
  unfold classifyWord at h ⊢
  cases hk : TokenKind.keyword? word with
  | some k =>
    rw [hk] at h
    exact absurd (hk.trans (congrArg some h)) (TokenKind.keyword?_ne_literal word)
  | none =>
    rw [hk] at h
    simp only at h ⊢
    split at h
    · rename_i hword
      simp [hword]
    · cases h

/-- A literal has a type. -/
theorem lit_scan_ne_none {c : Char} {cs : List Char} (h : (scan c cs).kind = .literal) :
    (scan c cs).lit ≠ .none := by
  revert h
  unfold scan
  split
  · simp [scanString_lit]
  · split
    · simp [scanChar_lit]
    · split
      · rename_i k hk
        refine fun h => absurd h (scanMark_kind ?_ c cs)
        rintro rfl
        exact TokenKind.ofChar?_ne_literal c hk
      · split
        · exact classifyWord_lit
        · split
          · unfold scanNumber
            repeat' split
            all_goals simp [Scan.plain]
          · simp [Scan.plain]

end Token

theorem lit_ne_none_of_mem_tokenize {file : String} {source : List Char} {t : Token}
    (ht : t ∈ tokenize file source) : t.kind = .literal → t.lit ≠ .none := by
  obtain ⟨c, cs, pos, rfl⟩ := Cursor.exists_scan_of_mem_tokens ht
  exact Token.lit_scan_ne_none

end ScriptFront
