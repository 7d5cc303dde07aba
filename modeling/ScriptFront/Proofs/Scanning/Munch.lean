import ScriptFront.Proofs.Scanning.Characters
import ScriptFront.Proofs.Scanning.Spans

/-!
# Tokens are as long as they can be

A token ends where the next character cannot belong to it.  A word takes in all letters, numerals
and underscores, so that a keyword inside of a longer word is none.  A number takes in all digits,
and one point unless two points follow each other, since these are a range.  A mark of one character
stands in front of a character with which it does not form one of two.

**Algorithm.** Each token has a shape, by its kind and literal type, and each shape an end
(`Token.Maximal`).  The first character decides which of the scanners reads a token, so there is one
lemma for each scanner.

**Results.**

* `Token.maximal_scan`: a token that is scanned goes on for as long as it can.
* `Token.Maximal.range_free`: no number takes in a point of a range.
* `tokenize_maximal`: the tokens of a text, each with what follows it.
-/

namespace ScriptFront
namespace Token

/-- What decides where a token ends. -/
inductive Shape where
  | word
  | number
  | float
  | quoted
  | mark
  | wideMark
  | unknown
deriving DecidableEq

/-- The shape of the tokens of a kind; that of a literal is decided by its type. -/
def shapeOf (lit : LiteralType) : TokenKind → Shape
  | .leftParen | .rightParen | .leftBrace | .rightBrace | .colon | .semicolon | .comma | .dot
  | .plus | .minus | .multiply | .divide | .assign | .lessThan | .greaterThan | .not => .mark
  | .doubleColon | .range | .equal | .notEqual | .lessEqual | .greaterEqual | .increment
  | .decrement => .wideMark
  | .letWord | .procWord | .structWord | .implWord | .ifWord | .whileWord | .forWord | .inWord
  | .returnWord | .identifier => .word
  | .literal =>
    match lit with
    | .bool => .word
    | .number => .number
    | .float => .float
    | .none | .char | .string => .quoted
  | .invalid => .unknown

/-- The shape of a token: a keyword, an identifier and a truth value are words. -/
def shape (t : Token) : Shape :=
  shapeOf t.lit t.kind

/-- A word, and nothing behind it that would continue it.  It is a keyword or a truth value exactly
if all of it is the spelling of one. -/
structure MaximalWord (k : TokenKind) (text behind : List Char) : Prop where
  stops : ∀ c ∈ behind.head?, Text.isAlphanumeric c = false ∧ c ≠ '_'
  keyword : ∀ word : TokenKind, word ≠ .identifier → word ≠ .literal →
    (k = word ↔ TokenKind.keyword? (String.ofList text) = some word)
  bool : k = .literal ↔ String.ofList text = "true" ∨ String.ofList text = "false"

/-- Digits, and nothing behind them that would continue the number: neither a digit nor a point
that is not the first one of a range. -/
structure MaximalNumber (text behind : List Char) : Prop where
  ne_nil : text ≠ []
  digits : ∀ d ∈ text, Text.isDigit d = true
  stops : ∀ d ∈ behind.head?, Text.isDigit d = false
  point : behind.head? = some '.' → behind[1]? = some '.'

/-- Digits, a point that is not the first one of a range, and all the digits behind it. -/
structure MaximalFloat (whole fraction behind : List Char) : Prop where
  ne_nil : whole ≠ []
  digits : ∀ d ∈ whole ++ fraction, Text.isDigit d = true
  point : (fraction ++ behind).head? ≠ some '.'
  stops : ∀ d ∈ behind.head?, Text.isDigit d = false

/-- A mark of one character, and behind it nothing with which it would be a mark of two or the
start of a comment. -/
structure MaximalMark (k : TokenKind) (c : Char) (behind : List Char) : Prop where
  kind : TokenKind.ofChar? c = some k
  stops : ∀ d ∈ behind.head?, TokenKind.ofPair? c d = none
  slash : k = .divide → behind.head? ≠ some '/'

/-- A token goes on for as long as it can, given the characters that it covers and those behind. -/
def Maximal (t : Token) (text behind : List Char) : Prop :=
  match t.shape with
  | .word => MaximalWord t.kind text behind
  | .number => MaximalNumber text behind
  | .float => ∃ whole fraction, text = whole ++ '.' :: fraction ∧
      MaximalFloat whole fraction behind
  | .mark => ∃ c, text = [c] ∧ MaximalMark t.kind c behind
  | .wideMark => ∃ c d, text = [c, d] ∧ TokenKind.ofPair? c d = some t.kind
  | .quoted | .unknown => True

section Shapes

variable {k : TokenKind} {c d : Char} {word : String}

theorem shapeOf_of_ofChar? (lit : LiteralType) (h : TokenKind.ofChar? c = some k) :
    shapeOf lit k = .mark := by
  unfold TokenKind.ofChar? at h
  split at h <;> cases h <;> rfl

theorem shapeOf_of_ofPair? (lit : LiteralType) (h : TokenKind.ofPair? c d = some k) :
    shapeOf lit k = .wideMark := by
  unfold TokenKind.ofPair? at h
  split at h <;> cases h <;> rfl

/-- A keyword is a word, and neither a literal nor a truth value. -/
theorem shapeOf_of_keyword? (lit : LiteralType) (h : TokenKind.keyword? word = some k) :
    shapeOf lit k = .word ∧ k ≠ .literal ∧ word ≠ "true" ∧ word ≠ "false" := by
  unfold TokenKind.keyword? at h
  split at h <;> cases h <;> exact ⟨rfl, by decide⟩

theorem eq_slash_of_ofChar? (h : TokenKind.ofChar? c = some .divide) : c = '/' := by
  unfold TokenKind.ofChar? at h
  split at h <;> first | rfl | cases h

end Shapes

section Scanning

variable {k : TokenKind} {c : Char} {cs : List Char} (p : Position)

/-- Which kind of word a word is. -/
theorem classifyWord_spec (word : String) :
    shapeOf (classifyWord word).2 (classifyWord word).1 = .word ∧
      (∀ k : TokenKind, k ≠ .identifier → k ≠ .literal →
        ((classifyWord word).1 = k ↔ TokenKind.keyword? word = some k)) ∧
      ((classifyWord word).1 = .literal ↔ word = "true" ∨ word = "false") := by
  unfold classifyWord
  cases hk : TokenKind.keyword? word with
  | some k =>
    obtain ⟨hshape, hliteral, htrue, hfalse⟩ := shapeOf_of_keyword? .none hk
    refine ⟨hshape, fun k' _ _ => Option.some_inj.symm, ?_⟩
    simp [hliteral, htrue, hfalse]
  | none =>
    by_cases hbool : word = "true" ∨ word = "false"
    · simp only [if_pos hbool]
      refine ⟨rfl, fun k _ hliteral => ?_, iff_of_true trivial hbool⟩
      simp [hliteral.symm]
    · simp only [if_neg hbool]
      refine ⟨rfl, fun k hidentifier _ => ?_, iff_of_false (by decide) hbool⟩
      simp [hidentifier.symm]

theorem maximal_scanWord (c : Char) (cs : List Char) :
    Maximal ((scanWord c cs).token p) (scanWord c cs).span (scanWord c cs).rest := by
  obtain ⟨hshape, hkeyword, hbool⟩ :=
    classifyWord_spec (String.ofList (c :: cs.takeWhile isWordChar))
  have hstops : ∀ d ∈ (cs.dropWhile isWordChar).head?,
      Text.isAlphanumeric d = false ∧ d ≠ '_' := by
    intro d hd
    simpa [isWordChar] using head?_dropWhile hd
  have hword : ((scanWord c cs).token p).shape = .word := hshape
  unfold Maximal
  rw [hword]
  exact ⟨hstops, hkeyword, hbool⟩

theorem maximal_scanNumber (hc : Text.isDigit c = true) (cs : List Char) :
    Maximal ((scanNumber c cs).token p) (scanNumber c cs).span (scanNumber c cs).rest := by
  have hdigits : ∀ d ∈ c :: cs.takeWhile Text.isDigit, Text.isDigit d = true :=
    List.forall_mem_cons.mpr ⟨hc, fun d hd => List.mem_takeWhile_imp hd⟩
  have hstops : ∀ d ∈ (cs.dropWhile Text.isDigit).head?, Text.isDigit d = false :=
    fun d hd => head?_dropWhile hd
  unfold scanNumber
  simp only
  split
  · rename_i rest hrest
    split
    · rename_i hrange
      rw [hrest] at hstops
      have hsecond : rest[0]? = some '.' := by rwa [← List.head?_eq_getElem?]
      exact ⟨List.cons_ne_nil _ _, hdigits, hstops, fun _ => hsecond⟩
    · rename_i hrange
      refine ⟨c :: cs.takeWhile Text.isDigit, rest.takeWhile Text.isDigit, rfl,
        List.cons_ne_nil _ _, ?_, ?_, fun d hd => head?_dropWhile hd⟩
      · exact List.forall_mem_append.mpr ⟨hdigits, fun d hd => List.mem_takeWhile_imp hd⟩
      · show (rest.takeWhile Text.isDigit ++ rest.dropWhile Text.isDigit).head? ≠ _
        rwa [List.takeWhile_append_dropWhile]
  · rename_i hpoint
    refine ⟨List.cons_ne_nil _ _, hdigits, hstops, fun hhead => ?_⟩
    obtain ⟨rest, hrest⟩ := List.head?_eq_some_iff.mp hhead
    exact absurd hrest (hpoint rest)

theorem maximal_scanMark (hk : TokenKind.ofChar? c = some k) (h : StartsToken c cs) :
    Maximal ((scanMark k c cs).token p) (scanMark k c cs).span (scanMark k c cs).rest := by
  -- The mark alone, at the end of the text or in front of a character that does not complete it.
  have hnarrow (hstops : ∀ d ∈ cs.head?, TokenKind.ofPair? c d = none) :
      Maximal ((Scan.plain k .none [c] cs).token p) [c] cs := by
    unfold Maximal
    have hmark : ((Scan.plain k .none [c] cs).token p).shape = .mark := shapeOf_of_ofChar? .none hk
    rw [hmark]
    refine ⟨c, rfl, hk, hstops, fun hdivide hslash => h.2 ⟨?_, hslash⟩⟩
    obtain rfl : k = .divide := hdivide
    exact eq_slash_of_ofChar? hk
  cases cs with
  | nil => exact hnarrow fun d hd => by cases hd
  | cons d ds =>
    simp only [scanMark]
    split
    · rename_i wide hwide
      unfold Maximal
      have hmark : ((Scan.plain wide .none [c, d] ds).token p).shape = .wideMark :=
        shapeOf_of_ofPair? .none hwide
      rw [hmark]
      exact ⟨c, d, rfl, hwide⟩
    · rename_i hpair
      refine hnarrow fun e he => ?_
      obtain rfl : d = e := Option.some.inj he
      exact hpair

theorem shape_scanString (cs : List Char) : ((scanString cs).token p).shape = .quoted := by
  unfold scanString
  split <;> rfl

theorem shape_scanChar (cs : List Char) : ((scanChar cs).token p).shape = .quoted := by
  unfold scanChar
  repeat' split
  all_goals rfl

/-- Only the tokens of some shapes have to stop where they do. -/
theorem maximal_of_shape {t : Token} (h : t.shape = .quoted ∨ t.shape = .unknown)
    (text behind : List Char) : Maximal t text behind := by
  unfold Maximal
  obtain h | h := h <;> rw [h] <;> trivial

/-- A token that is scanned goes on for as long as it can. -/
theorem maximal_scan (h : StartsToken c cs) :
    Maximal ((scan c cs).token p) (scan c cs).span (scan c cs).rest := by
  unfold scan
  split
  · exact maximal_of_shape (.inl (shape_scanString p cs)) _ _
  · split
    · exact maximal_of_shape (.inl (shape_scanChar p cs)) _ _
    · split
      · rename_i k hk
        exact maximal_scanMark p hk h
      · split
        · exact maximal_scanWord p c cs
        · split
          · rename_i hdigit
            exact maximal_scanNumber p hdigit cs
          · exact maximal_of_shape (.inr rfl) _ _

end Scanning

section Ranges

variable {t : Token} {text behind : List Char}

theorem ne_point_of_digits {digits : List Char} (h : ∀ d ∈ digits, Text.isDigit d = true)
    (i : Nat) : digits[i]? ≠ some '.' := fun hi =>
  absurd (h '.' (List.mem_of_getElem? hi)) (by decide)

/-- No character of a number is the first one of two points. -/
theorem Maximal.point_of_lt (h : Maximal t text behind)
    (hshape : t.shape = .number ∨ t.shape = .float) {i : Nat} (hi : i < text.length)
    (hpoint : (text ++ behind)[i]? = some '.') : (text ++ behind)[i + 1]? ≠ some '.' := by
  unfold Maximal at h
  obtain hnumber | hfloat := hshape
  · rw [hnumber] at h
    rw [List.getElem?_append_left hi] at hpoint
    exact absurd hpoint (ne_point_of_digits h.digits i)
  · rw [hfloat] at h
    obtain ⟨whole, fraction, rfl, hmaximal⟩ := h
    obtain ⟨hwhole, hfraction⟩ := List.forall_mem_append.mp hmaximal.digits
    rw [List.getElem?_append_left hi] at hpoint
    obtain hlt | rfl | hgt := Nat.lt_trichotomy i whole.length
    · rw [List.getElem?_append_left hlt] at hpoint
      exact absurd hpoint (ne_point_of_digits hwhole i)
    · rw [List.append_assoc, List.getElem?_append_right (Nat.le_add_right _ 1),
        Nat.add_sub_cancel_left, List.cons_append, List.getElem?_cons_succ,
        ← List.head?_eq_getElem?]
      exact hmaximal.point
    · obtain ⟨n, rfl⟩ := Nat.exists_eq_add_of_lt hgt
      rw [List.getElem?_append_right hgt.le, Nat.add_assoc, Nat.add_sub_cancel_left,
        List.getElem?_cons_succ] at hpoint
      exact absurd hpoint (ne_point_of_digits hfraction n)

/-- A number starts with a digit. -/
theorem Maximal.head_ne_point (h : Maximal t text behind)
    (hshape : t.shape = .number ∨ t.shape = .float) : text[0]? ≠ some '.' := by
  unfold Maximal at h
  obtain hnumber | hfloat := hshape
  · rw [hnumber] at h
    exact ne_point_of_digits h.digits 0
  · rw [hfloat] at h
    obtain ⟨whole, fraction, rfl, hmaximal⟩ := h
    rw [List.getElem?_append_left (List.length_pos_iff.mpr hmaximal.ne_nil)]
    exact ne_point_of_digits (List.forall_mem_append.mp hmaximal.digits).1 0

/-- No number takes in a point of a range. -/
theorem Maximal.range_free {source front : List Char} (h : Maximal t text behind)
    (hshape : t.shape = .number ∨ t.shape = .float) (hsource : source = front ++ (text ++ behind))
    {i : Nat} (hfirst : source[i]? = some '.') (hsecond : source[i + 1]? = some '.') :
    let place : Span := ⟨front.length, front.length + text.length⟩
    place.holds i = false ∧ place.holds (i + 1) = false := by
  intro place
  have hat {n : Nat} : source[front.length + n]? = (text ++ behind)[n]? := by
    rw [hsource, List.getElem?_append_right (Nat.le_add_right _ _), Nat.add_sub_cancel_left]
  have houtside : i < front.length ∨ front.length + text.length ≤ i := by
    by_contra hinside
    push Not at hinside
    obtain ⟨n, rfl⟩ := Nat.exists_eq_add_of_le hinside.1
    rw [Nat.add_assoc, hat] at hsecond
    rw [hat] at hfirst
    exact h.point_of_lt hshape (by omega) hfirst hsecond
  have hnotFirst : ¬ (i + 1 = front.length ∧ 0 < text.length) := by
    rintro ⟨hi, hpos⟩
    rw [hi, ← Nat.add_zero front.length, hat, List.getElem?_append_left hpos] at hsecond
    exact h.head_ne_point hshape hsecond
  simp only [Span.holds, Bool.and_eq_false_iff, decide_eq_false_iff_not, place]
  omega

end Ranges

end Token

/--
Each token of a text goes on for as long as it can.

* A keyword, an identifier or a truth value is not followed by a letter, a numeral or an underscore,
  and it is a keyword or a truth value exactly if all of it spells one.
* An integer is a run of digits that is followed neither by a digit nor by a point, unless two
  points follow.
* A number with a point is a run of digits, a point that is not followed by a point, and another
  run of digits, which may be empty and is not followed by a digit.
* No character of two points that follow each other belongs to a number.
* A mark of one character does not form one of two with what follows it, and no slash follows
  the mark of a division.
-/
theorem tokenize_maximal (file : String) (source : List Char) :
    List.Forall₂ (fun t s =>
        Token.Maximal t (s.chars source) (source.drop s.stop) ∧
        (t.shape = .number ∨ t.shape = .float →
          ∀ i, source[i]? = some '.' → source[i + 1]? = some '.' →
            s.holds i = false ∧ s.holds (i + 1) = false))
      (tokenize file source) (Token.spans source) := by
  have hstart : source = [] ++ source := rfl
  refine Token.forall₂_tokens (fun front c ds p hspan hstarts => ?_) hstart {}
  have hmaximal := Token.maximal_scan p hstarts
  rw [Span.chars_of_append hspan rfl rfl, Token.drop_stop_of_append hspan]
  exact ⟨hmaximal, fun hshape i hfirst hsecond =>
    hmaximal.range_free hshape hspan hfirst hsecond⟩

/-- Two points behind a digit are a range, whether or not a point stands in front of the digit. -/
example : Token.spans "1.2..3 5...".toList =
    [⟨0, 3⟩, ⟨3, 5⟩, ⟨5, 6⟩, ⟨7, 8⟩, ⟨8, 10⟩, ⟨10, 11⟩] := by
  decide +kernel

end ScriptFront
