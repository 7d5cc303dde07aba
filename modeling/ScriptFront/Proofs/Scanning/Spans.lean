import ScriptFront.Proofs.Scanning.Gaps
import ScriptFront.Proofs.Scanning.Scans
import Mathlib.Data.List.Forall2
import Mathlib.Data.List.TakeWhile

/-!
# Where the tokens of a text stand

Each token covers a span of the text.  The spans follow each other, and what they leave free are
gaps, so that no character is lost and none is read twice.  A token is what it covers, but for
strings and character literals, which leave out their quotes.

**Results.**

* `Span.countP_holds`: each offset belongs to one span or to one gap.
* `Token.covers_scan`: what a token covers, in front of what follows it.
* `tokenize_lossless`: spans, gaps and tokens of a text.
-/

namespace ScriptFront

/-- A run of characters of a text: the offset of its first one, and the offset behind its last. -/
structure Span where
  start : Nat
  stop : Nat
deriving DecidableEq

namespace Span

/-- The characters of a text in a span. -/
def chars (s : Span) (source : List Char) : List Char :=
  (source.drop s.start).take (s.stop - s.start)

/-- The character at an offset lies in a span. -/
def holds (i : Nat) (s : Span) : Bool :=
  s.start ≤ i && i < s.stop

/-- Spans that follow each other from one offset to another, and none of which is empty. -/
def Successive (first : Nat) : List Span → Nat → Prop
  | [], last => first ≤ last
  | s :: spans, last => first ≤ s.start ∧ s.start < s.stop ∧ Successive s.stop spans last

/-- What spans leave free between one offset and another: in front of each, and behind the last. -/
def gaps (first : Nat) : List Span → Nat → List Span
  | [], last => [⟨first, last⟩]
  | s :: spans, last => ⟨first, s.start⟩ :: gaps s.stop spans last

section Offsets

variable {first last : Nat} {spans : List Span}

theorem Successive.le (h : Successive first spans last) : first ≤ last := by
  induction spans generalizing first with
  | nil => exact h
  | cons s spans ih =>
    obtain ⟨hstart, hstop, hrest⟩ := h
    have hlast := ih hrest
    omega

theorem Successive.append {middle : Nat} {spans' : List Span} (h : Successive first spans middle)
    (h' : Successive middle spans' last) : Successive first (spans ++ spans') last := by
  induction spans generalizing first with
  | nil =>
    cases spans' with
    | nil => exact Nat.le_trans h h'
    | cons s spans' =>
      obtain ⟨hstart, hrest⟩ := h'
      exact ⟨Nat.le_trans h hstart, hrest⟩
  | cons s spans ih =>
    obtain ⟨hstart, hstop, hrest⟩ := h
    exact ⟨hstart, hstop, ih hrest⟩

/-- Each offset belongs to one of the spans or to one of the gaps, and only to one of them. -/
theorem countP_holds (h : Successive first spans last) (i : Nat) :
    (spans ++ gaps first spans last).countP (holds i) = if first ≤ i ∧ i < last then 1 else 0 := by
  induction spans generalizing first with
  | nil => simp [gaps, holds, List.countP_cons]
  | cons s spans ih =>
    obtain ⟨hstart, hstop, hrest⟩ := h
    have hlast := hrest.le
    have hcount := ih hrest
    simp only [gaps, holds, List.cons_append, List.countP_cons, List.countP_append,
      Bool.and_eq_true, decide_eq_true_eq] at hcount ⊢
    split at hcount <;> split <;> split <;> split <;> omega

end Offsets

/-- The characters of a part of a text. -/
theorem chars_of_append {source front cs tail : List Char} {s : Span}
    (hsource : source = front ++ (cs ++ tail)) (hstart : s.start = front.length)
    (hstop : s.stop = front.length + cs.length) : s.chars source = cs := by
  have hlength : s.stop - s.start = cs.length := by omega
  rw [chars, hsource, hlength, hstart, List.drop_left, List.take_left]

end Span

namespace Token

/--
The characters that a token covers, in front of others.  A string ends in front of a character that
no string may hold, if there is no quote; a character literal without a closing quote covers the
rest of its line.
-/
inductive Covers (behind : List Char) (t : Token) : List Char → Prop
  | plain (hstring : t.lit ≠ .string) (hchar : t.lit ≠ .char) : Covers behind t t.lexeme.toList
  | closedString (hkind : t.kind = .literal) (hlit : t.lit = .string) :
      Covers behind t ('\x22' :: (t.lexeme.toList ++ ['\x22']))
  | openString (hkind : t.kind = .literal) (hlit : t.lit = .string)
      (hbehind : ∀ c ∈ behind.head?, Text.isAlphanumeric c = false ∧ Text.isBlank c = false ∧
        Text.isMark c = false) :
      Covers behind t ('\x22' :: t.lexeme.toList)
  | emptyChar (hkind : t.kind = .literal) (hlit : t.lit = .char) (hlexeme : t.lexeme = "") :
      Covers behind t ['\x27', '\x27']
  | closedChar {c : Char} (hkind : t.kind = .literal) (hlit : t.lit = .char)
      (hlexeme : t.lexeme = String.ofList [c]) (hc : c ≠ '\x27' ∧ c ≠ '\n') :
      Covers behind t ['\x27', c, '\x27']
  | loneQuote (hkind : t.kind = .literal) (hlit : t.lit = .char) (hlexeme : t.lexeme = "")
      (hbehind : ∀ c ∈ behind.head?, c = '\n') :
      Covers behind t ['\x27']
  | openChar {c : Char} {line : List Char} (hkind : t.kind = .literal) (hlit : t.lit = .char)
      (hlexeme : t.lexeme = String.ofList [c]) (hc : c ≠ '\x27' ∧ c ≠ '\n')
      (hline : '\n' ∉ line) (hquote : line.head? ≠ some '\x27')
      (hbehind : ∀ c ∈ behind.head?, c = '\n') :
      Covers behind t ('\x27' :: c :: line)

section Scanning

variable {c : Char} {cs : List Char} (p : Position)

/-- A token whose text is all that it covers. -/
theorem covers_plain {k : TokenKind} {lit : LiteralType} (span rest : List Char)
    (hlit : lit ≠ .string ∧ lit ≠ .char) :
    Covers rest ((Scan.plain k lit span rest).token p) span := by
  have hcovers : Covers rest ((Scan.plain k lit span rest).token p) _ := .plain hlit.1 hlit.2
  rwa [Scan.toList_lexeme_token] at hcovers

theorem head?_dropWhile {q : Char → Bool} {d : Char} (h : d ∈ (cs.dropWhile q).head?) :
    q d = false := by
  have hnot := List.head?_dropWhile_not q cs
  rw [Option.mem_def.mp h] at hnot
  exact hnot

theorem covers_scanString (cs : List Char) :
    Covers (scanString cs).rest ((scanString cs).token p) (scanString cs).span := by
  unfold scanString
  split
  · rename_i rest hrest
    have hclosed : Covers rest
        (Scan.token ⟨.literal, cs.takeWhile isStringChar, .string, [], []⟩ p) _ :=
      .closedString rfl rfl
    rwa [Scan.toList_lexeme_token] at hclosed
  · rename_i hquote
    have hbehind : ∀ d ∈ (cs.dropWhile isStringChar).head?, Text.isAlphanumeric d = false ∧
        Text.isBlank d = false ∧ Text.isMark d = false := by
      intro d hd
      have hstop := head?_dropWhile hd
      obtain ⟨rest, hrest⟩ := List.head?_eq_some_iff.mp hd
      have hne : d ≠ '\x22' := by
        rintro rfl
        exact hquote rest hrest
      simpa [isStringChar, hne, and_assoc] using hstop
    have hopen : Covers (cs.dropWhile isStringChar)
        (Scan.token ⟨.literal, cs.takeWhile isStringChar, .string, [], []⟩ p) _ :=
      .openString rfl rfl hbehind
    rwa [Scan.toList_lexeme_token] at hopen

theorem covers_scanChar (cs : List Char) :
    Covers (scanChar cs).rest ((scanChar cs).token p) (scanChar cs).span := by
  cases cs with
  | nil => exact .loneQuote rfl rfl rfl fun _ h => by cases h
  | cons c cs =>
    simp only [scanChar]
    split
    · rename_i hline
      refine .loneQuote rfl rfl rfl fun d hd => ?_
      obtain rfl : c = d := Option.some.inj hd
      exact hline
    · split
      · exact .emptyChar rfl rfl rfl
      · rename_i hline hquote
        split
        · exact .closedChar rfl rfl rfl ⟨hquote, hline⟩
        · rename_i hopen
          refine .openChar rfl rfl rfl ⟨hquote, hline⟩ ?_ ?_ ?_
          · intro hmem
            have hne := List.mem_takeWhile_imp hmem
            exact absurd rfl (bne_iff_ne.mp hne)
          · cases cs with
            | nil =>
              intro hhead
              cases hhead
            | cons d rest =>
              intro hhead
              rw [List.takeWhile_cons] at hhead
              split at hhead
              · obtain rfl : d = '\x27' := Option.some.inj hhead
                exact hopen rest rfl
              · cases hhead
          · intro d hd
            simpa using head?_dropWhile hd

theorem covers_scanMark (k : TokenKind) (c : Char) (cs : List Char) :
    Covers (scanMark k c cs).rest ((scanMark k c cs).token p) (scanMark k c cs).span := by
  cases cs with
  | nil => exact covers_plain p _ _ (by decide)
  | cons d cs =>
    simp only [scanMark]
    split <;> exact covers_plain p _ _ (by decide)

theorem covers_scanWord (c : Char) (cs : List Char) :
    Covers (scanWord c cs).rest ((scanWord c cs).token p) (scanWord c cs).span := by
  have hnone : LiteralType.none ≠ .string ∧ LiteralType.none ≠ .char := by decide
  have hbool : LiteralType.bool ≠ .string ∧ LiteralType.bool ≠ .char := by decide
  have hlit (word : String) : (classifyWord word).2 ≠ .string ∧ (classifyWord word).2 ≠ .char := by
    unfold classifyWord
    split
    · exact hnone
    · split
      · exact hbool
      · exact hnone
  exact covers_plain p _ _ (hlit _)

theorem covers_scanNumber (c : Char) (cs : List Char) :
    Covers (scanNumber c cs).rest ((scanNumber c cs).token p) (scanNumber c cs).span := by
  simp only [scanNumber]
  split
  · split <;> exact covers_plain p _ _ (by decide)
  · exact covers_plain p _ _ (by decide)

/-- A token covers what has been scanned of it, in front of the rest. -/
theorem covers_scan (c : Char) (cs : List Char) :
    Covers (scan c cs).rest ((scan c cs).token p) (scan c cs).span := by
  unfold scan
  split
  · exact covers_scanString p cs
  · split
    · exact covers_scanChar p cs
    · split
      · exact covers_scanMark p _ c cs
      · split
        · exact covers_scanWord p c cs
        · split
          · exact covers_scanNumber p c cs
          · exact covers_plain p _ _ (by decide)

end Scanning

/-- Where a scanned token stands in the text that ends with it and with what follows it. -/
def Scan.spanIn (source : List Char) (s : Scan) : Span :=
  ⟨source.length - (s.span ++ s.rest).length, source.length - s.rest.length⟩

/-- The spans of the tokens of a text. -/
def spans (source : List Char) : List Span :=
  (scans source).map (Scan.spanIn source)

section Places

variable {source front cs ds : List Char} {c : Char}

theorem Scan.spanIn_eq {s : Scan} (h : source = front ++ (s.span ++ s.rest)) :
    s.spanIn source = ⟨front.length, front.length + s.span.length⟩ := by
  simp only [spanIn, h, List.length_append, Span.mk.injEq]
  omega

/-- The gap in front of a token belongs to what stands in front of it. -/
theorem eq_append_scan (hsource : source = front ++ cs) (h : afterGap cs = c :: ds) :
    source = (front ++ gap cs) ++ ((scan c ds).span ++ (scan c ds).rest) ∧
      source = (front ++ gap cs ++ (scan c ds).span) ++ (scan c ds).rest := by
  have hcs := gap_append_span h
  constructor
  · rw [hsource, List.append_assoc, ← hcs]
  · rw [hsource, List.append_assoc, List.append_assoc, ← hcs]

/-- The spans of a text behind others follow each other. -/
theorem successive_scans (hsource : source = front ++ cs) :
    Span.Successive front.length ((scans cs).map (Scan.spanIn source)) source.length := by
  induction cs using text_induction generalizing front with
  | gap cs h =>
    rw [scans_of_gap h, hsource, List.length_append]
    exact Nat.le_add_right _ _
  | scan cs c ds h ih =>
    obtain ⟨hspan, hrest⟩ := eq_append_scan hsource h
    have hpos := List.length_pos_iff.mpr (scan_span_ne_nil c ds)
    have hsuccessive := ih hrest
    have hlength : (front ++ gap cs ++ (scan c ds).span).length =
        (front ++ gap cs).length + (scan c ds).span.length := List.length_append
    rw [hlength] at hsuccessive
    rw [scans_of_scan h, List.map_cons, Scan.spanIn_eq hspan]
    refine ⟨?_, ?_, hsuccessive⟩
    · rw [List.length_append]
      exact Nat.le_add_right _ _
    · exact Nat.lt_add_of_pos_right hpos

/-- What the spans of a text leave free are gaps. -/
theorem trivia_gaps (hsource : source = front ++ cs) :
    ∀ g ∈ Span.gaps front.length ((scans cs).map (Scan.spanIn source)) source.length,
      Trivia (g.stop = source.length) (g.chars source) := by
  induction cs using text_induction generalizing front with
  | gap cs h =>
    rw [scans_of_gap h]
    intro g hg
    obtain rfl := List.mem_singleton.mp hg
    have hgap : gap cs = cs := by
      have hall := gap_append_afterGap cs
      rwa [h, List.append_nil] at hall
    have hall : source = front ++ (cs ++ []) := by rw [List.append_nil, hsource]
    have hchars : Span.chars ⟨front.length, source.length⟩ source = cs :=
      Span.chars_of_append hall rfl (by rw [hsource, List.length_append])
    have htrivia := trivia_gap cs
    rw [hgap] at htrivia
    rw [hchars]
    exact htrivia.mono fun _ => rfl
  | scan cs c ds h ih =>
    obtain ⟨hspan, hrest⟩ := eq_append_scan hsource h
    have hgaps := ih hrest
    rw [scans_of_scan h, List.map_cons, Scan.spanIn_eq hspan]
    intro g hg
    rcases List.mem_cons.mp hg with rfl | hg
    · have hchars : Span.chars ⟨front.length, (front ++ gap cs).length⟩ source = gap cs :=
        Span.chars_of_append (by rw [hspan, List.append_assoc]) rfl List.length_append
      rw [hchars]
      exact (trivia_gap cs).mono fun hnil => by rw [h] at hnil; cases hnil
    · have hlength : (front ++ gap cs ++ (scan c ds).span).length =
          (front ++ gap cs).length + (scan c ds).span.length := List.length_append
      rw [hlength] at hgaps
      exact hgaps g hg

/-- What holds of each token that is scanned where a token starts, and of the place where it stands,
holds of the tokens of a text and their spans. -/
theorem forall₂_tokens {file : String} {R : Token → Span → Prop}
    (hscan : ∀ (front : List Char) (c : Char) (ds : List Char) (p : Position),
      source = front ++ ((scan c ds).span ++ (scan c ds).rest) → StartsToken c ds →
      R ((scan c ds).token p) ⟨front.length, front.length + (scan c ds).span.length⟩)
    (hsource : source = front ++ cs) (k : Cursor) :
    List.Forall₂ R (k.tokens file cs) ((scans cs).map (Scan.spanIn source)) := by
  induction cs using text_induction generalizing front k with
  | gap cs h =>
    rw [Cursor.tokens_of_gap h, scans_of_gap h]
    exact .nil
  | scan cs c ds h ih =>
    obtain ⟨hspan, hrest⟩ := eq_append_scan hsource h
    rw [Cursor.tokens_of_scan h, scans_of_scan h, List.map_cons, Scan.spanIn_eq hspan]
    exact .cons (hscan _ c ds _ hspan (startsToken_afterGap h)) (ih hrest _)

/-- The characters in front of a place, in the place and behind it. -/
theorem drop_stop_of_append {tail : List Char} (hsource : source = front ++ (cs ++ tail)) :
    source.drop (front.length + cs.length) = tail := by
  rw [hsource, ← List.append_assoc, ← List.length_append, List.drop_left]

/-- Each token of a text covers its span. -/
theorem covers_tokens {file : String} (hsource : source = front ++ cs) (k : Cursor) :
    List.Forall₂ (fun t s => Covers (source.drop s.stop) t (s.chars source))
      (k.tokens file cs) ((scans cs).map (Scan.spanIn source)) := by
  refine forall₂_tokens (fun front c ds p hspan _ => ?_) hsource k
  rw [Span.chars_of_append hspan rfl rfl, drop_stop_of_append hspan]
  exact covers_scan p c ds

end Places
end Token

/--
The tokens of a text cover spans that follow each other, and each character lies in one of them or
in one of the gaps that they leave.  A gap holds nothing but blanks and comments, and a comment in
it runs up to a line feed, or to the end of the text.  What a token covers is its lexeme, or a
string or character literal.
-/
theorem tokenize_lossless (file : String) (source : List Char) :
    let spans := Token.spans source
    let gaps := Span.gaps 0 spans source.length
    Span.Successive 0 spans source.length ∧
      (∀ i < source.length, (spans ++ gaps).countP (Span.holds i) = 1) ∧
      (∀ g ∈ gaps, Token.Trivia (g.stop = source.length) (g.chars source)) ∧
      List.Forall₂ (fun t s => Token.Covers (source.drop s.stop) t (s.chars source))
        (tokenize file source) spans := by
  intro spans gaps
  have hstart : source = [] ++ source := rfl
  have hsuccessive : Span.Successive 0 spans source.length := Token.successive_scans hstart
  refine ⟨hsuccessive, ?_, Token.trivia_gaps hstart, Token.covers_tokens hstart {}⟩
  intro i hi
  rw [Span.countP_holds hsuccessive, if_pos ⟨Nat.zero_le i, hi⟩]

/-- A character literal that is not closed covers its line, and an open string the rest. -/
example : Token.spans "x 'c y // z\n\x22s\n".toList = [⟨0, 1⟩, ⟨2, 11⟩, ⟨12, 15⟩] := by
  decide +kernel

end ScriptFront
