import ScriptFront.Proofs.Layout.Moved
import ScriptFront.Proofs.Scanning.Gaps
import ScriptFront.Proofs.Scanning.Requests

/-!
# The tokens of a text behind another one

A line feed ends every token but a string.  So the tokens of two texts with a line feed between them
are those of the first text and then those of the second one, unless the first text ends inside of a
string.  The tokens of the second text stand as many rows below as the first one has.

**Results.**

* `Token.splitGap_append_line`, `Token.scan_append_line`: a gap and a token in front of a line feed.
* `Cursor.tokens_append_line`: the tokens of two texts.
* `tokenize_append_line`: the same with the rows counted, if the first text ends with no literal.
* `tokenize_lines`: the same for all texts that do not end inside of a string.
-/

namespace ScriptFront
namespace Token

section Gaps

theorem head?_append_line {c : Char} (hc : c ≠ '\n') (cs ds : List Char) :
    (cs ++ '\n' :: ds).head? = some c ↔ cs.head? = some c := by
  cases cs with
  | nil => simp [hc.symm]
  | cons d cs => rfl

/-- A gap in front of a token ends at that token, and a gap at the end of a text goes on behind the
line feed. -/
theorem splitGap_append_line (comment : Bool) (cs ds : List Char) :
    splitGap comment (cs ++ '\n' :: ds) =
      if (splitGap comment cs).2 = [] then (cs ++ '\n' :: gap ds, afterGap ds)
      else ((splitGap comment cs).1, (splitGap comment cs).2 ++ '\n' :: ds) := by
  induction cs generalizing comment with
  | nil =>
    cases comment with
    | true => rfl
    | false => exact splitGap_blank (by decide) ds
  | cons c cs ih =>
    -- a second slash that makes a comment of the first one cannot be the line feed
    simp only [splitGap, List.cons_append, head?_append_line (c := '/') (by decide), ih]
    split
    · split <;> rfl
    · split
      · split <;> rfl
      · split
        · split <;> rfl
        · rfl

theorem splitGap_line_of_gap {cs : List Char} (ds : List Char) (h : afterGap cs = []) :
    splitGap false (cs ++ '\n' :: ds) = (cs ++ '\n' :: gap ds, afterGap ds) :=
  (splitGap_append_line false cs ds).trans (if_pos h)

theorem splitGap_line_of_scan {c : Char} {cs tail : List Char} (ds : List Char)
    (h : afterGap cs = c :: tail) :
    splitGap false (cs ++ '\n' :: ds) = (gap cs, c :: (tail ++ '\n' :: ds)) := by
  have hne : afterGap cs ≠ [] := h ▸ List.cons_ne_nil c tail
  rw [← List.cons_append, ← h]
  exact (splitGap_append_line false cs ds).trans (if_neg hne)

end Gaps

section Scanning

variable {c : Char} {cs : List Char} (ds : List Char)

/-- The same token with more text behind it. -/
def Scan.extend (s : Scan) (more : List Char) : Scan :=
  { s with rest := s.rest ++ more }

/-- What is taken from a text ends at the line feed at least, or before. -/
theorem takeWhile_append_line {p : Char → Bool} (cs ds : List Char)
    (h : p '\n' = false ∨ cs.dropWhile p ≠ []) :
    (cs ++ '\n' :: ds).takeWhile p = cs.takeWhile p ∧
      (cs ++ '\n' :: ds).dropWhile p = cs.dropWhile p ++ '\n' :: ds := by
  induction cs with
  | nil =>
    have hp := h.resolve_right fun hne => hne rfl
    simp [hp]
  | cons d cs ih =>
    rw [List.cons_append, List.takeWhile_cons, List.takeWhile_cons, List.dropWhile_cons,
      List.dropWhile_cons]
    by_cases hd : p d = true
    · rw [List.dropWhile_cons, if_pos hd] at h
      simp only [if_pos hd]
      exact ⟨congrArg (d :: ·) (ih h).1, (ih h).2⟩
    · rw [if_neg hd, if_neg hd, if_neg hd, if_neg hd]
      exact ⟨rfl, rfl⟩

/-- A string that runs up to the end of its text without a closing quote. -/
structure Scan.Unclosed (s : Scan) : Prop where
  kind : s.kind = .literal
  lit : s.lit = .string
  span : s.span = '\x22' :: s.text
  rest : s.rest = []

/-- The last token of a text is a string that is not closed. -/
def EndsInString (cs : List Char) : Prop :=
  ∃ s ∈ (scans cs).getLast?, s.Unclosed

/-- A string that does not run up to the end of the text. -/
theorem scanString_append_line (h : ¬ (scanString cs).Unclosed) :
    scanString (cs ++ '\n' :: ds) = (scanString cs).extend ('\n' :: ds) := by
  have hne : cs.dropWhile isStringChar ≠ [] := by
    intro hnil
    apply h
    simp only [scanString, hnil]
    exact ⟨rfl, rfl, rfl, rfl⟩
  obtain ⟨htake, hdrop⟩ := takeWhile_append_line cs ds (.inr hne)
  simp only [scanString, htake, hdrop]
  cases hrest : cs.dropWhile isStringChar with
  | nil => exact absurd hrest hne
  | cons d rest =>
    by_cases hquote : d = '\x22'
    · rw [hquote]
      rfl
    · simp [hquote, Scan.extend]

theorem scanChar_append_line :
    scanChar (cs ++ '\n' :: ds) = (scanChar cs).extend ('\n' :: ds) := by
  cases cs with
  | nil => rfl
  | cons c cs =>
    simp only [List.cons_append, scanChar]
    split
    · rfl
    · split
      · rfl
      · obtain ⟨htake, hdrop⟩ := takeWhile_append_line (p := (· != '\n')) cs ds (.inl rfl)
        rw [htake, hdrop]
        cases cs with
        | nil => rfl
        | cons d cs =>
          by_cases hquote : d = '\x27'
          · rw [hquote]
            rfl
          · simp [hquote, Scan.extend]

theorem scanMark_append_line (kind : TokenKind) :
    scanMark kind c (cs ++ '\n' :: ds) = (scanMark kind c cs).extend ('\n' :: ds) := by
  cases cs with
  | nil =>
    have hpair : TokenKind.ofPair? c '\n' = none := by
      unfold TokenKind.ofPair?
      split <;> simp_all
    simp only [List.nil_append, scanMark, hpair]
    rfl
  | cons d cs =>
    simp only [List.cons_append, scanMark]
    cases TokenKind.ofPair? c d <;> rfl

theorem scanWord_append_line :
    scanWord c (cs ++ '\n' :: ds) = (scanWord c cs).extend ('\n' :: ds) := by
  obtain ⟨htake, hdrop⟩ := takeWhile_append_line (p := isWordChar) cs ds (.inl rfl)
  unfold scanWord
  rw [htake, hdrop]
  rfl

theorem scanNumber_append_line :
    scanNumber c (cs ++ '\n' :: ds) = (scanNumber c cs).extend ('\n' :: ds) := by
  obtain ⟨htake, hdrop⟩ := takeWhile_append_line (p := Text.isDigit) cs ds (.inl rfl)
  simp only [scanNumber, htake, hdrop]
  cases hrest : cs.dropWhile Text.isDigit with
  | nil => rfl
  | cons d rest =>
    by_cases hpoint : d = '.'
    · obtain ⟨htake', hdrop'⟩ := takeWhile_append_line (p := Text.isDigit) rest ds (.inl rfl)
      rw [hpoint, List.cons_append]
      simp only [head?_append_line (c := '.') (by decide), htake', hdrop']
      split <;> rfl
    · simp [hpoint, Scan.extend, Scan.plain]

/-- A token in front of a line feed. -/
theorem scan_append_line (h : ¬ (scan c cs).Unclosed) :
    scan c (cs ++ '\n' :: ds) = (scan c cs).extend ('\n' :: ds) := by
  unfold scan at h ⊢
  split
  · rename_i hquote
    rw [if_pos hquote] at h
    exact scanString_append_line ds h
  · split
    · exact scanChar_append_line ds
    · split
      · exact scanMark_append_line ds _
      · split
        · exact scanWord_append_line ds
        · split
          · exact scanNumber_append_line ds
          · rfl

/-- A text that does not end in a string: not in its first token, and not behind it. -/
theorem not_endsInString_of_scan {tail : List Char} (h : afterGap cs = c :: tail)
    (hopen : ¬ EndsInString cs) :
    ¬ (scan c tail).Unclosed ∧ ¬ EndsInString (scan c tail).rest := by
  unfold EndsInString at hopen
  rw [scans_of_scan h, List.getLast?_cons] at hopen
  constructor
  · intro hscan
    apply hopen
    rw [hscan.rest, scans_nil]
    exact ⟨_, rfl, hscan⟩
  · rintro ⟨s, hs, hunclosed⟩
    apply hopen
    rw [Option.mem_def.mp hs]
    exact ⟨s, rfl, hunclosed⟩

end Scanning
end Token

/-- A position as many rows further down. -/
def Position.down (rows : Nat) (p : Position) : Position :=
  { p with row := p.row + rows }

namespace Cursor

variable {file : String} {k : Cursor} {cs : List Char}

section Texts

/-- A gap at the end of a text is passed with the line feed behind it. -/
theorem tokens_append_line_of_gap (ds : List Char) (h : Token.afterGap cs = []) :
    k.tokens file (cs ++ '\n' :: ds) = ((k.passAll cs).pass '\n').tokens file ds := by
  have hsplit := Token.splitGap_line_of_gap ds h
  have hgap : Token.gap (cs ++ '\n' :: ds) = cs ++ '\n' :: Token.gap ds := by
    rw [Token.gap, hsplit]
  have hafter : Token.afterGap (cs ++ '\n' :: ds) = Token.afterGap ds := by
    rw [Token.afterGap, hsplit]
  cases hds : Token.afterGap ds with
  | nil => rw [tokens_of_gap (hafter.trans hds), tokens_of_gap hds]
  | cons c rest =>
    rw [tokens_of_scan (hafter.trans hds), tokens_of_scan hds, hgap, passAll_append, passAll_cons]

/-- The tokens of two texts with a line feed between them, if the first does not end in a string. -/
theorem tokens_append_line (ds : List Char) (h : ¬ Token.EndsInString cs) :
    k.tokens file (cs ++ '\n' :: ds) =
      k.tokens file cs ++ ((k.passAll cs).pass '\n').tokens file ds := by
  induction cs using Token.text_induction generalizing k with
  | gap cs hgap => rw [tokens_of_gap hgap, tokens_append_line_of_gap ds hgap, List.nil_append]
  | scan cs c tail hscan ih =>
    obtain ⟨hclosed, hrest⟩ := Token.not_endsInString_of_scan hscan h
    have hsplit := Token.splitGap_line_of_scan ds hscan
    have hgap : Token.gap (cs ++ '\n' :: ds) = Token.gap cs := by rw [Token.gap, hsplit]
    have hafter : Token.afterGap (cs ++ '\n' :: ds) = c :: (tail ++ '\n' :: ds) := by
      rw [Token.afterGap, hsplit]
    have hpassed : ((k.passAll (Token.gap cs)).passAll (Token.scan c tail).span).passAll
        (Token.scan c tail).rest = k.passAll cs := by
      rw [← passAll_append, ← passAll_append, ← Token.gap_append_span hscan]
    rw [tokens_of_scan hafter, tokens_of_scan hscan, hgap, Token.scan_append_line ds hclosed,
      List.cons_append, ← hpassed, ← ih hrest]
    rfl

end Texts

section Rows

/-- A cursor in a text that has more rows and characters in front. -/
def down (rows chars : Nat) (k : Cursor) : Cursor :=
  ⟨chars + k.offset, rows + k.row, chars + k.lineStart⟩

variable (rows chars : Nat)

theorem pass_down (c : Char) : (k.down rows chars).pass c = (k.pass c).down rows chars := by
  unfold pass
  split <;> rfl

theorem passAll_down : (k.down rows chars).passAll cs = (k.passAll cs).down rows chars := by
  induction cs generalizing k with
  | nil => rfl
  | cons c cs ih => rw [passAll_cons, passAll_cons, pass_down, ih]

theorem position_down : (k.down rows chars).position file = (k.position file).down rows := by
  unfold position down Position.down
  congr 1 <;> push_cast <;> omega

/-- The tokens of a text stand further down when the text does. -/
theorem tokens_down : (k.down rows chars).tokens file cs =
    (k.tokens file cs).map (Token.moved (Position.down rows)) := by
  have hnext (k : Cursor) (cs : List Char) : (k.down rows chars).next? file cs =
      (k.next? file cs).map fun (t, k', rest) =>
        (t.moved (Position.down rows), k'.down rows chars, rest) := by
    unfold next?
    cases Token.afterGap cs with
    | nil => rfl
    | cons c rest =>
      simp only [passAll_down, position_down]
      rfl
  induction k, cs using tokens.induct file with
  | case1 k cs hr =>
    rw [tokens_of_none hr, tokens_of_none (by rw [hnext, hr]; rfl)]
    rfl
  | case2 k cs t k' rest hr ih =>
    have hr' := hnext k cs
    rw [hr] at hr'
    rw [tokens_of_some hr, tokens_of_some hr', ih]
    rfl

theorem passAll_row : (k.passAll cs).row = k.row + cs.count '\n' := by
  induction cs generalizing k with
  | nil => rfl
  | cons c cs ih =>
    rw [passAll_cons, ih, List.count_cons]
    unfold pass
    by_cases hc : c = '\n'
    · simp [hc]
      omega
    · simp [hc]

end Rows
end Cursor

/-- The tokens of a text behind another one stand below it. -/
theorem tokenize_append {file : String} {first : List Char} (second : List Char)
    (h : ¬ Token.EndsInString first) :
    tokenize file (first ++ '\n' :: second) = tokenize file first ++
      (tokenize file second).map (Token.moved (Position.down (first.count '\n' + 1))) := by
  have hstart : (({} : Cursor).passAll first).pass '\n' =
      ({} : Cursor).down (first.count '\n' + 1) (({} : Cursor).passAll first).offset.succ := by
    unfold Cursor.pass Cursor.down
    simp [Cursor.passAll_row]
  unfold tokenize
  rw [Cursor.tokens_append_line second h, hstart, Cursor.tokens_down]

/-- The tokens of a text behind another one that ends with no literal. -/
theorem tokenize_append_line {file : String} {first : List Char} (second : List Char)
    (h : ∀ t ∈ (tokenize file first).getLast?, t.kind ≠ .literal) :
    tokenize file (first ++ '\n' :: second) = tokenize file first ++
      (tokenize file second).map (Token.moved (Position.down (first.count '\n' + 1))) := by
  refine tokenize_append second ?_
  rintro ⟨s, hs, hunclosed⟩
  have hface : ((tokenize file first).getLast?).map Token.face = some s.face := by
    rw [← List.getLast?_map, map_face_tokenize, List.getLast?_map, Option.mem_def.mp hs]
    rfl
  obtain ⟨t, ht, hts⟩ := Option.map_eq_some_iff.mp hface
  exact h t ht ((congrArg Prod.fst hts).trans hunclosed.kind)

/--
The tokens of two texts with a line feed between them are those of the first text and then, further
down, those of the second one, unless the first text ends inside of a string.  What is read from
some place on does not depend on what stands in front of it, nor on how the reader got there.
-/
theorem tokenize_lines (file : String) (first second : List Char) :
    (¬ Token.EndsInString first →
      tokenize file (first ++ '\n' :: second) = tokenize file first ++
        (tokenize file second).map (Token.moved (Position.down (first.count '\n' + 1)))) ∧
      ∀ (r r' : Reader) (requests : List Reader.Request), r.rest = r'.rest →
        (∀ request ∈ requests, request.rewinds = false) →
        (r.handedOut requests).map Token.face = (r'.handedOut requests).map Token.face ∧
          (r.run requests).rest = (r'.run requests).rest :=
  ⟨tokenize_append second, fun _ _ _ hrest hrequests => Reader.handedOut_congr hrest hrequests⟩

/-- The first text ends with a character literal that is not closed, and the second one starts with
what could close it. -/
theorem tokenize_lines_open :
    tokenize "p" ("x = \x22s\nt\x22 'c".toList ++ '\n' :: "' 5. // d".toList) =
      tokenize "p" "x = \x22s\nt\x22 'c".toList ++
        (tokenize "p" "' 5. // d".toList).map (Token.moved (Position.down 2)) := by
  have hclosed : ¬ Token.EndsInString "x = \x22s\nt\x22 'c".toList := by
    rintro ⟨s, hs, hunclosed⟩
    have hlast : (Token.scans "x = \x22s\nt\x22 'c".toList).getLast?.map Token.Scan.lit =
        some .char := by
      decide +kernel
    rw [Option.mem_def.mp hs] at hlast
    have hlit := hunclosed.lit
    rw [Option.some.inj hlast] at hlit
    cases hlit
  exact (tokenize_lines "p" _ _).1 hclosed

end ScriptFront
