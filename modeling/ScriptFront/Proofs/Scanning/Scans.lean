import ScriptFront.Token.Cursor

/-!
# The tokens of a text without their positions

Which tokens a text has is decided by its characters alone; the cursor only adds the positions.  So
the tokens are first listed as they are scanned, each with the characters that it covers and those
that follow it.  The list is built like the text: gap, token, rest.

**Results.**

* `Token.text_induction`: a text is a gap, or a gap, a token and a shorter text.
* `Cursor.tokens_of_gap`, `Cursor.tokens_of_scan`: the tokens of a text in these two cases.
* `map_face_tokenize`: the tokens of a text are those that are scanned.
-/

namespace ScriptFront
namespace Token

/-- A token without its position. -/
def face (t : Token) : TokenKind × String × LiteralType :=
  (t.kind, t.lexeme, t.lit)

/-- A token as it is scanned, without a position. -/
def Scan.face (s : Scan) : TokenKind × String × LiteralType :=
  (s.kind, String.ofList s.text, s.lit)

/-- The token that has been scanned at a position. -/
def Scan.token (s : Scan) (p : Position) : Token :=
  ⟨s.kind, String.ofList s.text, p, s.lit⟩

@[simp] theorem Scan.face_token (s : Scan) (p : Position) : (s.token p).face = s.face := rfl

@[simp] theorem Scan.pos_token (s : Scan) (p : Position) : (s.token p).pos = p := rfl

@[simp] theorem Scan.toList_lexeme_token (s : Scan) (p : Position) :
    (s.token p).lexeme.toList = s.text :=
  String.toList_ofList

variable {c : Char} {cs ds : List Char}

theorem scan_rest_lt (h : afterGap cs = c :: ds) : (scan c ds).rest.length < cs.length := by
  have hgap := afterGap_length_le cs
  have hscan := scan_rest_length_le c ds
  rw [h, List.length_cons] at hgap
  omega

/-- A text that is not just a gap is a gap, then what the first token covers, then the rest. -/
theorem gap_append_span (h : afterGap cs = c :: ds) :
    cs = gap cs ++ ((scan c ds).span ++ (scan c ds).rest) := by
  rw [scan_span_append_rest, ← h, gap_append_afterGap]

/-- The tokens of a text as they are scanned, one behind the other. -/
def scans (cs : List Char) : List Scan :=
  match _h : afterGap cs with
  | [] => []
  | c :: ds => scan c ds :: scans (scan c ds).rest
termination_by cs.length
decreasing_by exact scan_rest_lt (by assumption)

theorem scans_of_gap (h : afterGap cs = []) : scans cs = [] := by
  rw [scans]
  split
  · rfl
  · simp_all

theorem scans_of_scan (h : afterGap cs = c :: ds) :
    scans cs = scan c ds :: scans (scan c ds).rest := by
  rw [scans]
  split
  · simp_all
  · rename_i c' ds' h'
    obtain ⟨rfl, rfl⟩ := List.cons.inj (h'.symm.trans h)
    rfl

@[simp] theorem scans_nil : scans [] = [] :=
  scans_of_gap rfl

/-- Only what stands behind the gap is scanned. -/
theorem scans_congr {cs' : List Char} (h : afterGap cs = afterGap cs') : scans cs = scans cs' := by
  cases hafter : afterGap cs' with
  | nil => rw [scans_of_gap (h.trans hafter), scans_of_gap hafter]
  | cons c ds => rw [scans_of_scan (h.trans hafter), scans_of_scan hafter]

/-- A text is a gap, or it is a gap, a token and a shorter text. -/
@[elab_as_elim]
theorem text_induction {motive : List Char → Prop}
    (gap : ∀ cs, afterGap cs = [] → motive cs)
    (scan : ∀ cs c ds, afterGap cs = c :: ds → motive (scan c ds).rest → motive cs)
    (cs : List Char) : motive cs := by
  induction hn : cs.length using Nat.strongRecOn generalizing cs with
  | ind n ih =>
    subst hn
    cases h : afterGap cs with
    | nil => exact gap cs h
    | cons c ds => exact scan cs c ds h (ih _ (scan_rest_lt h) _ rfl)

end Token

namespace Cursor

variable {file : String} {k : Cursor} {c : Char} {cs ds : List Char}

theorem next?_of_gap (h : Token.afterGap cs = []) : k.next? file cs = none := by
  unfold next?
  rw [h]

theorem next?_of_scan (h : Token.afterGap cs = c :: ds) :
    k.next? file cs = some
      ((Token.scan c ds).token ((k.passAll (Token.gap cs)).position file),
        (k.passAll (Token.gap cs)).passAll (Token.scan c ds).span, (Token.scan c ds).rest) := by
  unfold next?
  rw [h]
  rfl

theorem tokens_of_gap (h : Token.afterGap cs = []) : k.tokens file cs = [] :=
  tokens_of_none (next?_of_gap h)

theorem tokens_of_scan (h : Token.afterGap cs = c :: ds) :
    k.tokens file cs = (Token.scan c ds).token ((k.passAll (Token.gap cs)).position file) ::
      ((k.passAll (Token.gap cs)).passAll (Token.scan c ds).span).tokens file
        (Token.scan c ds).rest :=
  tokens_of_some (next?_of_scan h)

/-- The cursor decides nothing but the positions. -/
theorem map_face_tokens (k : Cursor) (cs : List Char) :
    (k.tokens file cs).map Token.face = (Token.scans cs).map Token.Scan.face := by
  induction cs using Token.text_induction generalizing k with
  | gap cs h => rw [tokens_of_gap h, Token.scans_of_gap h]; rfl
  | scan cs c ds h ih =>
    rw [tokens_of_scan h, Token.scans_of_scan h, List.map_cons, List.map_cons, ih]
    rfl

end Cursor

/-- The tokens of a source text are those that are scanned of it. -/
theorem map_face_tokenize (file : String) (source : List Char) :
    (tokenize file source).map Token.face = (Token.scans source).map Token.Scan.face :=
  Cursor.map_face_tokens {} source

end ScriptFront
