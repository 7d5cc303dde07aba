import ScriptFront.Proofs.Scanning.Requests
import ScriptFront.Proofs.Scanning.Spans
import Mathlib.Data.List.DropRight

/-!
# Positions are true

A cursor counts characters, rows and the start of the current row while it moves, and every
position comes from these counts.  They are compared with what they stand for: the line feeds in
front of the cursor, and what follows the last of them.  One character is passed at a time, so the
counts stay right whatever is asked of a reader, in any order.  Positions then grow with offsets,
and so do the positions of tokens.

**Results.**

* `Cursor.IsBehind.passAll`: passing characters keeps the counts right.
* `before_placeBehind`: a place further on is a later position.
* `Reader.Exact.answer`: no request makes a reader inexact.
* `Reader.run_exact`: readers and tokens after any requests.
-/

namespace ScriptFront

/-- The characters behind the last line feed. -/
def lastLine (front : List Char) : List Char :=
  front.rtakeWhile (· != '\n')

/-- The position behind some characters: how many line feeds they hold, and how many characters
follow the last line feed. -/
def placeBehind (file : String) (front : List Char) : Position :=
  ⟨file, front.count '\n', (lastLine front).length⟩

/-- Where the last line of some characters starts: at 0, or one past their last line feed. -/
inductive LastLineAt (front : List Char) : Nat → Prop
  | first (h : '\n' ∉ front) : LastLineAt front 0
  | behind {lines last : List Char} (hfront : front = lines ++ '\n' :: last) (h : '\n' ∉ last) :
      LastLineAt front (lines.length + 1)

section Places

variable {c : Char} {front : List Char}

theorem lastLine_line (front : List Char) : lastLine (front ++ ['\n']) = [] :=
  List.rtakeWhile_concat_neg (· != '\n') front '\n' (by decide)

theorem lastLine_snoc (front : List Char) (hc : c ≠ '\n') :
    lastLine (front ++ [c]) = lastLine front ++ [c] :=
  List.rtakeWhile_concat_pos (· != '\n') front c (bne_iff_ne.mpr hc)

theorem placeBehind_snoc (file : String) (front : List Char) (c : Char) :
    (placeBehind file front).Before (placeBehind file (front ++ [c])) := by
  unfold placeBehind Position.Before
  by_cases hc : c = '\n'
  · left
    rw [hc, List.count_append, List.count_singleton_self]
    push_cast
    omega
  · right
    rw [List.count_append, List.count_singleton, lastLine_snoc front hc, List.length_append,
      List.length_singleton]
    constructor
    · simp [hc]
    · push_cast
      omega

/-- A place further on is a later position. -/
theorem before_placeBehind (file : String) (front : List Char) {cs : List Char} (h : cs ≠ []) :
    (placeBehind file front).Before (placeBehind file (front ++ cs)) := by
  induction cs generalizing front with
  | nil => exact absurd rfl h
  | cons c cs ih =>
    have hstep := placeBehind_snoc file front c
    cases cs with
    | nil => exact hstep
    | cons d cs =>
      have hrest := ih (front ++ [c]) (List.cons_ne_nil d cs)
      rw [List.append_assoc] at hrest
      exact hstep.trans hrest

/-- Two places in one text. -/
theorem before_of_lt (file : String) {source : List Char} {i j : Nat} (hij : i < j)
    (hj : j ≤ source.length) :
    (placeBehind file (source.take i)).Before (placeBehind file (source.take j)) := by
  have hsplit : source.take j = source.take i ++ (source.take j).drop i := by
    have hall := List.take_append_drop i (source.take j)
    rwa [List.take_take, Nat.min_eq_left hij.le, eq_comm] at hall
  have hne : (source.take j).drop i ≠ [] := by
    rw [← List.length_pos_iff, List.length_drop, List.length_take]
    omega
  rw [hsplit]
  exact before_placeBehind file (source.take i) hne

theorem lastLine_of_not_mem (h : '\n' ∉ front) : lastLine front = front := by
  rw [lastLine, List.rtakeWhile_eq_self_iff]
  intro c hc
  rw [bne_iff_ne]
  rintro rfl
  exact h hc

theorem lastLine_append {lines last : List Char} (h : '\n' ∉ last) :
    lastLine (lines ++ '\n' :: last) = last := by
  induction last using List.reverseRecOn with
  | nil => exact lastLine_line lines
  | append_singleton last c ih =>
    rw [List.mem_append, not_or, List.mem_singleton] at h
    rw [← List.cons_append, ← List.append_assoc, lastLine_snoc _ (Ne.symm h.2), ih h.1]

/-- The last line starts where it has to. -/
theorem LastLineAt.length_eq {n : Nat} (h : LastLineAt front n) :
    front.length = n + (lastLine front).length := by
  cases h with
  | first h => rw [lastLine_of_not_mem h, Nat.zero_add]
  | @behind lines last hfront h =>
    rw [hfront, lastLine_append h, List.length_append, List.length_cons]
    omega

theorem LastLineAt.snoc {n : Nat} (h : LastLineAt front n) (hc : c ≠ '\n') :
    LastLineAt (front ++ [c]) n := by
  have hsnoc {cs : List Char} (hcs : '\n' ∉ cs) : '\n' ∉ cs ++ [c] := by
    rw [List.mem_append, not_or, List.mem_singleton]
    exact ⟨hcs, Ne.symm hc⟩
  cases h with
  | first h => exact .first (hsnoc h)
  | @behind lines last hfront h =>
    have hfront' : front ++ [c] = lines ++ '\n' :: (last ++ [c]) := by
      rw [hfront, List.append_assoc, List.cons_append]
    exact .behind hfront' (hsnoc h)

end Places

namespace Cursor

/-- A cursor stands behind some characters, and its counts are those of these characters. -/
structure IsBehind (k : Cursor) (front : List Char) : Prop where
  offset : k.offset = front.length
  row : k.row = front.count '\n'
  lineStart : LastLineAt front k.lineStart

namespace IsBehind

variable {k : Cursor} {front : List Char}

theorem start : ({} : Cursor).IsBehind [] :=
  ⟨rfl, rfl, .first List.not_mem_nil⟩

theorem pass (h : k.IsBehind front) (c : Char) : (k.pass c).IsBehind (front ++ [c]) := by
  obtain ⟨hoffset, hrow, hline⟩ := h
  by_cases hc : c = '\n'
  · rw [Cursor.pass, if_pos hc, hc]
    refine ⟨?_, ?_, ?_⟩
    · simp [hoffset]
    · simp [hrow]
    · rw [hoffset]
      exact .behind rfl List.not_mem_nil
  · rw [Cursor.pass, if_neg hc]
    refine ⟨?_, ?_, hline.snoc hc⟩
    · simp [hoffset]
    · simp [hrow, hc]

/-- Passing characters keeps the counts right. -/
theorem passAll (h : k.IsBehind front) (cs : List Char) :
    (k.passAll cs).IsBehind (front ++ cs) := by
  induction cs generalizing k front with
  | nil =>
    rw [passAll_nil, List.append_nil]
    exact h
  | cons c cs ih =>
    have hrest := ih (h.pass c)
    rwa [List.append_assoc] at hrest

/-- The position that comes from the counts is the true one. -/
theorem position (h : k.IsBehind front) (file : String) :
    k.position file = placeBehind file front := by
  have hlength := h.lineStart.length_eq
  rw [← h.offset] at hlength
  unfold Cursor.position placeBehind
  rw [h.row, hlength]
  congr 1
  push_cast
  omega

end IsBehind
end Cursor

namespace Token

/-- A token covers a span of a text and has the position of the span's first character. -/
def PlacedAt (file : String) (source : List Char) (t : Token) (s : Span) : Prop :=
  t.Covers (source.drop s.stop) (s.chars source) ∧ t.pos = placeBehind file (source.take s.start)

/-- Tokens that cover spans between two offsets, one behind the other, at their positions. -/
def PlacedBetween (file : String) (source : List Char) (first last : Nat) (ts : List Token) :
    Prop :=
  ∃ spans, Span.Successive first spans last ∧ List.Forall₂ (PlacedAt file source) ts spans

/-- Tokens with the spans that they cover from an offset up to the end of a text.  What the spans
leave free are gaps. -/
structure LaidOut (file : String) (source : List Char) (first : Nat) (ts : List Token)
    (spans : List Span) : Prop where
  successive : Span.Successive first spans source.length
  trivia : ∀ g ∈ Span.gaps first spans source.length,
    Trivia (g.stop = source.length) (g.chars source)
  placed : List.Forall₂ (PlacedAt file source) ts spans

section Tokens

variable {file : String} {source front cs : List Char} {k : Cursor} {ts us : List Token}
variable {first middle last : Nat}

/-- The tokens that are read from a cursor on have the positions of their spans. -/
theorem pos_tokens (hsource : source = front ++ cs) (hk : k.IsBehind front) :
    List.Forall₂ (fun t s => t.pos = placeBehind file (source.take s.start)) (k.tokens file cs)
      ((scans cs).map (Scan.spanIn source)) := by
  induction cs using text_induction generalizing front k with
  | gap cs h =>
    rw [Cursor.tokens_of_gap h, scans_of_gap h]
    exact .nil
  | scan cs c ds h ih =>
    obtain ⟨hspan, hrest⟩ := eq_append_scan hsource h
    have hgap := hk.passAll (gap cs)
    rw [Cursor.tokens_of_scan h, scans_of_scan h, List.map_cons, Scan.spanIn_eq hspan]
    refine .cons ?_ (ih hrest (hgap.passAll _))
    have hfront : source.take (front ++ gap cs).length = front ++ gap cs := by
      rw [hspan, List.take_left]
    rw [Scan.pos_token, hgap.position, hfront]

/-- The tokens that are read from a cursor on are laid out behind it. -/
theorem laidOut_tokens (hsource : source = front ++ cs) (hk : k.IsBehind front) :
    LaidOut file source k.offset (k.tokens file cs) ((scans cs).map (Scan.spanIn source)) where
  successive := by
    rw [hk.offset]
    exact successive_scans hsource
  trivia := by
    rw [hk.offset]
    exact trivia_gaps hsource
  placed :=
    (covers_tokens hsource k).mp (fun _ _ hcovers hpos => ⟨hcovers, hpos⟩) (pos_tokens hsource hk)

theorem LaidOut.placedBetween {spans : List Span} (h : LaidOut file source first ts spans) :
    PlacedBetween file source first source.length ts :=
  ⟨spans, h.successive, h.placed⟩

/-- The first token that is read from a cursor on stands between it and the cursor behind it. -/
theorem placedBetween_scan {c : Char} {ds : List Char} (hsource : source = front ++ cs)
    (hk : k.IsBehind front) (h : afterGap cs = c :: ds) :
    PlacedBetween file source k.offset
      ((k.passAll (gap cs)).passAll (scan c ds).span).offset
      [(scan c ds).token ((k.passAll (gap cs)).position file)] := by
  have hplaced : List.Forall₂ (PlacedAt file source) _ _ := (laidOut_tokens hsource hk).placed
  have hpos := List.length_pos_iff.mpr (scan_span_ne_nil c ds)
  rw [Cursor.tokens_of_scan h, scans_of_scan h, List.map_cons,
    Scan.spanIn_eq (eq_append_scan hsource h).1, List.length_append, ← hk.offset] at hplaced
  cases hplaced with
  | cons htoken _ =>
    refine ⟨_, ?_, .cons htoken .nil⟩
    refine ⟨Nat.le_add_right _ _, Nat.lt_add_of_pos_right hpos, ?_⟩
    rw [Span.Successive, Cursor.passAll_offset, Cursor.passAll_offset]

theorem PlacedBetween.nil (h : first ≤ last) : PlacedBetween file source first last [] :=
  ⟨[], h, .nil⟩

theorem PlacedBetween.append (hts : PlacedBetween file source first middle ts)
    (hus : PlacedBetween file source middle last us) :
    PlacedBetween file source first last (ts ++ us) := by
  obtain ⟨spans, hspans, hplaced⟩ := hts
  obtain ⟨spans', hspans', hplaced'⟩ := hus
  exact ⟨spans ++ spans', hspans.append hspans', List.rel_append hplaced hplaced'⟩

/-- One token of them, and its span. -/
theorem PlacedBetween.exists_span {t : Token} (h : PlacedBetween file source first last ts)
    (ht : t ∈ ts) :
    ∃ s, PlacedAt file source t s ∧ first ≤ s.start ∧ s.start < s.stop ∧ s.stop ≤ last := by
  obtain ⟨spans, hspans, hplaced⟩ := h
  induction hplaced generalizing first with
  | nil => cases ht
  | @cons t' s ts spans hts _ ih =>
    obtain ⟨hfirst, hstart, hrest⟩ := hspans
    rcases List.mem_cons.mp ht with rfl | ht
    · exact ⟨s, hts, hfirst, hstart, hrest.le⟩
    · obtain ⟨s', hts', hfirst', hstop'⟩ := ih ht hrest
      exact ⟨s', hts', by omega, hstop'⟩

/-- Tokens that cover spans one behind the other have increasing positions. -/
theorem PlacedBetween.pairwise (h : PlacedBetween file source first last ts)
    (hlast : last ≤ source.length) : ts.Pairwise fun t u => t.pos.Before u.pos := by
  obtain ⟨spans, hspans, hplaced⟩ := h
  induction hplaced generalizing first with
  | nil => exact .nil
  | @cons t s ts spans hts hrest ih =>
    obtain ⟨_, hstart, hspans⟩ := hspans
    refine .cons ?_ (ih hspans)
    intro u hu
    obtain ⟨s', hus, hfirst, hstart', hstop⟩ :=
      PlacedBetween.exists_span ⟨spans, hspans, hrest⟩ hu
    rw [hts.2, hus.2]
    exact before_of_lt file (by omega) (by omega)

end Tokens
end Token

namespace Reader

/-- The spans of the tokens that are left. -/
def spans (r : Reader) : List Span :=
  (Token.scans r.rest).map (Token.Scan.spanIn r.source)

/-- A reader whose counts are those of the characters in front of its cursor. -/
structure Exact (r : Reader) : Prop where
  offset_le : r.cursor.offset ≤ r.source.length
  row : r.cursor.row = (r.source.take r.cursor.offset).count '\n'
  lineStart : LastLineAt (r.source.take r.cursor.offset) r.cursor.lineStart

section Requests

variable {r : Reader} {front cs ds : List Char}

theorem take_append_rest (r : Reader) : r.source = r.source.take r.cursor.offset ++ r.rest :=
  (List.take_append_drop _ _).symm

theorem Exact.isBehind (h : r.Exact) : r.cursor.IsBehind (r.source.take r.cursor.offset) where
  offset := by rw [List.length_take, Nat.min_eq_left h.offset_le]
  row := h.row
  lineStart := h.lineStart

theorem exact_of_isBehind (hsource : r.source = front ++ cs) (h : r.cursor.IsBehind front) :
    r.Exact := by
  obtain ⟨hoffset, hrow, hline⟩ := h
  have hfront : r.source.take r.cursor.offset = front := by
    rw [hsource, hoffset, List.take_left]
  rw [← hfront] at hrow hline
  refine ⟨?_, hrow, hline⟩
  rw [hsource, hoffset, List.length_append]
  exact Nat.le_add_right _ _

theorem exact_start (file : String) (source : List Char) : ({ file, source } : Reader).Exact := by
  have hsource : source = [] ++ source := rfl
  exact exact_of_isBehind hsource .start

/-- A reader stays exact while it passes characters that are in front of it. -/
theorem Exact.passAll (h : r.Exact) (hrest : r.rest = cs ++ ds) :
    Exact { r with cursor := r.cursor.passAll cs } := by
  have hsource := r.take_append_rest
  rw [hrest, ← List.append_assoc] at hsource
  exact exact_of_isBehind hsource (h.isBehind.passAll cs)

theorem Exact.passRest (h : r.Exact) : Exact { r with cursor := r.cursor.passAll r.rest } :=
  h.passAll (List.append_nil r.rest).symm

theorem Exact.nextToken (h : r.Exact) : r.nextToken.2.Exact := by
  cases hafter : Token.afterGap r.rest with
  | nil =>
    rw [nextToken_of_gap hafter]
    exact h.passRest
  | cons c ds =>
    have hrest := Token.gap_append_span hafter
    rw [← List.append_assoc] at hrest
    rw [nextToken_of_scan hafter, ← Cursor.passAll_append]
    exact h.passAll hrest

/-- No request makes a reader inexact. -/
theorem Exact.answer (h : r.Exact) (request : Request) : (r.answer request).2.Exact := by
  have hreset : r.reset.Exact := exact_start r.file r.source
  cases request with
  | nextToken => exact h.nextToken
  | tokenize => exact hreset.passRest
  | drain => exact h.passRest
  | position => exact h
  | valid => exact h
  | peekBy distance =>
    rw [Reader.answer]
    split <;> exact h
  | advance => exact h.passAll (List.take_append_drop 1 r.rest).symm
  | reset => exact hreset

theorem answer_file (r : Reader) (request : Request) : (r.answer request).2.file = r.file := by
  cases request with
  | nextToken =>
    simp only [Reader.answer, Reader.nextToken]
    split <;> rfl
  | peekBy distance =>
    simp only [Reader.answer]
    split <;> rfl
  | _ => rfl

/-- Whatever is asked of a reader, it stays exact, and its text stays the same. -/
theorem Exact.run (h : r.Exact) (requests : List Request) :
    (r.run requests).Exact ∧ (r.run requests).source = r.source ∧
      (r.run requests).file = r.file := by
  induction requests generalizing r with
  | nil => exact ⟨h, rfl, rfl⟩
  | cons request requests ih =>
    obtain ⟨hexact, hsource, hfile⟩ := ih (h.answer request)
    rw [run_cons]
    exact ⟨hexact, hsource.trans (r.answer_source request), hfile.trans (r.answer_file request)⟩

end Requests

section Tokens

variable {r : Reader} {request : Request} {requests : List Request}

theorem Exact.laidOut_drain (h : r.Exact) :
    Token.LaidOut r.file r.source r.cursor.offset r.drain.1 r.spans :=
  Token.laidOut_tokens r.take_append_rest h.isBehind

/-- The tokens of one answer stand between where the reader was and where it is now. -/
theorem Exact.placedBetween_answer (h : r.Exact) (hrequest : request.rewinds = false) :
    Token.PlacedBetween r.file r.source r.cursor.offset (r.answer request).2.cursor.offset
      (r.answer request).1.found := by
  cases request with
  | nextToken =>
    rw [Reader.answer]
    cases hafter : Token.afterGap r.rest with
    | nil =>
      rw [nextToken_of_gap hafter]
      refine .nil ?_
      rw [Cursor.passAll_offset]
      exact Nat.le_add_right _ _
    | cons c ds =>
      rw [nextToken_of_scan hafter]
      exact Token.placedBetween_scan r.take_append_rest h.isBehind hafter
  | drain =>
    have hend : (r.cursor.passAll r.rest).offset = r.source.length := by
      have hle := h.offset_le
      rw [Cursor.passAll_offset, rest, List.length_drop]
      omega
    have hplaced := h.laidOut_drain.placedBetween
    rw [← hend] at hplaced
    exact hplaced
  | peekBy distance =>
    rw [Reader.answer]
    split <;> exact .nil (Nat.le_refl _)
  | advance =>
    refine .nil ?_
    rw [Reader.answer, Reader.advance, Cursor.passAll_offset]
    exact Nat.le_add_right _ _
  | position => exact .nil (Nat.le_refl _)
  | valid => exact .nil (Nat.le_refl _)
  | tokenize => cases hrequest
  | reset => cases hrequest

/-- The tokens of all answers stand one behind the other, while the reader is not put back. -/
theorem Exact.placedBetween_handedOut (h : r.Exact)
    (hrequests : ∀ request ∈ requests, request.rewinds = false) :
    Token.PlacedBetween r.file r.source r.cursor.offset (r.run requests).cursor.offset
      (r.handedOut requests) := by
  induction requests generalizing r with
  | nil => exact .nil (Nat.le_refl _)
  | cons request requests ih =>
    obtain ⟨hrequest, hrequests⟩ := List.forall_mem_cons.mp hrequests
    have hrest := ih (h.answer request) hrequests
    rw [answer_source, answer_file] at hrest
    rw [run_cons, handedOut_cons]
    exact (h.placedBetween_answer hrequest).append hrest

end Tokens

/--
Whatever a reader has been asked for, its cursor lies in the text and its counts are those of the
characters in front of it, so that its position is the true one.  The tokens that it hands out next
are laid out behind its cursor, and those of the whole text behind its start, at true positions.
Until the reader is put back to the start, all its tokens stand one behind the other.
-/
theorem run_exact (file : String) (source : List Char) (past requests : List Request) :
    let r := ({ file, source } : Reader).run past
    (r.Exact ∧ r.source = source ∧ r.position = placeBehind file (source.take r.cursor.offset)) ∧
      (Token.LaidOut file source r.cursor.offset r.drain.1 r.spans ∧
        r.nextToken.1 = r.drain.1.head?) ∧
      ((r.answer .tokenize).1 = .tokens (tokenize file source) ∧
        Token.LaidOut file source 0 (tokenize file source) (Token.spans source) ∧
        (tokenize file source).Pairwise fun t u => t.pos.Before u.pos) ∧
      ((∀ request ∈ requests, request.rewinds = false) →
        Token.PlacedBetween file source r.cursor.offset (r.run requests).cursor.offset
            (r.handedOut requests) ∧
          (r.handedOut requests).Pairwise fun t u => t.pos.Before u.pos) := by
  intro r
  have hrun := (exact_start file source).run past
  have hexact : r.Exact := hrun.1
  have hsource : r.source = source := hrun.2.1
  have hfile : r.file = file := hrun.2.2
  have hposition := hexact.isBehind.position r.file
  have hleft := hexact.laidOut_drain
  rw [hsource, hfile] at hposition hleft
  have hall : Token.LaidOut file source 0 (tokenize file source) (Token.spans source) :=
    (exact_start file source).laidOut_drain
  refine ⟨⟨hexact, hsource, ?_⟩, ⟨hleft, (head?_drain r).symm⟩, ⟨?_, hall, ?_⟩, ?_⟩
  · rw [Reader.position, hfile]
    exact hposition
  · rw [answer, drain, reset, ← hsource, ← hfile]
    rfl
  · exact hall.placedBetween.pairwise (Nat.le_refl _)
  · intro hrequests
    have hplaced := hexact.placedBetween_handedOut hrequests
    rw [hsource, hfile] at hplaced
    refine ⟨hplaced, hplaced.pairwise ?_⟩
    obtain ⟨hlast, hsource', _⟩ := hexact.run requests
    have hle := hlast.offset_le
    rwa [hsource', hsource] at hle

/-- A string over two rows, read twice, and the rest in two requests with a character left out. -/
theorem run_exact_rows :
    let r := ({ file := "rows", source := "\"a\nb\" c\n\n+ d".toList } : Reader).run
      [.nextToken, .peekBy (-1), .reset, .nextToken]
    r.position = ⟨"rows", 1, 2⟩ ∧
      (r.handedOut [.advance, .nextToken, .drain]).Pairwise (fun t u => t.pos.Before u.pos) :=
  have hrequests : ∀ request ∈ [Request.advance, .nextToken, .drain], request.rewinds = false := by
    decide
  ⟨by decide +kernel, ((run_exact _ _ _ _).2.2.2 hrequests).2⟩

end Reader
end ScriptFront
