import ScriptFront.Token.Scan

/-!
# Reading all tokens of a text

A cursor counts the characters, rows and the start of the current row while characters are passed.
Reading tokens alternates between passing a gap and passing a token; each token gets the position
at which the cursor stood in front of it.

**Algorithm.** `Cursor.next?` reads one token, `Cursor.tokens` reads until the text ends.  There is
no token for the end of the text.

**Results.**

* `Cursor.passAll_append`: passing characters one after the other adds up.
* `Cursor.next?_rest_lt`: every token leaves a shorter text.
* `Cursor.exists_scan_of_mem_tokens`: every token of a text has been scanned.
-/

namespace ScriptFront

/-- How far a text has been read: characters passed, rows passed and where the row began. -/
structure Cursor where
  offset : Nat := 0
  row : Nat := 0
  lineStart : Nat := 0
deriving DecidableEq, Inhabited

namespace Cursor

/-- Passing one character; a line feed starts a new row. -/
def pass (k : Cursor) (c : Char) : Cursor :=
  if c = '\n' then ⟨k.offset + 1, k.row + 1, k.offset + 1⟩
  else { k with offset := k.offset + 1 }

/-- Passing several characters. -/
def passAll (k : Cursor) (cs : List Char) : Cursor :=
  cs.foldl pass k

/-- The position of the character in front of the cursor. -/
def position (file : String) (k : Cursor) : Position :=
  ⟨file, k.row, k.offset - k.lineStart⟩

@[simp] theorem passAll_nil (k : Cursor) : k.passAll [] = k := rfl

@[simp] theorem passAll_cons (k : Cursor) (c : Char) (cs : List Char) :
    k.passAll (c :: cs) = (k.pass c).passAll cs := rfl

theorem passAll_append (k : Cursor) (cs ds : List Char) :
    k.passAll (cs ++ ds) = (k.passAll cs).passAll ds := by
  simp [passAll]

@[simp] theorem pass_offset (k : Cursor) (c : Char) : (k.pass c).offset = k.offset + 1 := by
  unfold pass
  split <;> rfl

@[simp] theorem passAll_offset (k : Cursor) (cs : List Char) :
    (k.passAll cs).offset = k.offset + cs.length := by
  induction cs generalizing k with
  | nil => rfl
  | cons c cs ih => simp [ih]; omega

/-- The next token of a text read up to the cursor, where the cursor stands after it and what is
left of the text; nothing if only a gap is left. -/
def next? (file : String) (k : Cursor) (cs : List Char) :
    Option (Token × Cursor × List Char) :=
  match Token.afterGap cs with
  | [] => none
  | c :: rest =>
    let start := k.passAll (Token.gap cs)
    let found := Token.scan c rest
    some (⟨found.kind, String.ofList found.text, start.position file, found.lit⟩,
      start.passAll found.span, found.rest)

theorem next?_rest_lt {file : String} {k k' : Cursor} {cs rest : List Char} {t : Token}
    (h : k.next? file cs = some (t, k', rest)) : rest.length < cs.length := by
  have hgap := Token.afterGap_length_le cs
  unfold next? at h
  split at h
  · simp at h
  · next c ds hds =>
    simp only [Option.some.injEq, Prod.mk.injEq] at h
    obtain ⟨_, _, rfl⟩ := h
    have hscan := Token.scan_rest_length_le c ds
    rw [hds, List.length_cons] at hgap
    omega

/-- All tokens of a text from the cursor on. -/
def tokens (file : String) (k : Cursor) (cs : List Char) : List Token :=
  match _h : k.next? file cs with
  | none => []
  | some (t, k', rest) => t :: tokens file k' rest
termination_by cs.length
decreasing_by exact next?_rest_lt (by assumption)

theorem tokens_of_none {file : String} {k : Cursor} {cs : List Char}
    (h : k.next? file cs = none) : k.tokens file cs = [] := by
  rw [tokens]
  split <;> simp_all

theorem tokens_of_some {file : String} {k k' : Cursor} {cs rest : List Char} {t : Token}
    (h : k.next? file cs = some (t, k', rest)) :
    k.tokens file cs = t :: k'.tokens file rest := by
  rw [tokens]
  split <;> simp_all

/-- Every token of a text has been scanned at some place of it. -/
theorem exists_scan_of_mem_tokens {file : String} {k : Cursor} {cs : List Char} {t : Token}
    (ht : t ∈ k.tokens file cs) : ∃ c rest pos, t = ⟨(Token.scan c rest).kind,
      String.ofList (Token.scan c rest).text, pos, (Token.scan c rest).lit⟩ := by
  induction hn : cs.length using Nat.strongRecOn generalizing k cs with
  | ind n ih =>
    cases hnext : k.next? file cs with
    | none =>
      rw [tokens_of_none hnext] at ht
      cases ht
    | some found =>
      obtain ⟨t', k', rest⟩ := found
      rw [tokens_of_some hnext, List.mem_cons] at ht
      rcases ht with rfl | ht
      · unfold next? at hnext
        split at hnext
        · cases hnext
        · injection hnext with hfound
          injection hfound with ht _
          exact ⟨_, _, _, ht.symm⟩
      · exact ih rest.length (hn ▸ next?_rest_lt hnext) ht rfl

end Cursor

/-- The tokens of a source text. -/
def tokenize (file : String) (source : List Char) : List Token :=
  ({} : Cursor).tokens file source

/-- The position just after the last character of a source text. -/
def endOfText (file : String) (source : List Char) : Position :=
  (({} : Cursor).passAll source).position file

end ScriptFront
