import ScriptFront.Token.Basic
import ScriptFront.Text.Blank
import ScriptFront.Text.Numeral

/-!
# Scanning one token

The two steps of reading tokens from a list of characters: the gap of blanks and comments in front
of a token is split off, and then one token is scanned.  Neither step looks at anything but the
characters still to be read.

**Input.** The characters from some place of a source text to its end.

**Results.**

* `gap_append_afterGap` and `scan_span_append_rest`: both steps only split their input.
* `scan_span_ne_nil` and `scan_rest_length_le`: scanning a token uses up a character.
-/

namespace ScriptFront
namespace Token

section Gaps

/--
Splits off the blanks and comments at the start of a text.  A comment runs from two slashes up to
the next line feed, which is itself a blank; `comment` tells that the text starts inside one.
-/
def splitGap (comment : Bool) : List Char → List Char × List Char
  | [] => ([], [])
  | c :: cs =>
    let continued (inComment : Bool) :=
      (c :: (splitGap inComment cs).1, (splitGap inComment cs).2)
    if comment then continued (c != '\n')
    else if Text.isBlank c then continued false
    else if c = '/' ∧ cs.head? = some '/' then continued true
    else ([], c :: cs)

/-- The blanks and comments at the start of a text. -/
def gap (cs : List Char) : List Char :=
  (splitGap false cs).1

/-- A text without the blanks and comments at its start. -/
def afterGap (cs : List Char) : List Char :=
  (splitGap false cs).2

theorem splitGap_append (comment : Bool) (cs : List Char) :
    (splitGap comment cs).1 ++ (splitGap comment cs).2 = cs := by
  induction cs generalizing comment with
  | nil => rfl
  | cons c cs ih =>
    simp only [splitGap]
    split
    · simp [ih]
    · split
      · simp [ih]
      · split <;> simp [ih]

@[simp] theorem gap_append_afterGap (cs : List Char) : gap cs ++ afterGap cs = cs :=
  splitGap_append false cs

theorem afterGap_length_le (cs : List Char) : (afterGap cs).length ≤ cs.length := by
  have h := congrArg List.length (gap_append_afterGap cs)
  simp only [List.length_append] at h
  omega

end Gaps

section Scanning

/--
One scanned token: its kind, text and literal type, the characters it covers and the characters
after it.  The text of a string or character literal leaves out the quotes it covers.
-/
structure Scan where
  kind : TokenKind
  text : List Char
  lit : LiteralType := .none
  span : List Char
  rest : List Char
deriving DecidableEq

/-- A token whose text is all that it covers. -/
def Scan.plain (kind : TokenKind) (lit : LiteralType) (span rest : List Char) : Scan :=
  ⟨kind, span, lit, span, rest⟩

/-- The characters that the inside of a string may hold. -/
def isStringChar (c : Char) : Bool :=
  c != '\x22' && (Text.isAlphanumeric c || Text.isBlank c || Text.isMark c)

/-- The characters that continue a word. -/
def isWordChar (c : Char) : Bool :=
  Text.isAlphanumeric c || c = '_'

/-- The characters that start a word. -/
def isWordStart (c : Char) : Bool :=
  Text.isLetter c || c = '_'

/--
A string after its opening quote.  The inside ends at the closing quote, at a character that no
string may hold, or with the text; only a closing quote is covered as well.
-/
def scanString (cs : List Char) : Scan :=
  let inside := cs.takeWhile isStringChar
  match cs.dropWhile isStringChar with
  | '\x22' :: rest => ⟨.literal, inside, .string, '\x22' :: inside ++ ['\x22'], rest⟩
  | rest => ⟨.literal, inside, .string, '\x22' :: inside, rest⟩

/--
A character literal after its opening quote.  It is empty when the quote is closed at once or ends
its line; without a closing quote after one character it covers the rest of the line.
-/
def scanChar : List Char → Scan
  | [] => ⟨.literal, [], .char, ['\x27'], []⟩
  | c :: cs =>
    if c = '\n' then ⟨.literal, [], .char, ['\x27'], c :: cs⟩
    else if c = '\x27' then ⟨.literal, [], .char, ['\x27', '\x27'], cs⟩
    else
      match cs with
      | '\x27' :: rest => ⟨.literal, [c], .char, ['\x27', c, '\x27'], rest⟩
      | _ =>
        ⟨.literal, [c], .char, '\x27' :: c :: cs.takeWhile (· != '\n'), cs.dropWhile (· != '\n')⟩

/-- A mark or operator: the form of two characters if the next one completes it. -/
def scanMark (kind : TokenKind) (c : Char) : List Char → Scan
  | [] => .plain kind .none [c] []
  | d :: cs =>
    match TokenKind.ofPair? c d with
    | some wide => .plain wide .none [c, d] cs
    | none => .plain kind .none [c] (d :: cs)

/-- The kind and literal type of a word: keyword, truth value or identifier. -/
def classifyWord (word : String) : TokenKind × LiteralType :=
  match TokenKind.keyword? word with
  | some kind => (kind, .none)
  | none => if word = "true" ∨ word = "false" then (.literal, .bool) else (.identifier, .none)

/-- A word: all the letters, numerals and underscores that follow each other. -/
def scanWord (c : Char) (cs : List Char) : Scan :=
  let span := c :: cs.takeWhile isWordChar
  let (kind, lit) := classifyWord (String.ofList span)
  .plain kind lit span (cs.dropWhile isWordChar)

/--
A number: a run of digits, and then one point with the digits after it, if any, unless the point
starts a range.
-/
def scanNumber (c : Char) (cs : List Char) : Scan :=
  let whole := c :: cs.takeWhile Text.isDigit
  match cs.dropWhile Text.isDigit with
  | '.' :: rest =>
    if rest.head? = some '.' then .plain .literal .number whole ('.' :: rest)
    else
      .plain .literal .float (whole ++ '.' :: rest.takeWhile Text.isDigit)
        (rest.dropWhile Text.isDigit)
  | rest => .plain .literal .number whole rest

/-- The token that starts with `c` and goes on with `cs`. -/
def scan (c : Char) (cs : List Char) : Scan :=
  if c = '\x22' then scanString cs
  else if c = '\x27' then scanChar cs
  else
    match TokenKind.ofChar? c with
    | some kind => scanMark kind c cs
    | none =>
      if isWordStart c then scanWord c cs
      else if Text.isDigit c then scanNumber c cs
      else .plain .invalid .none [c] cs

end Scanning

section Splitting

theorem scanString_append (cs : List Char) :
    (scanString cs).span ++ (scanString cs).rest = '\x22' :: cs := by
  have h := List.takeWhile_append_dropWhile (p := isStringChar) (l := cs)
  simp only [scanString]
  split
  · next rest hrest => rw [hrest] at h; simp [h]
  · simp [h]

theorem scanChar_append (cs : List Char) :
    (scanChar cs).span ++ (scanChar cs).rest = '\x27' :: cs := by
  cases cs with
  | nil => rfl
  | cons c cs =>
    simp only [scanChar]
    split
    · rfl
    · split
      · next h => simp [h]
      · split
        · simp
        · simp [List.takeWhile_append_dropWhile]

theorem scanMark_append (kind : TokenKind) (c : Char) (cs : List Char) :
    (scanMark kind c cs).span ++ (scanMark kind c cs).rest = c :: cs := by
  cases cs with
  | nil => rfl
  | cons d cs =>
    simp only [scanMark]
    split <;> simp [Scan.plain]

theorem scanWord_append (c : Char) (cs : List Char) :
    (scanWord c cs).span ++ (scanWord c cs).rest = c :: cs := by
  simp [scanWord, Scan.plain, List.takeWhile_append_dropWhile]

theorem scanNumber_append (c : Char) (cs : List Char) :
    (scanNumber c cs).span ++ (scanNumber c cs).rest = c :: cs := by
  have h := List.takeWhile_append_dropWhile (p := Text.isDigit) (l := cs)
  simp only [scanNumber]
  split
  · next rest hrest =>
    rw [hrest] at h
    split
    · simp [Scan.plain, h]
    · simp [Scan.plain, List.takeWhile_append_dropWhile, h]
  · simp [Scan.plain, h]

/-- Scanning a token splits the text: what the token covers, then the rest. -/
theorem scan_span_append_rest (c : Char) (cs : List Char) :
    (scan c cs).span ++ (scan c cs).rest = c :: cs := by
  unfold scan
  split
  · next h => rw [h]; exact scanString_append cs
  · split
    · next h => rw [h]; exact scanChar_append cs
    · split
      · exact scanMark_append _ c cs
      · split
        · exact scanWord_append c cs
        · split
          · exact scanNumber_append c cs
          · rfl

theorem scan_span_ne_nil (c : Char) (cs : List Char) : (scan c cs).span ≠ [] := by
  unfold scan
  split
  · simp only [scanString]; split <;> simp
  · split
    · cases cs with
      | nil => simp [scanChar]
      | cons d cs =>
        simp only [scanChar]
        split
        · simp
        · split
          · simp
          · split <;> simp
    · split
      · cases cs with
        | nil => simp [scanMark, Scan.plain]
        | cons d cs => simp only [scanMark]; split <;> simp [Scan.plain]
      · split
        · simp [scanWord, Scan.plain]
        · split
          · simp only [scanNumber]
            split
            · split <;> simp [Scan.plain]
            · simp [Scan.plain]
          · simp [Scan.plain]

/-- A token covers at least one character. -/
theorem scan_rest_length_le (c : Char) (cs : List Char) :
    (scan c cs).rest.length ≤ cs.length := by
  have hsplit := congrArg List.length (scan_span_append_rest c cs)
  have hspan := List.length_pos_iff.mpr (scan_span_ne_nil c cs)
  simp only [List.length_append, List.length_cons] at hsplit
  omega

end Splitting

end Token
end ScriptFront
