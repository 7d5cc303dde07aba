import ScriptFront.Token.Cursor

/-!
# A reader over one source text

A reader holds a source text and a cursor in it.  It hands out tokens one at a time and lets its
owner look at single characters, pass them and start again.  `Reader.answer` runs one request, so
that histories of requests can be spoken of.

**Results.**

* `Reader.answer_source`: no request changes the text.
-/

namespace ScriptFront

/-- A source text read up to a cursor. -/
structure Reader where
  file : String
  source : List Char
  cursor : Cursor := {}
deriving DecidableEq

namespace Reader

/-- The characters still to be read. -/
def rest (r : Reader) : List Char :=
  r.source.drop r.cursor.offset

/-- There is a character left. -/
def valid (r : Reader) : Bool :=
  r.cursor.offset < r.source.length

/-- The position of the next character. -/
def position (r : Reader) : Position :=
  r.cursor.position r.file

/-- Back to the start of the text. -/
def reset (r : Reader) : Reader :=
  { r with cursor := {} }

/-- Past one character, if there is one. -/
def advance (r : Reader) : Reader :=
  { r with cursor := r.cursor.passAll (r.rest.take 1) }

/--
The character at a distance from the cursor.  Past the end of the text there is none; a place
before the start counts from the end, and is out of range when it lies before the start again.
-/
def peekBy (r : Reader) (distance : Int) : Except Unit (Option Char) :=
  let index : Int := r.cursor.offset + distance
  let length : Int := r.source.length
  if 0 ≤ index then .ok r.source[index.toNat]?
  else if 0 ≤ length + index then .ok r.source[(length + index).toNat]?
  else .error ()

/-- The next token, and the reader after it; without a token the reader is at the end. -/
def nextToken (r : Reader) : Option Token × Reader :=
  match r.cursor.next? r.file r.rest with
  | none => (none, { r with cursor := r.cursor.passAll r.rest })
  | some (t, k, _) => (some t, { r with cursor := k })

/-- All tokens that are left, and the reader at the end. -/
def drain (r : Reader) : List Token × Reader :=
  (r.cursor.tokens r.file r.rest, { r with cursor := r.cursor.passAll r.rest })

/-- What a reader can be asked for. -/
inductive Request where
  | nextToken
  | tokenize
  | drain
  | position
  | valid
  | peekBy (distance : Int)
  | advance
  | reset
deriving DecidableEq

/-- What a reader answers. -/
inductive Answer where
  | token (t : Option Token)
  | tokens (ts : List Token)
  | position (p : Position)
  | valid (b : Bool)
  | character (c : Option Char)
  | outOfRange
  | done
deriving DecidableEq

/-- The answer to one request, and the reader afterwards. -/
def answer (r : Reader) : Request → Answer × Reader
  | .nextToken => (.token r.nextToken.1, r.nextToken.2)
  | .tokenize => (.tokens r.reset.drain.1, r.reset.drain.2)
  | .drain => (.tokens r.drain.1, r.drain.2)
  | .position => (.position r.position, r)
  | .valid => (.valid r.valid, r)
  | .peekBy distance =>
    match r.peekBy distance with
    | .ok c => (.character c, r)
    | .error _ => (.outOfRange, r)
  | .advance => (.done, r.advance)
  | .reset => (.done, r.reset)

/-- The readers and answers met while a list of requests is run. -/
def answers (r : Reader) : List Request → List (Answer × Reader)
  | [] => []
  | request :: requests => r.answer request :: (r.answer request).2.answers requests

theorem answer_source (r : Reader) (request : Request) :
    (r.answer request).2.source = r.source := by
  cases request <;> simp only [answer]
  · simp only [nextToken]; split <;> rfl
  · rfl
  · rfl
  · split <;> rfl
  · rfl
  · rfl

end Reader
end ScriptFront
