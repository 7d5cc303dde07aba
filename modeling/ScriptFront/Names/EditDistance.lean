/-!
# Edit distance

The least number of insertions, deletions and substitutions of single characters that turn one
text into another.

**Algorithm.** The table of distances between prefixes is computed row by row, one row for each
prefix of the longer text, and only the last row is kept.  A row has one entry for each prefix of
the shorter text.
-/

namespace ScriptFront
namespace Names

/--
The entries of the next row after its first one.  `left` is the entry to the left of the next one,
`above` is the previous row from the column of `left` on, and `text` holds the characters of the
columns still to be filled.
-/
def rowTail (c : Char) (left : Nat) : List Nat → List Char → List Nat
  | diagonal :: up :: above, d :: text =>
    let entry := min (up + 1) (min (left + 1) (diagonal + if c = d then 0 else 1))
    entry :: rowTail c entry (up :: above) text
  | _, _ => []

/-- The row after one more character `c` of the longer text; a row starts with its own number. -/
def nextRow (text : List Char) (row : List Nat) (c : Char) : List Nat :=
  let first := row.headD 0 + 1
  first :: rowTail c first row text

/-- The last row of the table for two texts. -/
def lastRow (s t : List Char) : List Nat :=
  s.foldl (nextRow t) (List.range (t.length + 1))

/-- The distance between two texts, found row by row along the longer one. -/
def editDistance (s t : List Char) : Nat :=
  if s.length < t.length then (lastRow t s).getLastD 0 else (lastRow s t).getLastD 0

end Names
end ScriptFront
