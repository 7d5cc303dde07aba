/-!
# Positions in a source text

A position names a row and a column of a named text.  Both count from zero inside the library and
from one in every text shown to a reader, so the first character of a file is `name:1:1`.
-/

namespace ScriptFront

/--
A place in a named source text.  Rows and columns are integers: a reader of a text only makes
places with non-negative ones, while a position given from outside may lie before the first row.
-/
structure Position where
  file : String
  row : Int
  column : Int
deriving DecidableEq, Inhabited

namespace Position

/-- The position as shown to a reader, counted from one. -/
def display (p : Position) : String :=
  p.file ++ ":" ++ toString (p.row + 1) ++ ":" ++ toString (p.column + 1)

/-- Reading order of two places of one text: by row, then by column. -/
def Before (p q : Position) : Prop :=
  p.row < q.row ∨ (p.row = q.row ∧ p.column < q.column)

instance (p q : Position) : Decidable (p.Before q) :=
  inferInstanceAs (Decidable (_ ∨ _))

theorem Before.trans {p q r : Position} (hpq : p.Before q) (hqr : q.Before r) : p.Before r := by
  unfold Before at *
  omega

end Position
end ScriptFront
