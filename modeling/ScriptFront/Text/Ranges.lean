/-!
# Membership in tables of code point ranges

A property of characters is written as an increasing list of closed ranges of code points.
This module has the test for membership.

**Results.**

* `inRanges_iff`: the test accepts exactly the code points of some range.
-/

namespace ScriptFront
namespace Text

/-- A code point belongs to a table when one of the closed ranges holds it. -/
def inRanges (table : List (Nat × Nat)) (code : Nat) : Bool :=
  table.any fun range => range.1 ≤ code && code ≤ range.2

theorem inRanges_iff {table : List (Nat × Nat)} {code : Nat} :
    inRanges table code = true ↔ ∃ range ∈ table, range.1 ≤ code ∧ code ≤ range.2 := by
  simp [inRanges]

end Text
end ScriptFront
