import ScriptFront.Names.EditDistance
import ScriptFront.Proofs.Names.Edits

/-!
# The rows of the table of distances

The distance of two texts is computed from a table with a row for each prefix of the one and a
column for each prefix of the other, of which only the latest row is kept.

**Algorithm.** Each row holds the distances of its prefix to the prefixes of the other text
(`distances`).  A row is filled from left to right out of the row above it, and its last entry is
the distance to the whole text.

**Results.**

* `rowTail_distances`: filling a row gives the distances of the next prefix.
* `lastRow_eq`: the last row holds the distances of the whole text.
* `editDistance_eq`: the longer of both texts may be the one or the other.
* `editDistance_isLeast`: the computed number is the least number of edits, and a metric.
-/

namespace ScriptFront
namespace Names

/-- The distances of a text to `front` and to each longer prefix of `front ++ text`. -/
def distances (s front : List Char) : List Char → List Nat
  | [] => [distance s front]
  | d :: text => distance s front :: distances s (front ++ [d]) text

section Rows

variable (s front text : List Char) (c : Char)

theorem distances_eq_cons : ∃ above, distances s front text = distance s front :: above := by
  cases text with
  | nil => exact ⟨[], rfl⟩
  | cons d text => exact ⟨distances s (front ++ [d]) text, rfl⟩

/-- The first row: an empty text is as far from a prefix as the prefix is long. -/
theorem distances_nil : distances [] front text = List.range' front.length (text.length + 1) := by
  induction text generalizing front with
  | nil => simp [distances]
  | cons d text ih =>
    rw [distances, ih, List.length_append, distance_nil_left, List.length_cons, List.range'_succ]
    rfl

/-- Each entry is found from the one to its left and two of the row above. -/
theorem rowTail_distances :
    distance (s ++ [c]) front ::
        rowTail c (distance (s ++ [c]) front) (distances s front text) text =
      distances (s ++ [c]) front text := by
  induction text generalizing front with
  | nil => rfl
  | cons d text ih =>
    obtain ⟨above, habove⟩ := distances_eq_cons s (front ++ [d]) text
    have hentry := distance_concat_concat s front c d
    rw [distances, distances, ← ih, habove, rowTail, hentry]

/-- The row after one more character. -/
theorem nextRow_distances :
    nextRow text (distances s [] text) c = distances (s ++ [c]) [] text := by
  obtain ⟨above, habove⟩ := distances_eq_cons s [] text
  have hfirst : (distances s [] text).headD 0 + 1 = distance (s ++ [c]) [] := by
    rw [habove, List.headD_cons, distance_nil_right, distance_nil_right, List.length_append]
    rfl
  rw [nextRow, hfirst]
  exact rowTail_distances s [] text c

/-- Going through more of the longer text keeps that the row holds the distances of its prefix. -/
theorem foldl_nextRow (rest : List Char) :
    rest.foldl (nextRow text) (distances s [] text) = distances (s ++ rest) [] text := by
  induction rest generalizing s with
  | nil => rw [List.append_nil, List.foldl_nil]
  | cons c rest ih =>
    rw [List.foldl_cons, nextRow_distances, ih, List.append_assoc]
    rfl

/-- The last row holds the distances of the whole text. -/
theorem lastRow_eq (t : List Char) : lastRow s t = distances s [] t := by
  have hfirst : List.range (t.length + 1) = distances [] [] t := by
    rw [distances_nil, List.range_eq_range']
    rfl
  rw [lastRow, hfirst, foldl_nextRow, List.nil_append]

theorem getLastD_distances : (distances s front text).getLastD 0 = distance s (front ++ text) := by
  induction text generalizing front with
  | nil =>
    rw [List.append_nil]
    rfl
  | cons d text ih =>
    obtain ⟨above, habove⟩ := distances_eq_cons s (front ++ [d]) text
    have hrest := ih (front ++ [d])
    rw [habove, List.append_assoc] at hrest
    rw [distances, habove]
    exact hrest

end Rows

/-- Which of both texts the rows run along makes no difference. -/
theorem editDistance_eq (s t : List Char) : editDistance s t = distance s t := by
  unfold editDistance
  split
  · rw [lastRow_eq, getLastD_distances, distance_comm]
    rfl
  · rw [lastRow_eq, getLastD_distances]
    rfl

/--
The computed distance is the least number of insertions, deletions and substitutions of single
characters that turn one text into the other; it is what the recursion along both texts gives, and
it is a metric.
-/
theorem editDistance_isLeast (s t u : List Char) :
    IsLeast {n | Edits n s t} (editDistance s t) ∧
      editDistance s t = distance s t ∧
      (editDistance s t = 0 ↔ s = t) ∧
      editDistance s t = editDistance t s ∧
      editDistance s u ≤ editDistance s t + editDistance t u := by
  simp only [editDistance_eq]
  exact ⟨isLeast_distance s t, trivial, distance_eq_zero_iff, distance_comm s t,
    distance_triangle s t u⟩

/-- Two substitutions and an insertion. -/
example : editDistance "kitten".toList "sitting".toList = 3 := by
  decide

end Names
end ScriptFront
