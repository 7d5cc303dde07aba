import Mathlib.Order.Bounds.Basic

/-!
# Edits

An edit inserts, deletes or substitutes one character of a text.  The distance of two texts is given
by a recursion along both of them: what their first characters cost, and what is behind these.  It
is the least number of edits that turn one text into the other, and it inherits from the edits that
it is a metric.

**Results.**

* `edits_distance`: as many edits as the recursion counts turn one text into the other.
* `distance_le_of_edits`: no fewer edits do.
* `distance_comm`, `distance_triangle`, `distance_eq_zero_iff`: the distance is a metric.
* `distance_concat_concat`: the recursion may as well start at the ends of the texts.
-/

namespace ScriptFront
namespace Names

/-- One edit of a text. -/
inductive Edit : List Char → List Char → Prop
  | insert (front : List Char) (c : Char) (back : List Char) :
    Edit (front ++ back) (front ++ c :: back)
  | delete (front : List Char) (c : Char) (back : List Char) :
    Edit (front ++ c :: back) (front ++ back)
  | substitute (front : List Char) {c d : Char} (back : List Char) (hne : c ≠ d) :
    Edit (front ++ c :: back) (front ++ d :: back)

/-- So many edits, one after the other, turn one text into another. -/
inductive Edits : Nat → List Char → List Char → Prop
  | none (s : List Char) : Edits 0 s s
  | next {n : Nat} {s t u : List Char} (hfirst : Edit s t) (hrest : Edits n t u) :
    Edits (n + 1) s u

/-- The distance of two texts, by recursion along both of them. -/
def distance : List Char → List Char → Nat
  | [], t => t.length
  | s, [] => s.length
  | c :: s, d :: t =>
    min (distance s (d :: t) + 1)
      (min (distance (c :: s) t + 1) (distance s t + if c = d then 0 else 1))
termination_by s t => s.length + t.length

section Edits

variable {m n : Nat} {s t u : List Char}

theorem Edit.symm (h : Edit s t) : Edit t s := by
  cases h with
  | insert front c back => exact .delete front c back
  | delete front c back => exact .insert front c back
  | substitute front back hne => exact .substitute front back hne.symm

/-- An edit behind a character. -/
theorem Edit.cons (h : Edit s t) (a : Char) : Edit (a :: s) (a :: t) := by
  cases h with
  | insert front c back => exact .insert (a :: front) c back
  | delete front c back => exact .delete (a :: front) c back
  | substitute front back hne => exact .substitute (a :: front) back hne

/-- An edit of a text that is read backwards. -/
theorem Edit.reverse (h : Edit s t) : Edit s.reverse t.reverse := by
  cases h with
  | insert front c back =>
    simpa using Edit.insert back.reverse c front.reverse
  | delete front c back =>
    simpa using Edit.delete back.reverse c front.reverse
  | substitute front back hne =>
    simpa using Edit.substitute back.reverse front.reverse hne

namespace Edits

theorem trans (h : Edits m s t) (h' : Edits n t u) : Edits (m + n) s u := by
  induction h with
  | none s => rwa [Nat.zero_add]
  | next hfirst _ ih =>
    rw [Nat.succ_add]
    exact .next hfirst (ih h')

theorem single (h : Edit s t) : Edits 1 s t :=
  .next h (.none t)

theorem symm (h : Edits n s t) : Edits n t s := by
  induction h with
  | none s => exact .none s
  | next hfirst _ ih => exact ih.trans (single hfirst.symm)

/-- Edits inside of something that edits carry over to. -/
theorem map {f : List Char → List Char} (hf : ∀ {x y}, Edit x y → Edit (f x) (f y))
    (h : Edits n s t) : Edits n (f s) (f t) := by
  induction h with
  | none s => exact .none (f s)
  | next hfirst _ ih => exact .next (hf hfirst) ih

theorem cons (h : Edits n s t) (a : Char) : Edits n (a :: s) (a :: t) :=
  h.map fun h => h.cons a

theorem reverse (h : Edits n s t) : Edits n s.reverse t.reverse :=
  h.map Edit.reverse

theorem eq_of_zero (h : Edits 0 s t) : s = t := by
  cases h with
  | none => rfl

end Edits

end Edits

section Recursion

@[simp] theorem distance_nil_left (t : List Char) : distance [] t = t.length := by
  rw [distance]

@[simp] theorem distance_nil_right (s : List Char) : distance s [] = s.length := by
  cases s with
  | nil => rw [distance_nil_left]
  | cons c s =>
    rw [distance]
    simp

theorem distance_cons_cons (c d : Char) (s t : List Char) :
    distance (c :: s) (d :: t) = min (distance s (d :: t) + 1)
      (min (distance (c :: s) t + 1) (distance s t + if c = d then 0 else 1)) := by
  rw [distance]

/-- A text becomes empty by a deletion of each character. -/
theorem edits_nil (s : List Char) : Edits s.length s [] := by
  induction s with
  | nil => exact .none []
  | cons c s ih => exact .next (.delete [] c s) ih

/-- Two texts behind one character each are edited like the texts, and the characters if they
differ. -/
theorem edits_cons_cons {n : Nat} {s t : List Char} (h : Edits n s t) (c d : Char) :
    Edits (n + if c = d then 0 else 1) (c :: s) (d :: t) := by
  split
  · rename_i heq
    rw [heq]
    exact h.cons d
  · rename_i hne
    exact (h.cons c).trans (.single (.substitute [] t hne))

/-- As many edits as the recursion counts turn one text into the other. -/
theorem edits_distance (s t : List Char) : Edits (distance s t) s t := by
  induction s, t using distance.induct with
  | case1 t =>
    rw [distance_nil_left]
    exact (edits_nil t).symm
  | case2 s _ =>
    rw [distance_nil_right]
    exact edits_nil s
  | case3 c s d t hdelete hinsert hboth =>
    have hchoice : distance (c :: s) (d :: t) = distance s (d :: t) + 1 ∨
        distance (c :: s) (d :: t) = distance (c :: s) t + 1 ∨
          distance (c :: s) (d :: t) = distance s t + if c = d then 0 else 1 := by
      rw [distance_cons_cons]
      omega
    rcases hchoice with h | h | h
    · rw [h]
      exact .next (.delete [] c s) hdelete
    · rw [h]
      exact hinsert.trans (.single (.insert [] d t))
    · rw [h]
      exact edits_cons_cons hboth c d

end Recursion

section LowerBound

variable {n : Nat} {s t u : List Char}

theorem distance_le_cons (c : Char) (s u : List Char) :
    distance s u ≤ distance (c :: s) u + 1 := by
  induction u with
  | nil =>
    rw [distance_nil_right, distance_nil_right, List.length_cons]
    omega
  | cons d u ih =>
    have hskip : distance s (d :: u) ≤ distance s u + 1 := by
      cases s with
      | nil => simp
      | cons b s =>
        rw [distance_cons_cons]
        omega
    rw [distance_cons_cons]
    omega

theorem distance_cons_le (c : Char) (s u : List Char) :
    distance (c :: s) u ≤ distance s u + 1 := by
  cases u with
  | nil => simp
  | cons d u =>
    rw [distance_cons_cons]
    omega

theorem distance_substitute_le (c d : Char) (s u : List Char) :
    distance (c :: s) u ≤ distance (d :: s) u + 1 := by
  induction u with
  | nil => simp
  | cons e u ih =>
    have hcost : (if c = e then 0 else 1) ≤ 1 := by
      split <;> omega
    rw [distance_cons_cons, distance_cons_cons]
    omega

/-- A bound by one more edit is kept when both texts are put behind the same character. -/
theorem distance_cons_le_cons (h : ∀ u, distance s u ≤ distance t u + 1) (c : Char)
    (u : List Char) : distance (c :: s) u ≤ distance (c :: t) u + 1 := by
  induction u with
  | nil => simpa using h []
  | cons d u ih =>
    have hfirst := h (d :: u)
    have hboth := h u
    rw [distance_cons_cons, distance_cons_cons]
    omega

theorem distance_append_le_append (h : ∀ u, distance s u ≤ distance t u + 1) (front u : List Char) :
    distance (front ++ s) u ≤ distance (front ++ t) u + 1 := by
  induction front generalizing u with
  | nil => exact h u
  | cons c front ih => exact distance_cons_le_cons ih c u

/-- One edit changes the distance to any text by one at most. -/
theorem distance_le_of_edit (h : Edit s t) (u : List Char) :
    distance s u ≤ distance t u + 1 := by
  cases h with
  | insert front c back => exact distance_append_le_append (distance_le_cons c back) front u
  | delete front c back => exact distance_append_le_append (distance_cons_le c back) front u
  | @substitute front c d back hne =>
    exact distance_append_le_append (distance_substitute_le c d back) front u

theorem distance_self (s : List Char) : distance s s = 0 := by
  induction s with
  | nil => simp
  | cons c s ih =>
    rw [distance_cons_cons, if_pos rfl]
    omega

/-- No fewer edits than the recursion counts turn one text into the other. -/
theorem distance_le_of_edits (h : Edits n s t) : distance s t ≤ n := by
  induction h with
  | none s => exact Nat.le_of_eq (distance_self s)
  | @next n s t u hfirst _ ih =>
    have hstep := distance_le_of_edit hfirst u
    omega

/-- The distance is the least number of edits that turn one text into the other. -/
theorem isLeast_distance (s t : List Char) : IsLeast {n | Edits n s t} (distance s t) :=
  ⟨edits_distance s t, fun _ h => distance_le_of_edits h⟩

end LowerBound

section Metric

theorem distance_eq_zero_iff {s t : List Char} : distance s t = 0 ↔ s = t := by
  constructor
  · intro h
    have hedits := edits_distance s t
    rw [h] at hedits
    exact hedits.eq_of_zero
  · rintro rfl
    exact distance_self s

theorem distance_comm (s t : List Char) : distance s t = distance t s :=
  Nat.le_antisymm (distance_le_of_edits (edits_distance t s).symm)
    (distance_le_of_edits (edits_distance s t).symm)

theorem distance_triangle (s t u : List Char) :
    distance s u ≤ distance s t + distance t u :=
  distance_le_of_edits ((edits_distance s t).trans (edits_distance t u))

/-- Edits can be read backwards, so the distance does not depend on the direction. -/
theorem distance_reverse (s t : List Char) : distance s.reverse t.reverse = distance s t := by
  refine Nat.le_antisymm (distance_le_of_edits (edits_distance s t).reverse) ?_
  have hback := (edits_distance s.reverse t.reverse).reverse
  rw [List.reverse_reverse, List.reverse_reverse] at hback
  exact distance_le_of_edits hback

/-- The recursion from the ends of both texts. -/
theorem distance_concat_concat (s t : List Char) (c d : Char) :
    distance (s ++ [c]) (t ++ [d]) = min (distance s (t ++ [d]) + 1)
      (min (distance (s ++ [c]) t + 1) (distance s t + if c = d then 0 else 1)) := by
  have hcons := distance_cons_cons c d s.reverse t.reverse
  have hleft : c :: s.reverse = (s ++ [c]).reverse := by simp
  have hright : d :: t.reverse = (t ++ [d]).reverse := by simp
  rw [hleft, hright] at hcons
  simpa only [distance_reverse] using hcons

end Metric

end Names
end ScriptFront
