import Mathlib.Data.Set.Card
import ScriptFront.Names.Suggest
import ScriptFront.Proofs.Names.Rows

/-!
# The names that are offered are the best three

A name is offered for a misspelt one when it is known and few edits away.  The names are ranked by
their distance, and names at one distance by the place where they are first listed.

**Approach.** The offered names are the first three of a ranking (`ranked`).  It comes from the
distinct candidates, which stand in the order of their first occurrences (`pairwise_eraseDups`),
by a sort on the distance alone.  A stable sort keeps, among names that compare equal, whatever
order they had (`pairwise_mergeSort_of_pairwise`), so that the ranking is strict.

**Results.**

* `mem_ranked`: what is ranked are the candidates within the limit.
* `pairwise_ranked`: the ranking goes by distance and then by first occurrence.
* `scored_repeated`: a candidate that is listed again changes nothing.
* `suggest_best`: the names that are offered are the best three of the ranking.
-/

namespace ScriptFront
namespace Names

section Duplicates

variable {α : Type} [DecidableEq α] {xs ys : List α} {a : α}

/-- A list that is extended by one element keeps it if it is new. -/
theorem eraseDups_concat :
    (xs ++ [a]).eraseDups = if a ∈ xs then xs.eraseDups else xs.eraseDups ++ [a] := by
  rw [List.eraseDups_append]
  split
  case isTrue h => simp [List.removeAll, h]
  case isFalse h => simp [List.removeAll, h, List.eraseDups_cons]

/-- The distinct elements stand in the order of their first occurrences. -/
theorem pairwise_eraseDups (xs : List α) :
    xs.eraseDups.Pairwise fun a b => xs.idxOf a < xs.idxOf b := by
  induction xs using List.reverseRecOn with
  | nil => simp
  | append_singleton xs c ih =>
    have hold : xs.eraseDups.Pairwise fun a b => (xs ++ [c]).idxOf a < (xs ++ [c]).idxOf b := by
      refine ih.imp_of_mem fun {a b} ha hb hab => ?_
      rw [List.idxOf_append_of_mem (List.mem_eraseDups.mp ha),
        List.idxOf_append_of_mem (List.mem_eraseDups.mp hb)]
      exact hab
    rw [eraseDups_concat]
    split
    case isTrue => exact hold
    case isFalse hc =>
      refine List.pairwise_append.mpr ⟨hold, List.pairwise_singleton _ _, fun a ha b hb => ?_⟩
      rw [List.mem_singleton.mp hb, List.idxOf_append_of_mem (List.mem_eraseDups.mp ha),
        List.idxOf_append_of_notMem hc]
      exact Nat.lt_add_right _ (List.idxOf_lt_length_of_mem (List.mem_eraseDups.mp ha))

/-- An element that is listed again later is not noticed. -/
theorem eraseDups_append_cons (h : a ∈ xs) :
    (xs ++ a :: ys).eraseDups = (xs ++ ys).eraseDups := by
  rw [List.eraseDups_append, List.eraseDups_append]
  simp [List.removeAll, h]

end Duplicates

/--
Elements that compare equal keep the order in which a stable sort finds them: where `r` holds
along the list, it holds along the sorted list between those.
-/
theorem pairwise_mergeSort_of_pairwise {α : Type} {le : α → α → Bool} {r : α → α → Prop}
    (htrans : ∀ a b c, le a b → le b c → le a c) (htotal : ∀ a b, le a b || le b a) {xs : List α}
    (h : xs.Pairwise r) : (xs.mergeSort le).Pairwise fun a b => le b a → r a b := by
  induction xs with
  | nil => simp
  | cons x xs ih =>
    obtain ⟨hx, hxs⟩ := List.pairwise_cons.mp h
    -- `x` stands in front of all elements but those that are smaller than it
    obtain ⟨front, back, hsort, hrest, hsmaller⟩ := List.mergeSort_cons htrans htotal x xs
    have hback : ∀ b ∈ back, b ∈ xs := fun b hb => by
      have hmem : b ∈ xs.mergeSort le := hrest ▸ List.mem_append_right front hb
      exact List.mem_mergeSort.mp hmem
    obtain ⟨hfront, hbacks, hcross⟩ := List.pairwise_append.mp (hrest ▸ ih hxs)
    rw [hsort]
    refine List.pairwise_append.mpr
      ⟨hfront, List.pairwise_cons.mpr ⟨fun b hb _ => hx b (hback b hb), hbacks⟩, ?_⟩
    rintro a ha b (_ | ⟨_, hb⟩)
    · intro hle
      have hnot := hsmaller a ha
      rw [hle] at hnot
      cases hnot
    · exact hcross a ha b hb

section Ranking

variable (name : String) (candidates : List String) (limit : Int)

/-- A name that takes at most so many edits to become another one. -/
def Close (limit : Int) (name candidate : String) : Prop :=
  ∃ n : Nat, (n : Int) ≤ limit ∧ Edits n name.toList candidate.toList

/-- One candidate is nearer than another one, or as near and listed earlier. -/
def Before (a b : String) : Prop :=
  editDistance name.toList a.toList < editDistance name.toList b.toList ∨
    editDistance name.toList a.toList = editDistance name.toList b.toList ∧
      candidates.idxOf a < candidates.idxOf b

/-- All candidates that could be offered, in the order in which they would be. -/
def ranked : List String :=
  ((scored name candidates limit).mergeSort fun a b => a.1 ≤ b.1).map Prod.snd

theorem suggest_eq_take : suggest name candidates limit = (ranked name candidates limit).take 3 :=
  List.map_take

variable {name candidates limit}

theorem close_iff {c : String} :
    Close limit name c ↔ (editDistance name.toList c.toList : Int) ≤ limit := by
  obtain ⟨hedits, hleast⟩ := isLeast_distance name.toList c.toList
  rw [editDistance_eq]
  constructor
  · rintro ⟨n, hn, h⟩
    exact (Int.ofNat_le.mpr (hleast h)).trans hn
  · intro h
    exact ⟨_, h, hedits⟩

theorem mem_scored {entry : Nat × String} :
    entry ∈ scored name candidates limit ↔
      entry.2 ∈ candidates ∧ Close limit name entry.2 ∧
        entry.1 = editDistance name.toList entry.2.toList := by
  obtain ⟨n, c⟩ := entry
  simp only [scored, List.mem_filter, List.mem_map, List.mem_eraseDups, Prod.mk.injEq,
    decide_eq_true_eq, close_iff]
  constructor
  · rintro ⟨⟨c, hc, rfl, rfl⟩, hlimit⟩
    exact ⟨hc, hlimit, rfl⟩
  · rintro ⟨hc, hlimit, rfl⟩
    exact ⟨⟨c, hc, rfl, rfl⟩, hlimit⟩

/-- What is ranked are the candidates within the limit. -/
theorem mem_ranked {c : String} :
    c ∈ ranked name candidates limit ↔ c ∈ candidates ∧ Close limit name c := by
  simp only [ranked, List.mem_map, List.mem_mergeSort, mem_scored]
  constructor
  · rintro ⟨entry, ⟨hmem, hclose, -⟩, rfl⟩
    exact ⟨hmem, hclose⟩
  · rintro ⟨hmem, hclose⟩
    exact ⟨(editDistance name.toList c.toList, c), ⟨hmem, hclose, rfl⟩, rfl⟩

/-- The entries are found in the order in which the candidates are first listed. -/
theorem pairwise_scored : (scored name candidates limit).Pairwise fun a b =>
    candidates.idxOf a.2 < candidates.idxOf b.2 :=
  List.Pairwise.filter _ (List.pairwise_map.mpr (pairwise_eraseDups candidates))

/-- The ranking goes by distance and, at one distance, by first occurrence. -/
theorem pairwise_ranked :
    (ranked name candidates limit).Pairwise (Before name candidates) := by
  have htrans : ∀ a b c : Nat × String, decide (a.1 ≤ b.1) → decide (b.1 ≤ c.1) →
      decide (a.1 ≤ c.1) := by
    intro a b c hab hbc
    exact decide_eq_true ((of_decide_eq_true hab).trans (of_decide_eq_true hbc))
  have htotal : ∀ a b : Nat × String, decide (a.1 ≤ b.1) || decide (b.1 ≤ a.1) := by
    intro a b
    rcases Nat.le_total a.1 b.1 with h | h <;> simp [h]
  have hsorted := List.pairwise_mergeSort htrans htotal (scored name candidates limit)
  have hscored : (scored name candidates limit).Pairwise _ := pairwise_scored
  have hties := pairwise_mergeSort_of_pairwise htrans htotal hscored
  refine List.pairwise_map.mpr ((hsorted.and hties).imp_of_mem ?_)
  rintro a b ha hb ⟨hle, htie⟩
  obtain ⟨-, -, hda⟩ := mem_scored.mp (List.mem_mergeSort.mp ha)
  obtain ⟨-, -, hdb⟩ := mem_scored.mp (List.mem_mergeSort.mp hb)
  rw [Before, ← hda, ← hdb]
  rcases Nat.lt_or_eq_of_le (of_decide_eq_true hle) with hlt | heq
  · exact .inl hlt
  · exact .inr ⟨heq, htie (decide_eq_true heq.ge)⟩

theorem Before.ne {a b : String} (h : Before name candidates a b) : a ≠ b := by
  rintro rfl
  rcases h with h | ⟨-, h⟩
  · exact h.false
  · exact h.false

theorem nodup_ranked : (ranked name candidates limit).Nodup :=
  pairwise_ranked.imp Before.ne

/-- As many names are ranked as there are distinct candidates within the limit. -/
theorem length_ranked :
    (ranked name candidates limit).length = {c | c ∈ candidates ∧ Close limit name c}.ncard := by
  have hset : {c | c ∈ candidates ∧ Close limit name c} =
      ((ranked name candidates limit).toFinset : Set String) := by
    ext c
    rw [List.coe_toFinset]
    exact mem_ranked.symm
  rw [hset, Set.ncard_coe_finset, List.toFinset_card_of_nodup nodup_ranked]

/-- A candidate that is listed again changes nothing. -/
theorem scored_repeated {c : String} {front back : List String} (h : c ∈ front) :
    scored name (front ++ c :: back) limit = scored name (front ++ back) limit := by
  rw [scored, scored, eraseDups_append_cons h]

/-- A name that is known itself is ranked first. -/
theorem head_ranked (hname : name ∈ candidates) (hlimit : 0 ≤ limit) :
    (ranked name candidates limit).head? = some name := by
  have hzero : editDistance name.toList name.toList = 0 := by
    rw [editDistance_eq, distance_self]
  have hmem : name ∈ ranked name candidates limit :=
    mem_ranked.mpr ⟨hname, close_iff.mpr (by rw [hzero]; exact hlimit)⟩
  have hsorted : (ranked name candidates limit).Pairwise _ := pairwise_ranked
  cases hranked : ranked name candidates limit with
  | nil =>
    rw [hranked] at hmem
    cases hmem
  | cons first others =>
    rw [hranked] at hmem hsorted
    rcases List.mem_cons.mp hmem with heq | hothers
    · rw [heq, List.head?_cons]
    · -- nothing is nearer to a name than itself
      rcases (List.pairwise_cons.mp hsorted).1 name hothers with hlt | ⟨heq, -⟩
      · rw [hzero] at hlt
        exact absurd hlt (Nat.not_lt_zero _)
      · rw [hzero, editDistance_eq, distance_eq_zero_iff] at heq
        rw [List.head?_cons, String.toList_inj.mp heq]

variable (name candidates limit)

/--
The names that are offered are the best three.  None is offered twice; each is a candidate within
the limit; there are three unless fewer candidates are close; they are offered by distance and
then by first occurrence, and a close candidate that is left out comes after all of them.  Listing
a candidate again changes nothing, and the name itself is offered first if it is known.
-/
theorem suggest_best :
    (suggest name candidates limit).Nodup ∧
      (∀ c ∈ suggest name candidates limit, c ∈ candidates ∧ Close limit name c) ∧
      (suggest name candidates limit).length =
        min 3 {c | c ∈ candidates ∧ Close limit name c}.ncard ∧
      (suggest name candidates limit).Pairwise (Before name candidates) ∧
      (∀ c ∈ candidates, Close limit name c → c ∉ suggest name candidates limit →
        ∀ offered ∈ suggest name candidates limit, Before name candidates offered c) ∧
      (∀ front c back, candidates = front ++ back → c ∈ front →
        suggest name (front ++ c :: back) limit = suggest name candidates limit) ∧
      (name ∈ candidates → 0 ≤ limit →
        (suggest name candidates limit).head? = some name) := by
  have hsublist : (suggest name candidates limit).Sublist (ranked name candidates limit) := by
    rw [suggest_eq_take]
    exact List.take_sublist _ _
  refine ⟨nodup_ranked.sublist hsublist, fun c hc => mem_ranked.mp (hsublist.subset hc), ?_,
    pairwise_ranked.sublist hsublist, ?_, ?_, ?_⟩
  · rw [suggest_eq_take, List.length_take, length_ranked]
  · intro c hc hclose hleft offered hoffered
    have hmem := mem_ranked.mpr ⟨hc, hclose⟩
    have hsplit : (ranked name candidates limit).Pairwise _ := pairwise_ranked
    rw [← List.take_append_drop 3 (ranked name candidates limit)] at hmem hsplit
    rw [suggest_eq_take] at hleft hoffered
    have hlast := (List.mem_append.mp hmem).resolve_left hleft
    exact (List.pairwise_append.mp hsplit).2.2 offered hoffered c hlast
  · rintro front c back rfl hc
    rw [suggest, suggest, scored_repeated hc]
  · intro hname hlimit
    rw [suggest_eq_take, List.head?_take, if_neg (by decide)]
    exact head_ranked hname hlimit

/-- The nearest name comes first, and a name that is listed twice is offered once. -/
example : suggest "lenght" ["width", "length", "height", "length"] 3 =
    ["length", "height"] := by
  cbv

end Ranking

end Names
end ScriptFront
