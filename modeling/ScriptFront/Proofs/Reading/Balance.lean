import ScriptFront.Parse.Recovery
import Mathlib.Algebra.BigOperators.Group.List.Basic
import Mathlib.Tactic.Linarith

/-!
# The balance of braces

The balance of some tokens is the number of their opening braces less that of their closing ones.
Tokens stay above a depth if no brace closes more than has been opened since; then the counter of
open braces, which never goes below zero, follows their balance.

**Results.**

* `foldl_depthAfter`: the counter of open braces follows the balance.
* `Balanced.enclose`: a matching pair of braces around balanced tokens.
* `splitAtBoundary_above`, `splitAtClose_balanced`: where skipping stops.
-/

namespace ScriptFront

/-- How a token changes the number of open braces. -/
def Token.brace (t : Token) : Int :=
  match t.kind with
  | .leftBrace => 1
  | .rightBrace => -1
  | _ => 0

/-- The number of opening braces less the number of closing ones. -/
def balance (ts : List Token) : Int :=
  (ts.map Token.brace).sum

/-- From `depth` open braces on, no brace closes more than is open. -/
def Above (depth : Int) (ts : List Token) : Prop :=
  ∀ us, us <+: ts → 0 ≤ depth + balance us

/-- Every brace has the brace that matches it. -/
structure Balanced (ts : List Token) : Prop where
  above : Above 0 ts
  total : balance ts = 0

section Counting

theorem Token.brace_of_open {t : Token} (h : t.kind = .leftBrace) : t.brace = 1 := by
  simp [Token.brace, h]

theorem Token.brace_of_close {t : Token} (h : t.kind = .rightBrace) : t.brace = -1 := by
  simp [Token.brace, h]

theorem Token.brace_of_plain {t : Token} (hopen : t.kind ≠ .leftBrace)
    (hclose : t.kind ≠ .rightBrace) : t.brace = 0 := by
  unfold Token.brace
  split
  · contradiction
  · contradiction
  · rfl

@[simp] theorem balance_nil : balance [] = 0 := rfl

@[simp] theorem balance_cons (t : Token) (ts : List Token) :
    balance (t :: ts) = t.brace + balance ts := by
  simp [balance]

@[simp] theorem balance_append (ts us : List Token) :
    balance (ts ++ us) = balance ts + balance us := by
  simp [balance]

@[simp] theorem above_nil (depth : Int) : Above depth [] ↔ 0 ≤ depth := by
  simp [Above]

@[simp] theorem above_cons (depth : Int) (t : Token) (ts : List Token) :
    Above depth (t :: ts) ↔ 0 ≤ depth ∧ Above (depth + t.brace) ts := by
  constructor
  · intro h
    refine ⟨by simpa using h [] (by simp), fun us hus => ?_⟩
    have hcons := h (t :: us) (by simpa using hus)
    rw [balance_cons, ← add_assoc] at hcons
    exact hcons
  · rintro ⟨hdepth, h⟩ us hus
    rcases List.prefix_cons_iff.mp hus with rfl | ⟨vs, rfl, hvs⟩
    · simpa using hdepth
    · have hrest := h vs hvs
      rw [balance_cons, ← add_assoc]
      exact hrest

theorem above_append (depth : Int) (ts us : List Token) :
    Above depth (ts ++ us) ↔ Above depth ts ∧ Above (depth + balance ts) us := by
  induction ts generalizing depth with
  | nil =>
    constructor
    · intro h
      exact ⟨by simpa using h [] (by simp), by simpa using h⟩
    · rintro ⟨_, h⟩
      simpa using h
  | cons t ts ih =>
    rw [List.cons_append, above_cons, above_cons, ih, balance_cons, and_assoc, add_assoc]

theorem Above.mono {d e : Int} {ts : List Token} (h : Above d ts) (hde : d ≤ e) : Above e ts := by
  intro us hus
  have hd := h us hus
  linarith

theorem Above.balance_nonneg {d : Int} {ts : List Token} (h : Above d ts) : 0 ≤ d + balance ts :=
  h ts List.prefix_rfl

/-- The counter of open braces follows the balance as long as it is above zero. -/
theorem foldl_depthAfter {depth : Nat} {ts : List Token} (h : Above depth ts) :
    ((ts.foldl depthAfter depth : Nat) : Int) = depth + balance ts := by
  induction ts generalizing depth with
  | nil => simp
  | cons t ts ih =>
    rw [above_cons] at h
    have hnext : 0 ≤ (depth : Int) + t.brace := by
      have hnone := h.2 [] List.nil_prefix
      rw [balance_nil, add_zero] at hnone
      exact hnone
    have hstep : ((depthAfter depth t : Nat) : Int) = depth + t.brace := by
      cases hk : t.kind
      case leftBrace => simp [depthAfter, hk, Token.brace_of_open hk]
      case rightBrace =>
        rw [Token.brace_of_close hk] at hnext ⊢
        simp only [depthAfter, hk]
        omega
      all_goals simp [depthAfter, Token.brace, hk]
    rw [List.foldl_cons, ih (by rw [hstep]; exact h.2), hstep, balance_cons, add_assoc]

end Counting

namespace Balanced

theorem nil : Balanced [] :=
  ⟨by simp, rfl⟩

theorem append {ts us : List Token} (ht : Balanced ts) (hu : Balanced us) :
    Balanced (ts ++ us) where
  above := by
    rw [above_append, ht.total]
    exact ⟨ht.above, hu.above⟩
  total := by rw [balance_append, ht.total, hu.total, add_zero]

theorem plain {t : Token} (hopen : t.kind ≠ .leftBrace) (hclose : t.kind ≠ .rightBrace) :
    Balanced [t] where
  above := by simp [Token.brace_of_plain hopen hclose]
  total := by simp [Token.brace_of_plain hopen hclose]

/-- A matching pair of braces around balanced tokens. -/
theorem enclose {opening closing : Token} {ts : List Token} (h : Balanced ts)
    (hopen : opening.kind = .leftBrace) (hclose : closing.kind = .rightBrace) :
    Balanced (opening :: ts ++ [closing]) where
  above := by
    rw [List.cons_append, above_cons, above_append, Token.brace_of_open hopen, h.total]
    refine ⟨le_refl _, h.above.mono (by decide), ?_⟩
    simp [Token.brace_of_close hclose]
  total := by
    simp [Token.brace_of_open hopen, Token.brace_of_close hclose, h.total]

/-- Balanced tokens leave the counter of open braces as it is. -/
theorem foldl_depthAfter {ts : List Token} (h : Balanced ts) (depth : Nat) :
    ts.foldl depthAfter depth = depth := by
  have hcount := ScriptFront.foldl_depthAfter (h.above.mono (Int.natCast_nonneg depth))
  rw [h.total, add_zero] at hcount
  exact_mod_cast hcount

end Balanced

section Skipping

/-- Skipping to a boundary closes what is open, unless the input ends. -/
theorem splitAtBoundary_above (depth : Nat) (ts : List Token) :
    Above depth (splitAtBoundary depth ts).1 ∧
      ((splitAtBoundary depth ts).2 = [] ∨ depth + balance (splitAtBoundary depth ts).1 = 0) := by
  induction ts generalizing depth with
  | nil => exact ⟨by simp [splitAtBoundary], .inl rfl⟩
  | cons t ts ih =>
    have hskip : ∀ d : Nat, (d : Int) = depth + t.brace →
        Above depth (t :: (splitAtBoundary d ts).1) ∧
          ((splitAtBoundary d ts).2 = [] ∨
            depth + balance (t :: (splitAtBoundary d ts).1) = 0) := by
      intro d hd
      obtain ⟨habove, hend⟩ := ih d
      rw [above_cons, balance_cons, ← add_assoc, ← hd]
      exact ⟨⟨Int.natCast_nonneg depth, habove⟩, hend⟩
    simp only [splitAtBoundary]
    split
    · rename_i h
      simp [h.1]
    · split
      · rename_i _ hk
        have hbrace := Token.brace_of_close hk
        split
        · rename_i h0
          simp [h0]
        · split
          · rename_i h1
            simp [h1, hbrace]
          · exact hskip (depth - 1) (by rw [hbrace]; omega)
      · rename_i _ hk
        exact hskip (depth + 1) (by rw [Token.brace_of_open hk]; omega)
      · rename_i _ hk
        have hbrace : t.brace = 0 := by simp [Token.brace, hk]
        split
        · rename_i h0
          simp [h0, hbrace]
        · exact hskip depth (by rw [hbrace]; omega)
      · rename_i _ hclose hopen _
        exact hskip depth (by rw [Token.brace_of_plain hopen hclose]; omega)

/-- Skipping to the end of a block stops behind the brace that closes it, unless the input ends. -/
theorem splitAtClose_above (depth : Nat) (ts : List Token) :
    ((splitAtClose depth ts).2 = none → Above depth (splitAtClose depth ts).1) ∧
      ((splitAtClose depth ts).2.isSome → ∃ us closing,
        (splitAtClose depth ts).1 = us ++ [closing] ∧ closing.kind = .rightBrace ∧
          Above depth us ∧ depth + balance us = 0) := by
  induction ts generalizing depth with
  | nil => simp [splitAtClose]
  | cons t ts ih =>
    have hskip : ∀ d : Nat, (d : Int) = depth + t.brace →
        ((splitAtClose d ts).2 = none → Above depth (t :: (splitAtClose d ts).1)) ∧
          ((splitAtClose d ts).2.isSome → ∃ us closing,
            t :: (splitAtClose d ts).1 = us ++ [closing] ∧ closing.kind = .rightBrace ∧
              Above depth us ∧ depth + balance us = 0) := by
      intro d hd
      obtain ⟨hopen, hclosed⟩ := ih d
      constructor
      · intro hnone
        rw [above_cons, ← hd]
        exact ⟨Int.natCast_nonneg depth, hopen hnone⟩
      · intro hsome
        obtain ⟨us, closing, hskipped, hclosing, habove, htotal⟩ := hclosed hsome
        refine ⟨t :: us, closing, by rw [hskipped, List.cons_append], hclosing, ?_, ?_⟩
        · rw [above_cons, ← hd]
          exact ⟨Int.natCast_nonneg depth, habove⟩
        · rw [balance_cons, ← add_assoc, ← hd, htotal]
    cases hk : t.kind
    case rightBrace =>
      have hbrace := Token.brace_of_close hk
      simp only [splitAtClose, hk]
      split
      · rename_i h0
        have hclosed : some ts ≠ none := Option.some_ne_none ts
        exact ⟨fun hnone => absurd hnone hclosed, fun _ => ⟨[], t, rfl, hk, by simp, by simp [h0]⟩⟩
      · exact hskip (depth - 1) (by rw [hbrace]; omega)
    case leftBrace =>
      simp only [splitAtClose, hk]
      exact hskip (depth + 1) (by rw [Token.brace_of_open hk]; omega)
    all_goals
      simp only [splitAtClose, hk]
      exact hskip depth (by rw [Token.brace_of_plain (by simp [hk]) (by simp [hk])]; omega)

end Skipping
end ScriptFront
