import ScriptFront.Proofs.Reading.Later

/-!
# As many levels as there are unread tokens

The recursive readers are given a number of levels, and they read with as many levels as there are
unread tokens.  Each level reads a token before it goes to the next one, so more levels change
nothing.  Hence the readers satisfy the equations of the recursion in which no levels are counted.

**Algorithm.** `Levels F p` says that the reader `p` of `n + 1` levels is `F` of the reader of `n`
levels, and that `F` asks the reader it is given only after it has read a token.  Two numbers of
levels are compared by induction on the smaller one.

**Results.**

* `Levels.steady`: any number of levels that is no less than the number of unread tokens will do.
* `Levels.bounded_eq`: with as many levels as there are tokens, the reader is `F` of itself.
* `expr_eq`, `foldOperators_eq`, `body_eq` and others: the equations of the recursion.
-/

namespace ScriptFront
namespace Parse

variable {ι α β : Type}

/-- As many levels as there are unread tokens, or more, all do the same. -/
def Steady (p : Nat → Parse α) : Prop :=
  ∀ n s, s.unread.length ≤ n → p n s = bounded p s

/-- A reader given by levels, each of which is `F` of the level below it. -/
structure Levels (F : (ι → Parse α) → ι → Parse α) (p : Nat → ι → Parse α) : Prop where
  later (n m : Nat) (i : ι) : (readingLaw n).Relates (p m i) (p m i)
  succ (n : Nat) (i : ι) : p (n + 1) i = F (p n) i
  zero (q : ι → Parse α) (i : ι) (s : State) : s.unread = [] → p 0 i s = F q i s
  /-- The level below is asked only when a token has been read. -/
  step {n : Nat} {q r : ι → Parse α} :
    (∀ i, (readingLaw n).Relates (q i) (r i)) → ∀ i s, s.unread.length ≤ n → F q i s = F r i s

namespace Levels

variable {F : (ι → Parse α) → ι → Parse α} {p : Nat → ι → Parse α}

theorem eq_of_le (h : Levels F p) {n m : Nat} (hnm : n ≤ m) (i : ι) {s : State}
    (hs : s.unread.length ≤ n) : p n i s = p m i s := by
  induction n generalizing m i s with
  | zero =>
    have hnil : s.unread = [] := List.length_eq_zero_iff.mp (Nat.le_zero.mp hs)
    cases m with
    | zero => rfl
    | succ m =>
      rw [h.succ]
      exact h.zero _ i _ hnil
  | succ n ih =>
    obtain ⟨k, rfl⟩ : ∃ k, m = k + 1 := ⟨m - 1, by omega⟩
    rw [h.succ, h.succ]
    refine h.step (n := n + 1) (fun j t ht => ⟨?_, (h.later (n + 1) n j).after ht⟩) i s hs
    exact ih (Nat.le_of_succ_le_succ hnm) j (Nat.le_of_lt_succ ht)

theorem steady (h : Levels F p) (i : ι) : Steady fun n => p n i :=
  fun _ _ hs => (h.eq_of_le hs i (Nat.le_refl _)).symm

/-- With as many levels as there are tokens, the reader is `F` of itself. -/
theorem bounded_eq (h : Levels F p) (i : ι) :
    bounded (fun n => p n i) = F (fun j => bounded fun n => p n j) i := by
  funext s
  have hnext : bounded (fun n => p n i) s = p (s.unread.length + 1) i s :=
    h.eq_of_le (Nat.le_succ _) i (Nat.le_refl _)
  rw [hnext, h.succ]
  refine h.step (n := s.unread.length) (fun j t ht => ⟨?_, (h.later _ _ j).after ht⟩) i s
    (Nat.le_refl _)
  exact h.steady j _ t (Nat.le_of_lt ht)

end Levels

/-- Two steps that read a token first are the same if they are so on the tokens after it. -/
theorem advance_bind_eq {n : Nat} {f g : Token → Parse α}
    (h : ∀ t, (readingLaw n).Relates (f t) (g t)) {s : State} (hs : s.unread.length ≤ n) :
    (advance >>= f) s = (advance >>= g) s := by
  refine bind_congr_of_ok fun t s' ht => ?_
  obtain ⟨rest, hunread, rfl⟩ := advance_eq_ok_iff.mp ht
  refine (h t).eq ?_
  rw [hunread, List.length_cons] at hs
  exact hs

/-- After a token that is asked for, two steps are the same if they are so on fewer tokens. -/
theorem accept_bind_eq {n : Nat} {k : TokenKind} {q r : Parse α} {f : α → Parse β}
    {others : Parse β} (h : (readingLaw n).Relates q r) {s : State} (hs : s.unread.length ≤ n) :
    (do if ← accept k then f (← q) else others) s =
      (do if ← accept k then f (← r) else others) s := by
  rcases accept_eq (k := k) s with ⟨t, rest, hunread, _, haccept⟩ | ⟨_, haccept⟩
  · rw [bind_of_ok haccept, bind_of_ok haccept]
    have heq : q (s.consume t rest) = r (s.consume t rest) := by
      refine h.eq ?_
      rw [hunread, List.length_cons] at hs
      exact hs
    simp only [if_true, bind, EStateM.bind, heq]
  · rw [bind_of_ok haccept, bind_of_ok haccept]
    rfl

section Expressions

theorem levels_exprUpTo :
    Levels (fun q (_ : Unit) => do exprStep (q ()) (← advance)) fun n _ => exprUpTo n where
  later n m _ := StepLaw.relates_exprUpTo m
  succ _ _ := rfl
  zero q _ s hs := by
    rw [bind_of_error (advance_of_nil hs)]
    rfl
  step h _ _ hs := advance_bind_eq (fun t => StepLaw.relates_exprStep (h ()) t) hs

theorem steady_exprUpTo : Steady exprUpTo :=
  levels_exprUpTo.steady ()

/-- An expression starts with its first token. -/
theorem expr_eq : expr = (do exprStep expr (← advance)) :=
  levels_exprUpTo.bounded_eq ()

theorem expr_of_cons {s : State} {t : Token} {rest : List Token}
    (h : s.unread = t :: rest) :
    expr s = exprStep expr t (s.consume t rest) :=
  calc
    expr s = (do exprStep expr (← advance)) s := congrFun expr_eq s
    _ = exprStep expr t (s.consume t rest) := bind_of_ok (advance_of_cons h)

theorem exprFrom_eq (t : Token) : exprFrom t = exprStep expr t := by
  funext s
  refine (StepLaw.relates_exprStep (L := readingLaw (s.unread.length + 1)) ?_ t).eq
    (Nat.lt_succ_self _)
  intro u hu
  exact ⟨steady_exprUpTo _ u (Nat.le_of_lt_succ hu), (StepLaw.relates_exprUpTo _).after hu⟩

/-- There is no expression at the end of the input. -/
theorem expr_of_nil {s : State} (hs : s.unread = []) :
    expr s = failAtEnd (.words "more input") s := by
  rw [expr_eq, bind_of_error (advance_of_nil hs)]
  rfl

theorem levels_foldUpTo :
    Levels (fun q lhs => do
      match ← peek with
      | none => return lhs
      | some t =>
        match Operator.foldable? t.kind with
        | none => return lhs
        | some op => do
          let _ ← advance
          let rhs ← rightSide op t.pos
          q (.binary lhs.pos lhs op rhs)) foldUpTo where
  later _ _ lhs := StepLaw.relates_foldUpTo _ lhs
  succ _ _ := rfl
  zero q lhs s hs := by
    rw [bind_of_ok (peek_of_nil hs)]
    rfl
  step {n q r} h lhs s hs := by
    cases hunread : s.unread with
    | nil => rw [bind_of_ok (peek_of_nil hunread), bind_of_ok (peek_of_nil hunread)]
    | cons t rest =>
      rw [bind_of_ok (peek_of_cons hunread), bind_of_ok (peek_of_cons hunread)]
      cases hop : Operator.foldable? t.kind with
      | none => simp only [hop]
      | some op =>
        simp only [hop]
        exact advance_bind_eq (fun _ => (StepLaw.relates_rightSide _ _).bind fun rhs => h _) hs

theorem steady_foldUpTo (lhs : Expr) : Steady fun n => foldUpTo n lhs :=
  levels_foldUpTo.steady lhs

/-- Folding goes on as long as there is an operator. -/
theorem foldOperators_eq (lhs : Expr) : foldOperators lhs = (do
    match ← peek with
    | none => return lhs
    | some t =>
      match Operator.foldable? t.kind with
      | none => return lhs
      | some op => do
        let _ ← advance
        let rhs ← rightSide op t.pos
        foldOperators (.binary lhs.pos lhs op rhs)) :=
  levels_foldUpTo.bounded_eq lhs

theorem levels_commaSeparated :
    Levels (fun q (_ : Unit) => do
      let e ← expr
      if ← accept .comma then
        return e :: (← q ())
      else
        return [e]) fun n _ => commaSeparated expr n where
  later _ m _ := StepLaw.relates_commaSeparated StepLaw.relates_expr m
  succ _ _ := rfl
  zero q _ s hs := by
    have herr := expr_of_nil hs
    exact (bind_of_error herr).trans (bind_of_error herr).symm
  step h _ s hs := by
    refine bind_congr_of_ok fun e s' he => accept_bind_eq (h ()) ?_
    exact Nat.le_trans (later_of_expr he).length_le hs

theorem steady_commaSeparated : Steady (commaSeparated expr) :=
  levels_commaSeparated.steady ()

/-- Values are separated by commas. -/
theorem commaSeparated_eq : bounded (commaSeparated expr) = (do
    let e ← expr
    if ← accept .comma then
      return e :: (← bounded (commaSeparated expr))
    else
      return [e]) :=
  levels_commaSeparated.bounded_eq ()

end Expressions

section Simple

theorem typedName_of_nil {s : State} (hs : s.unread = []) :
    typedName s = failAtEnd (.kind .identifier) s :=
  bind_of_error (expect_of_nil hs)

theorem levels_typedNames :
    Levels (fun q (_ : Unit) => do
      let first ← typedName
      if ← accept .comma then
        return first :: (← q ())
      else
        return [first]) fun n _ => typedNames n where
  later _ m _ := StepLaw.relates_typedNames m
  succ _ _ := rfl
  zero q _ s hs := by
    have herr := typedName_of_nil hs
    exact (bind_of_error herr).trans (bind_of_error herr).symm
  step h _ s hs := by
    refine bind_congr_of_ok fun first s' hfirst => accept_bind_eq (h ()) ?_
    exact Nat.le_trans (later_of_ok (fun _ => StepLaw.relates_typedName) hfirst).length_le hs

theorem steady_typedNames : Steady typedNames :=
  levels_typedNames.steady ()

/-- Parameters are separated by commas. -/
theorem typedNames_eq : bounded typedNames = (do
    let first ← typedName
    if ← accept .comma then
      return first :: (← bounded typedNames)
    else
      return [first]) :=
  levels_typedNames.bounded_eq ()

theorem levels_structFields :
    Levels (fun q (_ : Unit) => do
      if ← check .rightBrace then
        return []
      else
        let first ← typedName
        if ← accept .comma then
          return first :: (← q ())
        else
          return [first]) fun n _ => structFields n where
  later _ m _ := StepLaw.relates_structFields m
  succ _ _ := rfl
  zero q _ s hs := by
    have herr := typedName_of_nil hs
    rw [bind_of_ok (check_of_nil hs)]
    exact (bind_of_error herr).trans (bind_of_error herr).symm
  step {n _ _} h _ s hs := by
    refine bind_congr_of_ok fun closed s' hcheck => ?_
    have hs' : s'.unread.length ≤ n :=
      Nat.le_trans (later_of_ok (fun _ => StepLaw.relates_check _) hcheck).length_le hs
    cases closed with
    | true => rfl
    | false =>
      refine bind_congr_of_ok fun first s'' hfirst => accept_bind_eq (h ()) ?_
      exact Nat.le_trans (later_of_ok (fun _ => StepLaw.relates_typedName) hfirst).length_le hs'

theorem steady_structFields : Steady structFields :=
  levels_structFields.steady ()

/-- The fields of a struct end in front of a brace. -/
theorem structFields_eq : bounded structFields = (do
    if ← check .rightBrace then
      return []
    else
      let first ← typedName
      if ← accept .comma then
        return first :: (← bounded structFields)
      else
        return [first]) :=
  levels_structFields.bounded_eq ()

end Simple
end Parse
end ScriptFront
