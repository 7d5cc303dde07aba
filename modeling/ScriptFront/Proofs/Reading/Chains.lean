import ScriptFront.Proofs.Reading.Levels

/-!
# Chains of operators

Behind an operand any number of operators may stand, each with an operand of its own, except for the
step operators, which go by one.  Such a chain is folded from the left: each operator takes
everything in front of it as its left side, whatever operators these are.

**Results.**

* `operand_of_reads`: what stands behind an operator is read as what it stands for.
* `foldOperators_of_links`: the operators of a chain are folded, and folding goes on behind them.
* `Expr.pos_chain`, `Expr.valueType_chain`: the position and the type of a chain.
-/

namespace ScriptFront

open Parse

theorem State.consumeAll_append (s : State) (ts us rest rest' : List Token) :
    (s.consumeAll ts rest').consumeAll us rest = s.consumeAll (ts ++ us) rest := by
  simp [State.consumeAll, List.foldl_append]

section Operators

/-- The operators that compare two values. -/
def Operator.isComparison : Operator → Bool
  | .eq | .ne | .lt | .lte | .gt | .gte => true
  | _ => false

/-- Negation does not stand behind an operand, so what gives a truth value there compares. -/
theorem Operator.isBoolean_of_foldable? {k : TokenKind} {op : Operator}
    (h : Operator.foldable? k = some op) : op.isBoolean = op.isComparison := by
  have hneg : op ≠ .neg := by
    rintro rfl
    exact Operator.foldable?_ne_neg k h
  cases op <;> first | rfl | exact absurd rfl hneg

/-- An assignment or a field may stand behind a variable, but none behind an operator. -/
theorem ne_of_foldable? {k : TokenKind} {op : Operator} (h : Operator.foldable? k = some op) :
    k ≠ .assign ∧ k ≠ .dot := by
  cases k <;> first | decide | cases h

end Operators

section Links

variable (vars : SymbolTable (Binding Expr))

/-- The tokens of a literal, a negative number or a variable, and what they stand for. -/
inductive ReadsOperand : List Token → Expr → Prop where
  | literal {t : Token} : t.kind = .literal → ReadsOperand [t] (.literal t.pos t.lexeme t.lit)
  | negative {minus t : Token} : minus.kind = .minus → t.kind = .literal →
    (t.lit = .number ∨ t.lit = .float) →
    ReadsOperand [minus, t] (.literal minus.pos ("-" ++ t.lexeme) t.lit)
  | reference {t : Token} {e : Entry (Binding Expr)} : t.kind = .identifier →
    vars.lookup? t.lexeme = some e → ReadsOperand [t] (.reference t.pos e.decl)

/--
The tokens of operators that stand behind an operand, and these operators with their right sides.
The step operators have no tokens on their right, and go by one.
-/
inductive Links : List Token → List (Operator × Expr) → Prop where
  | nil : Links [] []
  | step {t : Token} {op : Operator} {ts : List Token} {links : List (Operator × Expr)} :
    Operator.foldable? t.kind = some op → op.isStep = true → Links ts links →
    Links (t :: ts) ((op, .literal t.pos "1" .number) :: links)
  | operand {t : Token} {op : Operator} {us ts : List Token} {rhs : Expr}
      {links : List (Operator × Expr)} :
    Operator.foldable? t.kind = some op → op.isStep = false → ReadsOperand vars us rhs →
    Links ts links → Links (t :: (us ++ ts)) ((op, rhs) :: links)

end Links

namespace Expr

/-- Operators with their right sides behind an expression, folded from the left. -/
def chain (e : Expr) (links : List (Operator × Expr)) : Expr :=
  links.foldl (fun lhs link => .binary e.pos lhs link.1 link.2) e

variable {vars : SymbolTable (Binding Expr)} {ts : List Token} {links : List (Operator × Expr)}

@[simp] theorem chain_nil (e : Expr) : e.chain [] = e := rfl

@[simp] theorem chain_cons (e : Expr) (link : Operator × Expr) (links : List (Operator × Expr)) :
    e.chain (link :: links) = (binary e.pos e link.1 link.2).chain links := rfl

/-- All operators of a chain stand at the position of its first operand. -/
theorem pos_chain (e : Expr) (links : List (Operator × Expr)) : (e.chain links).pos = e.pos := by
  induction links generalizing e with
  | nil => rfl
  | cons link links ih => exact ih (binary e.pos e link.1 link.2)

/-- A chain gives a truth value as soon as it compares; otherwise its first operand decides. -/
theorem valueType_chain (h : Links vars ts links) (e : Expr) :
    (e.chain links).valueType =
      if links.any (fun link => link.1.isComparison) then "bool" else e.valueType := by
  induction h generalizing e with
  | nil => rfl
  | @step _ op _ links hop _ _ ih | @operand _ op _ _ _ links hop _ _ _ ih =>
    rw [chain_cons, ih, valueType, Operator.isBoolean_of_foldable? hop, List.any_cons]
    cases links.any fun link => link.1.isComparison <;> cases op.isComparison <;> rfl

end Expr

namespace Parse

/-- Whatever a step gives has the property. -/
def Yields (P : Expr → Prop) (p : Parse Expr) : Prop :=
  ∀ s e t, p s = .ok e t → P e

section Yields

variable {α : Type} {P : Expr → Prop}

theorem Yields.bind {p : Parse α} {f : α → Parse Expr} (h : ∀ a, Yields P (f a)) :
    Yields P (p >>= f) := by
  intro s e t hr
  obtain ⟨a, u, _, hf⟩ := bind_eq_ok_iff.mp hr
  exact h a u e t hf

theorem yields_pure {e : Expr} (h : P e) : Yields P (pure e) := by
  rintro s _ _ ⟨⟩
  exact h

theorem yields_fail (cause : Cause) (pos : Position) : Yields P (Parse.fail cause pos) :=
  nofun

end Yields

variable {s : State} {ts rest : List Token} {links : List (Operator × Expr)}

/-- A literal that is a number may be negated. -/
theorem negativeLiteral_of_cons {t : Token} (pos : Position) (hk : t.kind = .literal)
    (hlit : t.lit = .number ∨ t.lit = .float) (hunread : s.unread = t :: rest) :
    negativeLiteral pos s = .ok (.literal pos ("-" ++ t.lexeme) t.lit) (s.consume t rest) := by
  unfold negativeLiteral
  rw [bind_of_ok (advance_of_cons hunread), if_pos ⟨hk, hlit⟩]
  rfl

theorem operand_of_reads {us : List Token} {rhs : Expr} (h : ReadsOperand s.tables.vars us rhs)
    (hunread : s.unread = us ++ rest) : operand s = .ok rhs (s.consumeAll us rest) := by
  unfold operand
  cases h with
  | @literal t ht =>
    rw [List.cons_append, List.nil_append] at hunread
    rw [bind_of_ok (advance_of_cons hunread)]
    simp only [ht]
    rfl
  | @negative minus t hminus ht hlit =>
    rw [List.cons_append, List.cons_append, List.nil_append] at hunread
    rw [bind_of_ok (advance_of_cons hunread)]
    simp only [hminus]
    exact negativeLiteral_of_cons _ ht hlit rfl
  | @reference t e ht he =>
    rw [List.cons_append, List.nil_append] at hunread
    rw [bind_of_ok (advance_of_cons hunread)]
    simp only [ht]
    rw [bind_of_ok (show tables (s.consume t rest) = .ok s.tables _ from rfl)]
    simp only [he]
    rfl

theorem foldOperators_of_foldable {t : Token} {op : Operator} (lhs : Expr)
    (hop : Operator.foldable? t.kind = some op) (hunread : s.unread = t :: rest) :
    foldOperators lhs s = (do
      let rhs ← rightSide op t.pos
      foldOperators (.binary lhs.pos lhs op rhs)) (s.consume t rest) := by
  rw [foldOperators_eq, bind_of_ok (peek_of_cons hunread)]
  simp only [hop]
  rw [bind_of_ok (advance_of_cons hunread)]

/-- Folding stops in front of a token that is no operator, and at the end of the input. -/
theorem foldOperators_of_stop (lhs : Expr)
    (h : ∀ t ∈ s.unread.head?, Operator.foldable? t.kind = none) :
    foldOperators lhs s = .ok lhs s := by
  rw [foldOperators_eq]
  cases hunread : s.unread with
  | nil =>
    rw [bind_of_ok (peek_of_nil hunread)]
    rfl
  | cons t rest =>
    have hnone : Operator.foldable? t.kind = none := h t (by rw [hunread]; rfl)
    rw [bind_of_ok (peek_of_cons hunread)]
    simp only [hnone]
    rfl

/-- The operators of a chain are folded from the left, and folding goes on behind them. -/
theorem foldOperators_of_links (lhs : Expr) (h : Links s.tables.vars ts links)
    (hunread : s.unread = ts ++ rest) :
    foldOperators lhs s = foldOperators (lhs.chain links) (s.consumeAll ts rest) := by
  generalize hvars : s.tables.vars = vars at h
  induction h generalizing s lhs with
  | nil =>
    rw [List.nil_append] at hunread
    rw [← hunread]
    rfl
  | @step t op ts links hop hstep _ ih =>
    rw [foldOperators_of_foldable lhs hop hunread, rightSide, if_pos hstep]
    have hfold := ih (s := s.consume t (ts ++ rest))
      (.binary lhs.pos lhs op (.literal t.pos "1" .number)) rfl hvars
    exact hfold.trans (congrArg _ (State.consumeAll_append s [t] ts rest _))
  | @operand t op us ts rhs links hop hstep hus _ ih =>
    have hunread' : s.unread = t :: (us ++ (ts ++ rest)) := by
      rw [hunread, List.cons_append, List.append_assoc]
    rw [foldOperators_of_foldable lhs hop hunread', rightSide, hstep]
    have hrhs := operand_of_reads (s := s.consume t (us ++ (ts ++ rest))) (hvars ▸ hus) rfl
    have hread := State.consumeAll_append s [t] us (ts ++ rest) (us ++ (ts ++ rest))
    have hfold := ih (s := s.consumeAll (t :: us) (ts ++ rest)) (.binary lhs.pos lhs op rhs) rfl
      hvars
    rw [State.consumeAll_append] at hfold
    simp only [Bool.false_eq_true, if_false]
    exact (bind_of_ok (hrhs.trans (congrArg _ hread))).trans hfold

/-- Folding leaves an expression as it is, or gives an operation. -/
theorem foldUpTo_ok (n : Nat) {lhs e : Expr} {u : State} (h : foldUpTo n lhs s = .ok e u) :
    (e = lhs ∧ u = s) ∨ e.kind = .binary := by
  induction n generalizing lhs s with
  | zero =>
    injection h with he hu
    exact .inl ⟨he.symm, hu.symm⟩
  | succ n ih =>
    rw [foldUpTo] at h
    cases hunread : s.unread with
    | nil =>
      rw [bind_of_ok (peek_of_nil hunread)] at h
      injection h with he hu
      exact .inl ⟨he.symm, hu.symm⟩
    | cons t rest =>
      rw [bind_of_ok (peek_of_cons hunread)] at h
      cases hop : Operator.foldable? t.kind with
      | none =>
        simp only [hop] at h
        injection h with he hu
        exact .inl ⟨he.symm, hu.symm⟩
      | some op =>
        simp only [hop] at h
        obtain ⟨_, _, _, h⟩ := bind_eq_ok_iff.mp h
        obtain ⟨_, _, _, h⟩ := bind_eq_ok_iff.mp h
        rcases ih h with ⟨rfl, _⟩ | hkind
        · exact .inr rfl
        · exact .inr hkind

/-- Folding starts behind a literal. -/
theorem expr_of_literal {t : Token} (ht : t.kind = .literal) (hunread : s.unread = t :: rest) :
    expr s = foldOperators (.literal t.pos t.lexeme t.lit) (s.consume t rest) := by
  rw [expr_of_cons hunread]
  unfold exprStep
  simp only [ht]

/-- Folding starts behind a number with a minus sign. -/
theorem expr_of_negative {minus t : Token} (hminus : minus.kind = .minus)
    (ht : t.kind = .literal) (hlit : t.lit = .number ∨ t.lit = .float)
    (hunread : s.unread = minus :: t :: rest) :
    expr s = foldOperators (.literal minus.pos ("-" ++ t.lexeme) t.lit)
      (s.consumeAll [minus, t] rest) := by
  rw [expr_of_cons hunread]
  unfold exprStep
  simp only [hminus]
  exact bind_of_ok (negativeLiteral_of_cons _ ht hlit rfl)

/-- A name is resolved when it is read. -/
theorem expr_of_identifier {t : Token} (ht : t.kind = .identifier)
    (hunread : s.unread = t :: rest) :
    expr s = nameUse expr t (s.consume t rest) := by
  rw [expr_of_cons hunread]
  unfold exprStep
  simp only [ht]

/-- A variable comes before everything else that its name could stand for. -/
theorem expr_of_declared {t : Token} {e : Entry (Binding Expr)} (ht : t.kind = .identifier)
    (he : s.tables.vars.lookup? t.lexeme = some e) (hunread : s.unread = t :: rest) :
    expr s = variableUse expr t.pos e (s.consume t rest) := by
  rw [expr_of_identifier ht hunread]
  unfold nameUse
  rw [bind_of_ok (show tables (s.consume t rest) = .ok s.tables _ from rfl)]
  simp only [Tables.resolve?_of_variable he]

/-- Folding starts behind a variable that is not assigned and of which no field is meant. -/
theorem expr_of_reference {t : Token} {e : Entry (Binding Expr)} (ht : t.kind = .identifier)
    (he : s.tables.vars.lookup? t.lexeme = some e)
    (hrest : ∀ u ∈ rest.head?, u.kind ≠ .assign ∧ u.kind ≠ .dot) (hunread : s.unread = t :: rest) :
    expr s = foldOperators (.reference t.pos e.decl) (s.consume t rest) := by
  have hnot {k : TokenKind} (h : ∀ u ∈ rest.head?, u.kind ≠ k) :
      accept k (s.consume t rest) = .ok false (s.consume t rest) := by
    cases rest with
    | nil => exact accept_of_nil rfl
    | cons u rest => exact accept_of_ne rfl (h u rfl)
  rw [expr_of_declared ht he hunread]
  unfold variableUse
  rw [bind_of_ok (hnot fun u hu => (hrest u hu).1)]
  simp only [Bool.false_eq_true, if_false]
  rw [bind_of_ok (hnot fun u hu => (hrest u hu).2)]
  simp only [Bool.false_eq_true, if_false]

/-- Folding starts behind an operand. -/
theorem expr_of_operand {us : List Token} {lhs : Expr} (hus : ReadsOperand s.tables.vars us lhs)
    (hrest : ∀ t ∈ rest.head?, t.kind ≠ .assign ∧ t.kind ≠ .dot) (hunread : s.unread = us ++ rest) :
    expr s = foldOperators lhs (s.consumeAll us rest) := by
  cases hus with
  | literal ht => exact expr_of_literal ht hunread
  | negative hminus ht hlit => exact expr_of_negative hminus ht hlit hunread
  | reference ht he => exact expr_of_reference ht he hrest hunread

/-- A negation takes everything on its right. -/
theorem expr_of_not {bang : Token} {e : Expr} {u : State} (hk : bang.kind = .not)
    (hunread : s.unread = bang :: rest) (hexpr : expr (s.consume bang rest) = .ok e u) :
    expr s = .ok (.binary bang.pos e .neg (.literal bang.pos "" .none)) u := by
  rw [expr_of_cons hunread]
  unfold exprStep
  simp only [hk]
  exact bind_of_ok hexpr

end Parse
end ScriptFront
