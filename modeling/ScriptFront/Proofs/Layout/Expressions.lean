import ScriptFront.Proofs.Layout.Settings

/-!
# Expressions within a setting

Every reader of expressions does the same within a setting.  The readers are given by what stands
inside of them, so for each of them it is shown from the same of the readers that it asks; the
expressions inside of an expression come after its first token, and so have fewer tokens left.

**Results.**

* `mirrors_exprStep`: an expression whose first token has been read.
* `mirrors_expr`: any expression.
-/

namespace ScriptFront

open Parse

variable {m : Setting} {n : Nat}

section Parts

theorem mirrors_negativeLiteral (pos : Position) :
    Mirrors m n (Expr.moved m.place) (negativeLiteral pos) (negativeLiteral (m.place pos)) := by
  exact mirrors_advance.bind fun t => .ite .rfl (mirrors_pure rfl) (mirrors_fail rfl rfl)

theorem mirrors_operand : Mirrors m n (Expr.moved m.place) operand operand := by
  refine mirrors_advance.bind fun t => ?_
  simp only [Token.moved]
  split
  · exact mirrors_pure rfl
  · exact mirrors_negativeLiteral t.pos
  · refine mirrors_tables.bind fun known => ?_
    rw [Tables.lookup?_vars_moved]
    cases known.vars.lookup? t.lexeme with
    | none => exact mirrors_fail (by rw [Tables.names_vars_moved]) rfl
    | some e => exact mirrors_pure rfl
  · exact mirrors_fail rfl rfl
  · exact mirrors_fail rfl rfl

theorem mirrors_rightSide (op : Operator) (pos : Position) :
    Mirrors m n (Expr.moved m.place) (rightSide op pos) (rightSide op (m.place pos)) := by
  exact .ite .rfl (mirrors_pure rfl) mirrors_operand

theorem mirrors_foldUpTo (k : Nat) (lhs : Expr) :
    Mirrors m n (Expr.moved m.place) (foldUpTo k lhs) (foldUpTo k (lhs.moved m.place)) := by
  induction k generalizing lhs with
  | zero => exact mirrors_pure rfl
  | succ k ih =>
    refine mirrors_peek.bind fun next => ?_
    cases next with
    | none => exact mirrors_pure rfl
    | some t =>
      simp only [Option.map_some, Token.moved]
      cases Operator.foldable? t.kind with
      | none => exact mirrors_pure rfl
      | some op =>
        refine mirrors_advance.bind fun _ => (mirrors_rightSide op t.pos).bind fun rhs => ?_
        rw [Expr.moved_pos]
        exact ih _

theorem mirrors_foldOperators (lhs : Expr) :
    Mirrors m n (Expr.moved m.place) (foldOperators lhs) (foldOperators (lhs.moved m.place)) :=
  .bounded (steady_foldUpTo lhs) fun k => mirrors_foldUpTo k lhs

/-- A variable is bound to its instance with another value in one of the fields. -/
theorem mirrors_rebindField {α β : Type} {g : α → β} {p : Parse α} {q : Parse β}
    (e : Entry (Binding Expr)) (value : Instance Expr) (name : String) (newValue : Expr)
    (hp : Mirrors m n g p q) :
    Mirrors m n g
      (do
        let current ← currentBinding e
        rebind e (.structInstance current.value.pos ((value.withField? name newValue).getD value))
        p)
      (do
        let current ← currentBinding (e.map (Binding.map (Expr.moved m.place)))
        rebind (e.map (Binding.map (Expr.moved m.place))) (.structInstance current.value.pos
          (((value.map (Expr.moved m.place)).withField? name (newValue.moved m.place)).getD
            (value.map (Expr.moved m.place))))
        q) := by
  refine (mirrors_currentBinding e).bind fun current => ?_
  have hinstance : Expr.structInstance (current.map (Expr.moved m.place)).value.pos
      (((value.map (Expr.moved m.place)).withField? name (newValue.moved m.place)).getD
        (value.map (Expr.moved m.place))) =
      (Expr.structInstance current.value.pos
        ((value.withField? name newValue).getD value)).moved m.place := by
    rw [Expr.moved_structInstance, Instance.withField?_map, Option.getD_map]
    exact congrArg (Expr.structInstance · _) (Expr.moved_pos ..)
  rw [hinstance]
  exact (mirrors_rebind e _).bind fun _ => hp

end Parts

section Compounds

variable (he : Mirrors m n (Expr.moved m.place) expr expr)
include he

theorem mirrors_commaSeparated (k : Nat) :
    Mirrors m n (List.map (Expr.moved m.place)) (commaSeparated expr k)
      (commaSeparated expr k) := by
  induction k with
  | zero => exact he.bind fun _ => mirrors_pure rfl
  | succ k ih =>
    exact he.bind fun _ => (mirrors_accept _).choose (ih.bind fun _ => mirrors_pure rfl)
      (mirrors_pure rfl)

theorem mirrors_callValues :
    Mirrors m n (List.map (Expr.moved m.place)) (callValues expr) (callValues expr) :=
  (mirrors_check _).choose (mirrors_pure rfl)
    (.bounded steady_commaSeparated (mirrors_commaSeparated he))

theorem mirrors_callArgs (callee : Proc Expr) (pos : Position) :
    Mirrors m n (List.map (Binding.map (Expr.moved m.place))) (callArgs expr callee pos)
      (callArgs expr (callee.map m.place (Expr.moved m.place)) (m.place pos)) := by
  refine (mirrors_expect _).bind fun _ => (mirrors_callValues he).bind fun values =>
    (mirrors_expect _).bind fun _ => ?_
  rw [List.length_map]
  refine .ite .rfl (mirrors_fail rfl rfl) (mirrors_pure ?_)
  rw [List.zipWith_map_right, List.map_zipWith]
  rfl

theorem mirrors_literalFields (struct : String) (declared : List TypedName) :
    Mirrors m n (List.map (Binding.map (Expr.moved m.place))) (literalFields expr struct declared)
      (literalFields expr struct declared) := by
  induction declared with
  | nil =>
    exact (mirrors_check _).choose (mirrors_pure rfl)
      ((mirrors_expect _).bind fun _ => mirrors_fail rfl rfl)
  | cons field others ih =>
    exact (mirrors_check _).choose (mirrors_pure rfl) ((mirrors_expect _).bind fun t =>
      .ite .rfl (mirrors_fail rfl rfl) ((mirrors_expect _).bind fun _ => he.bind fun _ =>
        (mirrors_accept _).choose (ih.bind fun _ => mirrors_pure rfl) (mirrors_pure rfl)))

theorem mirrors_structLiteral (pos : Position) (struct : StructDef) :
    Mirrors m n (Expr.moved m.place) (structLiteral expr pos struct)
      (structLiteral expr (m.place pos) struct) := by
  refine (mirrors_expect _).bind fun _ => (mirrors_literalFields he _ _).bind fun fields =>
    (mirrors_expect _).bind fun _ => ?_
  rw [List.length_map]
  exact .ite .rfl (mirrors_fail rfl rfl)
    (mirrors_pure (Expr.moved_structInstance m.place pos ⟨struct, fields⟩).symm)

theorem mirrors_structUse (pos : Position) (struct : StructDef) :
    Mirrors m n (Expr.moved m.place) (structUse expr pos struct)
      (structUse expr (m.place pos) struct) := by
  refine (mirrors_accept _).choose ((mirrors_expect _).bind fun name =>
    mirrors_tables.bind fun known => ?_) (mirrors_structLiteral he pos struct)
  rw [Tables.lookup?_impls_moved]
  cases known.impls.lookup? struct.name with
  | none => exact mirrors_fail rfl rfl
  | some e =>
    simp only [Option.map_some, Entry.map, Impl.proc?_map, Token.moved]
    cases e.decl.proc? name.lexeme with
    | none => exact mirrors_fail rfl rfl
    | some callee =>
      refine (mirrors_callArgs he callee name.pos).bind fun args => ?_
      have hfold := mirrors_foldOperators (m := m) (n := n)
        (.implCall pos e.id e.decl.struct.name callee args)
      rw [Expr.moved_implCall] at hfold
      exact hfold

theorem mirrors_fieldUse (pos : Position) (e : Entry (Binding Expr)) :
    Mirrors m n (Expr.moved m.place) (fieldUse expr pos e)
      (fieldUse expr (m.place pos) (e.map (Binding.map (Expr.moved m.place)))) := by
  refine (mirrors_expect _).bind fun name => ?_
  simp only [Entry.map, Binding.map, Expr.moved_instance?, Token.moved]
  cases e.decl.value.instance? with
  | none => exact mirrors_fail rfl rfl
  | some value =>
    simp only [Option.map_some, Instance.field?_map]
    cases value.field? name.lexeme with
    | none => exact mirrors_fail rfl rfl
    | some field =>
      refine (mirrors_accept _).choose (he.bind fun newValue => ?_) (mirrors_foldOperators _)
      exact mirrors_rebindField e value name.lexeme newValue
        ((mirrors_currentBinding e).bind fun _ => mirrors_pure rfl)

theorem mirrors_variableUse (pos : Position) (e : Entry (Binding Expr)) :
    Mirrors m n (Expr.moved m.place) (variableUse expr pos e)
      (variableUse expr (m.place pos) (e.map (Binding.map (Expr.moved m.place)))) :=
  (mirrors_accept _).choose
    (he.bind fun _ => (mirrors_currentBinding e).bind fun _ => mirrors_pure rfl)
    ((mirrors_accept _).choose (mirrors_fieldUse he pos e) (mirrors_foldOperators _))

theorem mirrors_nameUse (t : Token) :
    Mirrors m n (Expr.moved m.place) (nameUse expr t) (nameUse expr (t.moved m.place)) := by
  refine mirrors_tables.bind fun known => ?_
  simp only [Token.moved, Tables.resolve?_moved, Tables.visibleNames_moved]
  cases known.resolve? t.lexeme with
  | none => exact mirrors_fail rfl rfl
  | some symbol =>
    cases symbol with
    | «variable» e => exact mirrors_variableUse he t.pos e
    | procedure e =>
      refine (mirrors_callArgs he e.decl t.pos).bind fun args => ?_
      have hfold := mirrors_foldOperators (m := m) (n := n) (.call t.pos e.decl args)
      rw [Expr.moved_call] at hfold
      exact hfold
    | struct e => exact mirrors_structUse he t.pos e.decl
    | impl e => exact mirrors_fail rfl rfl

/-- An expression whose first token has been read. -/
theorem mirrors_exprStep (t : Token) :
    Mirrors m n (Expr.moved m.place) (exprStep expr t) (exprStep expr (t.moved m.place)) := by
  unfold exprStep
  simp only [Token.moved]
  split
  · exact mirrors_foldOperators _
  · exact mirrors_nameUse he t
  · exact he.bind fun _ => mirrors_pure rfl
  · exact (mirrors_negativeLiteral t.pos).bind fun lit => mirrors_foldOperators lit
  · exact mirrors_fail rfl rfl
  · exact mirrors_fail rfl rfl

end Compounds

theorem mirrors_expr : Mirrors m n (Expr.moved m.place) expr expr := by
  -- The expressions inside of an expression have fewer tokens left, since its first one is read.
  induction n using Nat.strongRecOn with
  | ind n ih =>
    intro s hs
    rw [expr_eq]
    refine (mirrors_advance s hs).bind fun t u hu _ => ?_
    obtain ⟨rest, hunread, rfl⟩ := advance_eq_ok_iff.mp hu
    exact mirrors_exprStep (ih rest.length (hs.lt hunread)) t _ (.consume t rest)

theorem mirrors_exprFrom (t : Token) :
    Mirrors m n (Expr.moved m.place) (exprFrom t) (exprFrom (t.moved m.place)) := by
  rw [exprFrom_eq, exprFrom_eq]
  exact mirrors_exprStep mirrors_expr t

end ScriptFront
