import ScriptFront.Proofs.Reading.Chains
import ScriptFront.Proofs.Values.Assignments

/-!
# What stands in front of a chain of operators

A chain of operators starts with a literal, a negative number, a variable, a call of a procedure, a
call of a procedure of an impl block or a field of a variable.  All of them end where the first
operator may stand, so the whole chain is folded behind them.

**Results.**

* `Parse.expr_of_primary`: folding starts right behind the first operand.
* `expr_of_chain`: the expression that is read for a first operand and the operators behind it.
-/

namespace ScriptFront

open Parse

/--
The next tokens are an operand that may stand in front of operators, it stands for this expression,
and reading it leads to this state.  What follows a variable or a field must not make it the target
of an assignment, nor give a variable a field.
-/
inductive State.ReadsPrimary (s : State) : Expr → State → Prop where
  | literal {t : Token} {rest : List Token} : s.unread = t :: rest → t.kind = .literal →
    s.ReadsPrimary (.literal t.pos t.lexeme t.lit) (s.consume t rest)
  | negative {minus t : Token} {rest : List Token} : s.unread = minus :: t :: rest →
    minus.kind = .minus → t.kind = .literal → (t.lit = .number ∨ t.lit = .float) →
    s.ReadsPrimary (.literal minus.pos ("-" ++ t.lexeme) t.lit) (s.consumeAll [minus, t] rest)
  | reference {t : Token} {e : Entry (Binding Expr)} {rest : List Token} : s.unread = t :: rest →
    t.kind = .identifier → s.tables.vars.lookup? t.lexeme = some e →
    (∀ u ∈ rest.head?, u.kind ≠ .assign ∧ u.kind ≠ .dot) →
    s.ReadsPrimary (.reference t.pos e.decl) (s.consume t rest)
  | call {t : Token} {e : Entry (Proc Expr)} {rest : List Token} {args : List (Binding Expr)}
      {u : State} : s.unread = t :: rest → t.kind = .identifier →
    s.tables.resolve? t.lexeme = some (.procedure e) →
    callArgs expr e.decl t.pos (s.consume t rest) = .ok args u →
    s.ReadsPrimary (.call t.pos e.decl args) u
  | implCall {t colons method : Token} {struct : Entry StructDef} {block : Entry (Impl Expr)}
      {callee : Proc Expr} {rest : List Token} {args : List (Binding Expr)} {u : State} :
    s.unread = t :: colons :: method :: rest → t.kind = .identifier →
    colons.kind = .doubleColon → method.kind = .identifier →
    s.tables.resolve? t.lexeme = some (.struct struct) →
    s.tables.impls.lookup? struct.decl.name = some block →
    block.decl.proc? method.lexeme = some callee →
    callArgs expr callee method.pos (s.consumeAll [t, colons, method] rest) = .ok args u →
    s.ReadsPrimary (.implCall t.pos block.id block.decl.struct.name callee args) u
  | field {t point name : Token} {e : Entry (Binding Expr)} {v : Instance Expr} {b : Binding Expr}
      {rest : List Token} : s.unread = t :: point :: name :: rest → t.kind = .identifier →
    point.kind = .dot → name.kind = .identifier → s.tables.vars.lookup? t.lexeme = some e →
    e.decl.value.instance? = some v → v.field? name.lexeme = some b →
    (∀ u ∈ rest.head?, u.kind ≠ .assign) →
    s.ReadsPrimary (.fieldAccess t.pos e.decl b) (s.consumeAll [t, point, name] rest)

namespace Parse

variable {s u : State} {rest : List Token} {args : List (Binding Expr)}

/-- Folding starts behind the arguments of a call. -/
theorem expr_of_call {t : Token} {e : Entry (Proc Expr)} (ht : t.kind = .identifier)
    (hunread : s.unread = t :: rest) (he : s.tables.resolve? t.lexeme = some (.procedure e))
    (hargs : callArgs expr e.decl t.pos (s.consume t rest) = .ok args u) :
    expr s = foldOperators (.call t.pos e.decl args) u := by
  have htables : tables (s.consume t rest) = .ok s.tables (s.consume t rest) := rfl
  rw [expr_of_identifier ht hunread]
  unfold nameUse
  rw [bind_of_ok htables]
  simp only [he]
  exact bind_of_ok hargs

/-- Folding starts behind the arguments of a call of a procedure of an impl block. -/
theorem expr_of_implCall {t colons method : Token} {struct : Entry StructDef}
    {block : Entry (Impl Expr)} {callee : Proc Expr} (ht : t.kind = .identifier)
    (hcolons : colons.kind = .doubleColon) (hmethod : method.kind = .identifier)
    (hunread : s.unread = t :: colons :: method :: rest)
    (hstruct : s.tables.resolve? t.lexeme = some (.struct struct))
    (hblock : s.tables.impls.lookup? struct.decl.name = some block)
    (hcallee : block.decl.proc? method.lexeme = some callee)
    (hargs : callArgs expr callee method.pos (s.consumeAll [t, colons, method] rest) =
      .ok args u) :
    expr s = foldOperators (.implCall t.pos block.id block.decl.struct.name callee args) u := by
  have htables : tables (s.consume t (colons :: method :: rest)) =
    .ok s.tables (s.consume t (colons :: method :: rest)) := rfl
  have himpls : tables (s.consumeAll [t, colons, method] rest) =
    .ok s.tables (s.consumeAll [t, colons, method] rest) := rfl
  rw [expr_of_identifier ht hunread]
  unfold nameUse
  rw [bind_of_ok htables]
  simp only [hstruct]
  unfold structUse
  rw [bind_of_ok (accept_of_eq rfl hcolons)]
  simp only [if_true]
  rw [bind_of_ok (expect_of_cons rfl hmethod)]
  refine (bind_of_ok himpls).trans ?_
  simp only [hblock, hcallee]
  exact bind_of_ok hargs

/-- Folding starts right behind the first operand. -/
theorem expr_of_primary {e : Expr} (h : s.ReadsPrimary e u) : expr s = foldOperators e u := by
  cases h with
  | literal hunread ht => exact expr_of_literal ht hunread
  | negative hunread hminus ht hlit => exact expr_of_negative hminus ht hlit hunread
  | reference hunread ht he hrest => exact expr_of_reference ht he hrest hunread
  | call hunread ht he hargs => exact expr_of_call ht hunread he hargs
  | implCall hunread ht hcolons hmethod hstruct hblock hcallee hargs =>
    exact expr_of_implCall ht hcolons hmethod hunread hstruct hblock hcallee hargs
  | field hunread ht hpoint hname he hv hb hrest =>
    exact expr_of_access hunread ht hpoint hname hrest he hv hb

end Parse

/--
Operators behind a first operand, in front of a token that is no operator or of the end of the
input, are read in one go.  The result is folded from the left, and every operator of it stands at
the position of the first operand.  It gives a truth value if one of the operators compares, and
otherwise what the first operand gives.  The tokens of the operators are read and nothing else
changes.  A negation in front of the whole takes all of it.
-/
theorem expr_of_chain {s u : State} {e : Expr} {ts rest : List Token}
    {links : List (Operator × Expr)} (hprimary : s.ReadsPrimary e u)
    (hlinks : Links u.tables.vars ts links) (hunread : u.unread = ts ++ rest)
    (hrest : ∀ t ∈ rest.head?, Operator.foldable? t.kind = none) :
    expr s = .ok (e.chain links) (u.consumeAll ts rest) ∧
      (e.chain links).pos = e.pos ∧
      (e.chain links).valueType =
        (if links.any (fun link => link.1.isComparison) then "bool" else e.valueType) ∧
      ∀ (r : State) (bang : Token), bang.kind = .not → r.unread = bang :: s.unread →
        r.consume bang s.unread = s →
        expr r = .ok (.binary bang.pos (e.chain links) .neg (.literal bang.pos "" .none))
          (u.consumeAll ts rest) := by
  have hchain : expr s = .ok (e.chain links) (u.consumeAll ts rest) := by
    rw [expr_of_primary hprimary, foldOperators_of_links e hlinks hunread]
    exact foldOperators_of_stop _ hrest
  refine ⟨hchain, e.pos_chain links, Expr.valueType_chain hlinks e, ?_⟩
  intro r bang hbang hr hs
  exact expr_of_not hbang hr (hs.symm ▸ hchain)

/-- A field with four operators behind it, the second of which takes a negative number. -/
theorem expr_of_chain_field :
    ∃ (r w : State) (e : Expr) (links : List (Operator × Expr)),
      r.unread.map Token.lexeme =
        ["!", "p", ".", "a", "++", "-", "-", "2", "*", "n", "<", "3", ";"] ∧
      e.kind = .fieldAccess ∧ e.valueType = "i32" ∧ links.map Prod.fst = [.inc, .sub, .mul, .lt] ∧
      expr r = .ok (.binary ⟨"p", 0, 49⟩ (e.chain links) .neg (.literal ⟨"p", 0, 49⟩ "" .none)) w ∧
      (e.chain links).valueType = "bool" ∧ w.unread.map Token.lexeme = [";"] := by
  let s₀ := State.ofSource "p"
    "struct P { a: i32 } let p = P { a: 1 } let n = 2 !p.a ++ - -2 * n < 3;".toList
  let r := (statement (statement (statement s₀).2).2).2
  let bang : Token := ⟨.not, "!", ⟨"p", 0, 49⟩, .none⟩
  let t : Token := ⟨.identifier, "p", ⟨"p", 0, 50⟩, .none⟩
  let point : Token := ⟨.dot, ".", ⟨"p", 0, 51⟩, .none⟩
  let name : Token := ⟨.identifier, "a", ⟨"p", 0, 52⟩, .none⟩
  let operators : List Token := [⟨.increment, "++", ⟨"p", 0, 54⟩, .none⟩,
    ⟨.minus, "-", ⟨"p", 0, 57⟩, .none⟩, ⟨.minus, "-", ⟨"p", 0, 59⟩, .none⟩,
    ⟨.literal, "2", ⟨"p", 0, 60⟩, .number⟩, ⟨.multiply, "*", ⟨"p", 0, 62⟩, .none⟩,
    ⟨.identifier, "n", ⟨"p", 0, 64⟩, .none⟩, ⟨.lessThan, "<", ⟨"p", 0, 66⟩, .none⟩,
    ⟨.literal, "3", ⟨"p", 0, 68⟩, .number⟩]
  let semi : Token := ⟨.semicolon, ";", ⟨"p", 0, 69⟩, .none⟩
  let s := r.consume bang (t :: point :: name :: (operators ++ [semi]))
  have hr : r.unread = bang :: s.unread := by decide +kernel
  have hfield : ((s.tables.vars.lookup? "p").bind fun e => e.decl.value.instance?.bind
      fun v => v.field? "a").isSome := by decide +kernel
  have htype : ((s.tables.vars.lookup? "p").bind fun e => e.decl.value.instance?.bind
      fun v => (v.field? "a").map Binding.typeName) = some "i32" := by decide +kernel
  obtain ⟨b, hb⟩ := Option.isSome_iff_exists.mp hfield
  obtain ⟨e, he, hb⟩ := Option.bind_eq_some_iff.mp hb
  obtain ⟨v, hv, hb⟩ := Option.bind_eq_some_iff.mp hb
  obtain ⟨n, hn⟩ : ∃ n, s.tables.vars.lookup? "n" = some n :=
    Option.isSome_iff_exists.mp (by decide +kernel)
  simp only [he, hv, hb, Option.bind_some, Option.map_some, Option.some.injEq] at htype
  have hprimary : s.ReadsPrimary (.fieldAccess t.pos e.decl b)
      (s.consumeAll [t, point, name] (operators ++ [semi])) :=
    .field rfl rfl rfl rfl he hv hb (by decide)
  have hnegative : ReadsOperand s.tables.vars [operators[2], operators[3]] _ :=
    .negative rfl rfl (.inl rfl)
  have hvariable : ReadsOperand s.tables.vars [operators[5]] _ := .reference rfl hn
  have hliteral : ReadsOperand s.tables.vars [operators[7]] _ := .literal rfl
  have hlinks := Links.step (t := operators[0]) rfl rfl
    (.operand (t := operators[1]) rfl rfl hnegative
      (.operand (t := operators[4]) rfl rfl hvariable
        (.operand (t := operators[6]) rfl rfl hliteral .nil)))
  obtain ⟨_, _, htruth, hnot⟩ := expr_of_chain hprimary hlinks rfl (by decide)
  exact ⟨r, _, .fieldAccess t.pos e.decl b, _, by decide +kernel, rfl, htype, rfl,
    hnot r bang rfl hr rfl, htruth, rfl⟩

end ScriptFront
