import ScriptFront.Proofs.Reading.Progress
import ScriptFront.Proofs.Surface.Instances

/-!
# Rules of reading

Many properties of a program are true of every state in which it is read and of every expression
that is read.  Such a property has to be kept by the rules of the language only: how an operand, an
operand with operators, or a value is made of its parts, and what is written down in the tables on
the way.

`ExprRules` lists what a property has to satisfy for expressions.  Each rule is given what is known
when it is used, down to the tokens at which the expression starts.  Tokens are counted on the way,
so that a reader of expressions need keep the rules on shorter inputs only.

**Results.**

* `ExprRules.After.bind`: a step and then another one.
* `ExprRules.After.expect`, `ExprRules.After.accept`: the steps that read one token.
-/

namespace ScriptFront

namespace TokenKind

/-- A value may stand behind such a token. -/
def awaitsValue : TokenKind → Bool
  | .assign | .not | .plus | .minus | .multiply | .divide | .equal | .notEqual | .lessThan
  | .lessEqual | .greaterThan | .greaterEqual | .leftParen | .comma | .colon | .inWord | .range
  | .ifWord | .whileWord | .returnWord => true
  | _ => false

/-- A statement that starts with such a token is an expression. -/
def startsValue : TokenKind → Bool
  | .literal | .identifier | .not | .minus | .invalid => true
  | _ => false

end TokenKind

namespace State

/-- A value may stand behind the last token that has been read. -/
def Awaits (s : State) : Prop :=
  ∃ t, s.read.head? = some t ∧ t.kind.awaitsValue

theorem awaits_consume {s : State} {t : Token} {rest : List Token} (h : t.kind.awaitsValue) :
    (s.consume t rest).Awaits :=
  ⟨t, rfl, h⟩

/-- The binding of a variable as it is now. -/
def binding (s : State) (e : Entry (Binding Expr)) : Binding Expr :=
  (s.tables.vars.get? e.id).getD e.decl

/-- The state in which the variable `e` is bound to the instance `v` with a field assigned. -/
def assignField (s : State) (e : Entry (Binding Expr)) (v : Instance Expr) (field : String)
    (value : Expr) : State :=
  s.rebind e (.structInstance (s.binding e).value.pos ((v.withField? field value).getD v))

/--
Between two states the target `name.field =` of an assignment has been read.  The name stands for
the variable `e`, which is bound to the instance `v`, whose field has the binding `b`.
-/
structure ReadsTarget (s : State) (name field : Token) (e : Entry (Binding Expr))
    (v : Instance Expr) (b : Binding Expr) (t : State) : Prop where
  tokens : ∃ dot eq rest, s.unread = name :: dot :: field :: eq :: rest ∧ dot.kind = .dot ∧
    eq.kind = .assign ∧ t = s.consumeAll [name, dot, field, eq] rest
  name_kind : name.kind = .identifier
  field_kind : field.kind = .identifier
  lookup : s.tables.vars.lookup? name.lexeme = some e
  value : e.decl.value.instance? = some v
  field_eq : v.field? field.lexeme = some b

end State

/--
A property that the reading of expressions keeps: of states, of the states in which a step has
failed with a problem, of operands, of what operators may follow, and of all values.
-/
structure ExprRules where
  holds : State → Prop
  failed : Problem → State → Prop
  operand : Expr → Prop
  primary : Expr → Prop
  value : Expr → Prop
  /-- No rule of expressions reads a semicolon. -/
  read {s : State} {t : Token} {rest : List Token} :
    holds s → s.unread = t :: rest → t.kind ≠ .semicolon → holds (s.consume t rest)
  fail {s : State} {p : Problem} : p.cause.isUnexpectedEnd = false → holds s → failed p s
  /-- The input is said to have ended when it has. -/
  failAtEnd {s : State} (expected : Expected) :
    holds s → s.unread = [] → failed ⟨.unexpectedEnd expected, s.endPosition⟩ s
  /-- What stands in the place of a value is read before it is refused. -/
  stop {s : State} {t : Token} {rest : List Token} (context : String) :
    holds s → s.Awaits → s.unread = t :: rest →
    failed ⟨.invalidExpression context t.lexeme, t.pos⟩ (s.consume t rest)
  literal {s : State} {t : Token} {rest : List Token} :
    holds s → s.unread = t :: rest → t.kind = .literal →
    operand (.literal t.pos t.lexeme t.lit)
  negative {s : State} {minus t : Token} {rest : List Token} :
    holds s → s.unread = minus :: t :: rest → minus.kind = .minus → t.kind = .literal →
    (t.lit = .number ∨ t.lit = .float) →
    operand (.literal minus.pos ("-" ++ t.lexeme) t.lit)
  /-- A step operator goes by one. -/
  one {s : State} {t : Token} {rest : List Token} :
    holds s → s.unread = t :: rest → operand (.literal t.pos "1" .number)
  reference {s : State} {t : Token} {rest : List Token} {e : Entry (Binding Expr)} :
    holds s → s.unread = t :: rest → s.tables.vars.lookup? t.lexeme = some e →
    operand (.reference t.pos e.decl)
  primary_of_operand {e : Expr} : operand e → primary e
  fieldAccess {s : State} {t : Token} {rest : List Token} {e : Entry (Binding Expr)}
    {v : Instance Expr} {name : String} {b : Binding Expr} :
    holds s → s.unread = t :: rest → s.tables.vars.lookup? t.lexeme = some e →
    e.decl.value.instance? = some v → v.field? name = some b →
    primary (.fieldAccess t.pos e.decl b)
  call {s : State} {t : Token} {rest : List Token} {e : Entry (Proc Expr)}
    {args : List (Binding Expr)} :
    holds s → s.unread = t :: rest → s.tables.procedures.lookup? t.lexeme = some e →
    args.map Binding.typed = e.decl.params → (∀ b ∈ args, value b.value) →
    primary (.call t.pos e.decl args)
  implCall {s u : State} {t : Token} {rest : List Token} {e : Entry (Impl Expr)}
    {method : String} {callee : Proc Expr} {args : List (Binding Expr)} :
    holds s → s.unread = t :: rest → holds u → u.tables.impls.lookup? t.lexeme = some e →
    e.decl.proc? method = some callee → args.map Binding.typed = callee.params →
    (∀ b ∈ args, value b.value) →
    primary (.implCall t.pos e.id e.decl.struct.name callee args)
  binary {lhs rhs : Expr} {op : Operator} :
    primary lhs → op ≠ .neg → operand rhs → primary (.binary lhs.pos lhs op rhs)
  value_of_primary {e : Expr} : primary e → value e
  negation {s : State} {t : Token} {rest : List Token} {inner : Expr} :
    holds s → s.unread = t :: rest → value inner →
    value (.binary t.pos inner .neg (.literal t.pos "" .none))
  structLiteral {s : State} {t : Token} {rest : List Token} {e : Entry StructDef}
    {fields : List (Binding Expr)} :
    holds s → s.unread = t :: rest → s.tables.structs.lookup? t.lexeme = some e →
    fields.map Binding.typed = e.decl.fields → (∀ b ∈ fields, value b.value) →
    value (.structInstance t.pos ⟨e.decl, fields⟩)
  assign {s u : State} {t eq : Token} {rest : List Token} {e : Entry (Binding Expr)}
    {newValue : Expr} :
    holds s → s.unread = t :: eq :: rest → eq.kind = .assign →
    s.tables.vars.lookup? t.lexeme = some e →
    Parse.expr (s.consumeAll [t, eq] rest) = .ok newValue u → holds u → value newValue →
    value (.assign t.pos (u.binding e) newValue)
  fieldAssign {s t u : State} {name field : Token} {e : Entry (Binding Expr)}
    {v : Instance Expr} {b : Binding Expr} {newValue : Expr} :
    holds s → s.ReadsTarget name field e v b t → holds t → Parse.expr t = .ok newValue u →
    holds u → value newValue →
    holds (u.assignField e v field.lexeme newValue) ∧
      value (.fieldAssign name.pos ((u.assignField e v field.lexeme newValue).binding e)
        (b.rebind newValue) newValue)

namespace ExprRules

/-- The rules of a property of states, in which nothing is asked of expressions. -/
def ofStates (holds : State → Prop) (failed : Problem → State → Prop)
    (read : ∀ {s : State} {t : Token} {rest : List Token}, holds s → s.unread = t :: rest →
      t.kind ≠ .semicolon → holds (s.consume t rest))
    (fail : ∀ {s : State} {p : Problem}, p.cause.isUnexpectedEnd = false → holds s → failed p s)
    (failAtEnd : ∀ {s : State} (expected : Expected), holds s → s.unread = [] →
      failed ⟨.unexpectedEnd expected, s.endPosition⟩ s)
    (stop : ∀ {s : State} {t : Token} {rest : List Token} (context : String), holds s → s.Awaits →
      s.unread = t :: rest →
      failed ⟨.invalidExpression context t.lexeme, t.pos⟩ (s.consume t rest))
    (assigned : ∀ {s t u : State} {name field : Token} {e : Entry (Binding Expr)}
      {v : Instance Expr} {b : Binding Expr} {newValue : Expr}, holds s →
      s.ReadsTarget name field e v b t → Parse.expr t = .ok newValue u → holds u →
      holds (u.assignField e v field.lexeme newValue)) : ExprRules where
  holds := holds
  failed := failed
  operand _ := True
  primary _ := True
  value _ := True
  read := read
  fail := fail
  failAtEnd := failAtEnd
  stop := stop
  literal _ _ _ := trivial
  negative _ _ _ _ _ := trivial
  one _ _ := trivial
  reference _ _ _ := trivial
  primary_of_operand _ := trivial
  fieldAccess _ _ _ _ _ := trivial
  call _ _ _ _ _ := trivial
  implCall _ _ _ _ _ _ _ := trivial
  binary _ _ _ := trivial
  value_of_primary _ := trivial
  negation _ _ _ := trivial
  structLiteral _ _ _ _ _ := trivial
  assign _ _ _ _ _ _ _ := trivial
  fieldAssign hs htarget _ hvalue hu _ := ⟨assigned hs htarget hvalue hu, trivial⟩

variable {α β : Type} {I : ExprRules} {n : Nat}

/-- The property holds of a state with at most `n` unread tokens. -/
structure Fits (I : ExprRules) (n : Nat) (s : State) : Prop where
  holds : I.holds s
  length_le : s.unread.length ≤ n

/-- After a step that starts with at most `n` unread tokens the property holds, and `V` of what the
step gives. -/
def After (I : ExprRules) (n : Nat) (V : α → Prop) : EStateM.Result Problem State α → Prop
  | .ok a t => V a ∧ I.Fits n t
  | .error p t => I.failed p t

theorem Fits.consume {s : State} {t : Token} {rest : List Token} (h : I.Fits n s)
    (hunread : s.unread = t :: rest) (hk : t.kind ≠ .semicolon) : I.Fits n (s.consume t rest) where
  holds := I.read h.holds hunread hk
  length_le := by
    have hlength := h.length_le
    rw [hunread, List.length_cons] at hlength
    exact Nat.le_of_succ_le hlength

/-- Something has been written down, but no token read. -/
theorem Fits.stay {s t : State} (h : I.Fits n s) (ht : I.holds t) (hunread : t.unread = s.unread) :
    I.Fits n t :=
  ⟨ht, hunread ▸ h.length_le⟩

namespace After

theorem mono {V W : α → Prop} {r : EStateM.Result Problem State α} (h : I.After n V r)
    (hVW : ∀ a, V a → W a) : I.After n W r := by
  cases r with
  | ok a t => exact ⟨hVW a h.1, h.2⟩
  | error p t => exact h

/-- A step and then another one. -/
theorem bind {V : α → Prop} {W : β → Prop} {p : Parse α} {f : α → Parse β} {s : State}
    (hp : I.After n V (p s))
    (hf : ∀ a t, p s = .ok a t → V a → I.Fits n t → I.After n W (f a t)) :
    I.After n W ((p >>= f) s) := by
  cases hr : p s with
  | ok a t =>
    rw [hr] at hp
    rw [Parse.bind_of_ok hr]
    exact hf a t hr hp.1 hp.2
  | error e t =>
    rw [hr] at hp
    rw [Parse.bind_of_error hr]
    exact hp

theorem pure {V : α → Prop} {s : State} {a : α} (hs : I.Fits n s) (ha : V a) :
    I.After n V ((Pure.pure a : Parse α) s) :=
  ⟨ha, hs⟩

theorem fail {V : α → Prop} {s : State} {cause : Cause} (hs : I.Fits n s)
    (hcause : cause.isUnexpectedEnd = false) (pos : Position) :
    I.After n V ((Parse.fail cause pos : Parse α) s) :=
  I.fail hcause hs.holds

theorem failAtEnd {V : α → Prop} {s : State} (hs : I.Fits n s) (hend : s.unread = [])
    (expected : Expected) : I.After n V ((Parse.failAtEnd expected : Parse α) s) :=
  I.failAtEnd expected hs.holds hend

theorem weaken {V : α → Prop} {m : Nat} {r : EStateM.Result Problem State α} (h : I.After n V r)
    (hnm : n ≤ m) : I.After m V r := by
  cases r with
  | ok a t => exact ⟨h.1, h.2.holds, Nat.le_trans h.2.length_le hnm⟩
  | error p t => exact h

/-- A step that looks at the next token first. -/
theorem peek {V : α → Prop} {f : Option Token → Parse α} {s : State}
    (h : I.After n V (f s.unread.head? s)) : I.After n V ((Parse.peek >>= f) s) :=
  h

theorem check {V : α → Prop} {k : TokenKind} {f : Bool → Parse α} {s : State}
    (h : I.After n V (f (s.unread.head?.any fun t => t.kind = k) s)) :
    I.After n V ((Parse.check k >>= f) s) :=
  h

theorem tables {V : α → Prop} {f : Tables → Parse α} {s : State}
    (h : I.After n V (f s.tables s)) : I.After n V ((Parse.tables >>= f) s) :=
  h

/-- A step that asks for a token first. -/
theorem accept {V : α → Prop} {k : TokenKind} {f : Bool → Parse α} {s : State}
    (hs : I.Fits n s) (hk : k ≠ .semicolon)
    (hyes : ∀ t rest, s.unread = t :: rest → t.kind = k → I.Fits n (s.consume t rest) →
      I.After n V (f true (s.consume t rest)))
    (hno : I.After n V (f false s)) : I.After n V ((Parse.accept k >>= f) s) := by
  rcases Parse.accept_eq (k := k) s with ⟨t, rest, hunread, ht, haccept⟩ | ⟨_, haccept⟩
  · rw [Parse.bind_of_ok haccept]
    exact hyes t rest hunread ht (hs.consume hunread (ht ▸ hk))
  · rw [Parse.bind_of_ok haccept]
    exact hno

/-- A step that reads the next token first, whatever it is. -/
theorem advance {V : α → Prop} {f : Token → Parse α} {s : State} (hs : I.Fits n s)
    (hf : ∀ t rest, s.unread = t :: rest → I.After n V (f t (s.consume t rest))) :
    I.After n V ((Parse.advance >>= f) s) := by
  cases hunread : s.unread with
  | nil =>
    rw [Parse.bind_of_error (Parse.advance_of_nil hunread)]
    exact .failAtEnd hs hunread _
  | cons t rest =>
    rw [Parse.bind_of_ok (Parse.advance_of_cons hunread)]
    exact hf t rest hunread

/-- A step that expects a token first. -/
theorem expect {V : α → Prop} {k : TokenKind} {f : Token → Parse α} {s : State}
    (hs : I.Fits n s) (hk : k ≠ .semicolon)
    (hf : ∀ t rest, s.unread = t :: rest → t.kind = k → I.Fits n (s.consume t rest) →
      I.After n V (f t (s.consume t rest))) :
    I.After n V ((Parse.expect k >>= f) s) := by
  cases hunread : s.unread with
  | nil =>
    rw [Parse.bind_of_error (Parse.expect_of_nil hunread)]
    exact .failAtEnd hs hunread _
  | cons t rest =>
    by_cases ht : t.kind = k
    · rw [Parse.bind_of_ok (Parse.expect_of_cons hunread ht)]
      exact hf t rest hunread ht (hs.consume hunread (ht ▸ hk))
    · rw [Parse.bind_of_error (Parse.expect_of_ne hunread ht)]
      exact .fail hs rfl _

end After
end ExprRules
end ScriptFront
