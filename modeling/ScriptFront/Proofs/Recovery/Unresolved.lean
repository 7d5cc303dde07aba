import ScriptFront.Proofs.Reading.Chains
import ScriptFront.Proofs.Recovery.Semicolons

/-!
# Recovery from a name that stands for nothing

A name is resolved as soon as it is read.  If it stands for nothing, the statement fails right
behind it, whatever the statement was about to do with its value and whatever follows the name: the
name is reported, the rest of the statement is skipped with its semicolon, and nothing has been
written down.

**Results.**

* `foldOperators_unresolved`: operators are folded up to the first operand that is no variable.
* `expr_unresolved`, `optionalStatement_unresolved`: expressions and statements fail at the name.
* `statement_of_unresolved`: the state behind the statement.
-/

namespace ScriptFront

open Parse

section Tokens

variable (vars : SymbolTable (Binding Expr))

/-- What an operator may have on its right: a literal, a negative number or a variable. -/
inductive OperandTokens : List Token → Prop where
  | literal {t : Token} : t.kind = .literal → OperandTokens [t]
  | negative {minus t : Token} : minus.kind = .minus → t.kind = .literal →
    (t.lit = .number ∨ t.lit = .float) → OperandTokens [minus, t]
  | reference {t : Token} {e : Entry (Binding Expr)} : t.kind = .identifier →
    vars.lookup? t.lexeme = some e → OperandTokens [t]

/-- Operators with their operands behind a first operand.  The step operators have none. -/
inductive LinkTokens : List Token → Prop where
  | nil : LinkTokens []
  | step {t : Token} {op : Operator} {ts : List Token} : Operator.foldable? t.kind = some op →
    op.isStep = true → LinkTokens ts → LinkTokens (t :: ts)
  | operand {t : Token} {op : Operator} {us ts : List Token} :
    Operator.foldable? t.kind = some op → op.isStep = false → OperandTokens vars us →
    LinkTokens ts → LinkTokens (t :: (us ++ ts))

/-- How a statement may begin in front of a value. -/
inductive HeadTokens : List Token → Prop where
  | none : HeadTokens []
  | returnWord {t : Token} : t.kind = .returnWord → HeadTokens [t]
  | letWord {t name eq : Token} : t.kind = .letWord → name.kind = .identifier →
    eq.kind = .assign → HeadTokens [t, name, eq]
  | typed {t name colon typeName eq : Token} : t.kind = .letWord → name.kind = .identifier →
    colon.kind = .colon → typeName.kind = .identifier → eq.kind = .assign →
    HeadTokens [t, name, colon, typeName, eq]
  | assign {t eq : Token} {e : Entry (Binding Expr)} : t.kind = .identifier →
    vars.lookup? t.lexeme = some e → eq.kind = .assign → HeadTokens [t, eq]

end Tokens

/--
Behind the tokens in the list, which start an expression, the name `n` stands in the place of an
operand, and it stands for nothing that may stand there.  In front of all operators this may be a
variable, a procedure or a struct, and behind an operator a variable only.  The other list has the
names that it could be mistaken for.
-/
inductive Unresolved (tables : Tables) (n : Token) : List Token → List String → Prop where
  | first : tables.resolve? n.lexeme = none → Unresolved tables n [] tables.visibleNames
  | behind {us ts : List Token} {t : Token} {op : Operator} : OperandTokens tables.vars us →
    LinkTokens tables.vars ts → Operator.foldable? t.kind = some op → op.isStep = false →
    tables.vars.lookup? n.lexeme = none → Unresolved tables n (us ++ (ts ++ [t])) tables.vars.names

/-- The problem of a name that stands for nothing. -/
def Token.unresolved (n : Token) (candidates : List String) : Problem :=
  ⟨.unresolvedName n.lexeme (suggestionsFor n.lexeme candidates), n.pos⟩

section Readings

variable {vars : SymbolTable (Binding Expr)} {ts : List Token}

/-- What an operator may have on its right stands for an expression. -/
theorem OperandTokens.exists_operand (h : OperandTokens vars ts) : ∃ e, ReadsOperand vars ts e := by
  cases h with
  | literal ht => exact ⟨_, .literal ht⟩
  | negative hminus ht hlit => exact ⟨_, .negative hminus ht hlit⟩
  | reference ht he => exact ⟨_, .reference ht he⟩

theorem LinkTokens.exists_links (h : LinkTokens vars ts) : ∃ links, Links vars ts links := by
  induction h with
  | nil => exact ⟨[], .nil⟩
  | step hop hstep _ ih =>
    obtain ⟨links, hlinks⟩ := ih
    exact ⟨_, .step hop hstep hlinks⟩
  | operand hop hstep hus _ ih =>
    obtain ⟨links, hlinks⟩ := ih
    obtain ⟨rhs, hrhs⟩ := hus.exists_operand
    exact ⟨_, .operand hop hstep hrhs hlinks⟩

end Readings

section Plain

variable {vars : SymbolTable (Binding Expr)} {ts : List Token}

theorem Token.plain_of_foldable? {t : Token} {op : Operator}
    (h : Operator.foldable? t.kind = some op) : t.Plain := by
  unfold Plain
  generalize t.kind = k at h ⊢
  cases k <;> first | decide | cases h

theorem OperandTokens.plain (h : OperandTokens vars ts) : ∀ t ∈ ts, t.Plain := by
  unfold Token.Plain
  cases h with
  | literal ht | reference ht => simp [ht, TokenKind.isBrace]
  | negative hminus ht _ => simp [hminus, ht, TokenKind.isBrace]

theorem LinkTokens.plain (h : LinkTokens vars ts) : ∀ t ∈ ts, t.Plain := by
  induction h with
  | nil => exact List.forall_mem_nil _
  | step hop _ _ ih => exact List.forall_mem_cons.mpr ⟨Token.plain_of_foldable? hop, ih⟩
  | operand hop _ hus _ ih =>
    exact List.forall_mem_cons.mpr
      ⟨Token.plain_of_foldable? hop, List.forall_mem_append.mpr ⟨hus.plain, ih⟩⟩

theorem HeadTokens.plain (h : HeadTokens vars ts) : ∀ t ∈ ts, t.Plain := by
  unfold Token.Plain
  cases h with
  | none => exact List.forall_mem_nil _
  | returnWord ht => simp [ht, TokenKind.isBrace]
  | letWord ht hname heq => simp [ht, hname, heq, TokenKind.isBrace]
  | typed ht hname hcolon htype heq => simp [ht, hname, hcolon, htype, heq, TokenKind.isBrace]
  | assign ht _ heq => simp [ht, heq, TokenKind.isBrace]

theorem Unresolved.plain {tables : Tables} {n : Token} {candidates : List String}
    (h : Unresolved tables n ts candidates) : ∀ t ∈ ts, t.Plain := by
  cases h with
  | first _ => exact List.forall_mem_nil _
  | behind hus hts hop _ _ =>
    refine List.forall_mem_append.mpr ⟨hus.plain, List.forall_mem_append.mpr ⟨hts.plain, ?_⟩⟩
    exact List.forall_mem_singleton.mpr (Token.plain_of_foldable? hop)

end Plain

namespace State

/-- Tokens whose braces match change nothing but what has been read. -/
theorem consumeAll_of_balanced (s : State) {ts : List Token} (rest : List Token)
    (h : Balanced ts) :
    s.consumeAll ts rest = { s with read := ts.reverse ++ s.read, unread := rest } := by
  unfold consumeAll
  rw [h.foldl_depthAfter]

/-- In front of plain tokens, recovery notes the problem and reads on behind their semicolon. -/
theorem recover_of_plain {s : State} {p : Problem} {junk rest : List Token} {semi : Token}
    (hp : p.cause.isUnexpectedEnd = false)
    (hjunk : ∀ t ∈ junk, t.Plain ∧ t.kind.startsStatement = false)
    (hsemi : semi.kind = .semicolon) (hunread : s.unread = junk ++ semi :: rest) :
    s.recover s.braceDepth p = { s with
      read := (junk ++ [semi]).reverse ++ s.read
      unread := rest
      problems := s.problems ++ [p] } := by
  have hreport : s.report p = { s with problems := s.problems ++ [p] } := by
    unfold report
    rw [hp, Bool.false_and, if_neg Bool.false_ne_true]
  have hbalanced : Balanced (junk ++ [semi]) :=
    (balanced_of_plain fun t ht => (hjunk t ht).1).append
      (.plain (by rw [hsemi]; decide) (by rw [hsemi]; decide))
  unfold recover skipToBoundary
  simp only [hreport, Nat.lt_irrefl, if_false, Nat.sub_self, hunread,
    splitAtBoundary_of_plain hjunk hsemi]
  exact consumeAll_of_balanced _ rest hbalanced

end State

namespace Parse

variable {s : State} {n : Token} {rest : List Token} {candidates : List String}

section Operands

/-- A name behind an operator has to be a variable. -/
theorem operand_unresolved (hn : n.kind = .identifier)
    (hnone : s.tables.vars.lookup? n.lexeme = none) (hunread : s.unread = n :: rest) :
    operand s = .error (n.unresolved s.tables.vars.names) (s.consume n rest) := by
  unfold operand
  rw [bind_of_ok (advance_of_cons hunread)]
  simp only [hn]
  rw [bind_of_ok (show tables (s.consume n rest) = .ok s.tables _ from rfl)]
  simp only [hnone]
  rfl

/-- Operators are folded up to the first operand that is no variable, and fail there. -/
theorem foldOperators_unresolved {ts : List Token} {t : Token} {op : Operator} (lhs : Expr)
    (hts : LinkTokens s.tables.vars ts) (hop : Operator.foldable? t.kind = some op)
    (hstep : op.isStep = false) (hn : n.kind = .identifier)
    (hnone : s.tables.vars.lookup? n.lexeme = none) (hunread : s.unread = ts ++ t :: n :: rest) :
    foldOperators lhs s =
      .error (n.unresolved s.tables.vars.names) (s.consumeAll (ts ++ [t, n]) rest) := by
  obtain ⟨links, hlinks⟩ := hts.exists_links
  have hnext : (s.consumeAll ts (t :: n :: rest)).unread = t :: n :: rest := rfl
  rw [foldOperators_of_links lhs hlinks hunread, foldOperators_of_foldable _ hop hnext, rightSide,
    hstep]
  have hoperand := operand_unresolved
    (s := (s.consumeAll ts (t :: n :: rest)).consume t (n :: rest)) hn hnone rfl
  have hread := State.consumeAll_append s ts [t, n] rest (t :: n :: rest)
  simp only [Bool.false_eq_true, if_false]
  exact (bind_of_error hoperand).trans (congrArg _ hread)

end Operands

section Values

/-- The first name of an expression has to stand for something. -/
theorem expr_of_unresolved (hn : n.kind = .identifier)
    (hnone : s.tables.resolve? n.lexeme = none) (hunread : s.unread = n :: rest) :
    expr s = .error (n.unresolved s.tables.visibleNames) (s.consume n rest) := by
  rw [expr_of_cons hunread]
  unfold exprStep
  simp only [hn]
  unfold nameUse
  rw [bind_of_ok (show tables (s.consume n rest) = .ok s.tables _ from rfl)]
  simp only [hnone]
  rfl

/-- An expression fails right behind a name that stands for nothing. -/
theorem expr_unresolved {chain : List Token} (hn : n.kind = .identifier)
    (hchain : Unresolved s.tables n chain candidates) (hunread : s.unread = chain ++ n :: rest) :
    expr s = .error (n.unresolved candidates) (s.consumeAll (chain ++ [n]) rest) := by
  cases hchain with
  | first hnone => exact expr_of_unresolved hn hnone hunread
  | @behind us ts t op hus hts hop hstep hnone =>
    have hsplit : s.unread = us ++ (ts ++ t :: n :: rest) := by
      simpa [List.append_assoc] using hunread
    -- Behind the first operand stands an operator: one of the links, or the one in front of `n`.
    obtain ⟨u, op', vs, hop', hvs⟩ : ∃ u op' vs, Operator.foldable? u.kind = some op' ∧
        ts ++ t :: n :: rest = u :: vs := by
      cases hts with
      | nil => exact ⟨t, op, _, hop, rfl⟩
      | step hop' _ _ | operand hop' _ _ _ => exact ⟨_, _, _, hop', rfl⟩
    obtain ⟨lhs, hlhs⟩ := hus.exists_operand
    have hnext : ∀ x ∈ (u :: vs).head?, x.kind ≠ .assign ∧ x.kind ≠ .dot := by
      simpa using ne_of_foldable? hop'
    rw [expr_of_operand hlhs hnext (hvs ▸ hsplit), ← hvs,
      foldOperators_unresolved (s := s.consumeAll us (ts ++ t :: n :: rest)) lhs hts hop hstep hn
        hnone rfl, State.consumeAll_append]
    simp only [List.append_assoc, List.cons_append, List.nil_append]
    rfl

end Values

section Statements

theorem statementFrom_of_startsValue {t : Token} (h : t.kind.startsValue) :
    t.kind ≠ .semicolon ∧ statementFrom block t = exprFrom t := by
  unfold statementFrom
  cases hk : t.kind
  case literal | identifier | not | minus | invalid => exact ⟨nofun, rfl⟩
  all_goals
    rw [hk] at h
    cases h

/-- A statement that starts with a value is read as an expression. -/
theorem optionalStatement_of_startsValue {t : Token} (h : t.kind.startsValue)
    (hunread : s.unread = t :: rest) :
    optionalStatement block s = (do return some (← expr)) s := by
  obtain ⟨hk, hfrom⟩ := statementFrom_of_startsValue h
  have hexpr : exprFrom t (s.consume t rest) = expr s := by rw [exprFrom_eq, expr_of_cons hunread]
  rw [optionalStatement_of_cons block hunread, if_neg hk, hfrom]
  simp only [bind, EStateM.bind, hexpr]

theorem optionalStatement_of_keyword {t : Token} (hk : t.kind ≠ .semicolon)
    (hunread : s.unread = t :: rest) {p : Problem} {u : State}
    (h : statementFrom block t (s.consume t rest) = .error p u) :
    optionalStatement block s = .error p u := by
  rw [optionalStatement_of_cons block hunread, if_neg hk]
  exact bind_of_error h

/-- A value whose name stands for nothing starts with a token that is asked for an expression. -/
theorem Unresolved.startsValue {chain : List Token}
    (hchain : Unresolved s.tables n chain candidates) (hn : n.kind = .identifier)
    (rest : List Token) :
    ∃ t ts, chain ++ n :: rest = t :: ts ∧ t.kind.startsValue := by
  cases hchain with
  | first _ => exact ⟨n, rest, rfl, by rw [hn]; rfl⟩
  | behind hus _ _ _ _ =>
    cases hus with
    | literal ht | reference ht => exact ⟨_, _, rfl, by rw [ht]; rfl⟩
    | negative hminus _ _ => exact ⟨_, _, rfl, by rw [hminus]; rfl⟩

section Values

variable {t u : State} {p : Problem} {value : List Token}

/-- The value of a `return` is not there, or it fails. -/
theorem returnStatement_of_error {first keyword : Token} (hunread : s.unread = first :: rest)
    (hfirst : first.kind.startsValue) (hvalue : expr s = .error p u) :
    returnStatement keyword s = .error p u := by
  have hnext : ¬(first.kind = .semicolon ∨ first.kind = .rightBrace) := by
    rintro (h | h) <;> rw [h] at hfirst <;> cases hfirst
  unfold returnStatement
  rw [bind_of_ok (peek_of_cons hunread)]
  simp only [if_neg hnext]
  exact bind_of_error hvalue

theorem optionalType_of_ne {eq : Token} (hunread : s.unread = eq :: rest)
    (hne : eq.kind ≠ .colon) : optionalType s = .ok none s := by
  unfold optionalType
  rw [bind_of_ok (accept_of_ne hunread hne)]
  rfl

theorem optionalType_of_colon {colon typeName : Token}
    (hunread : s.unread = colon :: typeName :: rest) (hcolon : colon.kind = .colon)
    (htype : typeName.kind = .identifier) :
    optionalType s = .ok (some typeName.lexeme) (s.consumeAll [colon, typeName] rest) := by
  unfold optionalType
  rw [bind_of_ok (accept_of_eq hunread hcolon)]
  simp only [if_true]
  rw [bind_of_ok (expect_of_cons rfl htype)]
  rfl

/-- A declaration fails with its value, before anything is declared. -/
theorem letStatement_of_error {keyword name eq : Token} {written : Option String}
    (hunread : s.unread = name :: rest) (hname : name.kind = .identifier)
    (htype : optionalType (s.consume name rest) = .ok written t) (hnext : t.unread = eq :: value)
    (heq : eq.kind = .assign) (hvalue : expr (t.consume eq value) = .error p u) :
    letStatement keyword s = .error p u := by
  unfold letStatement
  rw [bind_of_ok (expect_of_cons hunread hname), bind_of_ok htype,
    bind_of_ok (expect_of_cons hnext heq)]
  exact bind_of_error hvalue

/-- An assignment fails with its value, before the variable is bound. -/
theorem expr_assign_of_error {v eq : Token} {e : Entry (Binding Expr)}
    (hunread : s.unread = v :: eq :: value) (hv : v.kind = .identifier)
    (he : s.tables.vars.lookup? v.lexeme = some e) (heq : eq.kind = .assign)
    (hvalue : expr (s.consumeAll [v, eq] value) = .error p u) : expr s = .error p u := by
  rw [expr_of_declared hv he hunread]
  unfold variableUse
  rw [bind_of_ok (accept_of_eq rfl heq)]
  simp only [if_true]
  exact bind_of_error hvalue

end Values

/-- A statement fails right behind a name that stands for nothing. -/
theorem optionalStatement_unresolved {head chain : List Token}
    (hhead : HeadTokens s.tables.vars head) (hn : n.kind = .identifier)
    (hchain : Unresolved s.tables n chain candidates)
    (hunread : s.unread = head ++ (chain ++ n :: rest)) :
    optionalStatement block s =
      .error (n.unresolved candidates) (s.consumeAll (head ++ (chain ++ [n])) rest) := by
  obtain ⟨t, ts, hstart, ht⟩ := Unresolved.startsValue hchain hn rest
  -- The value is read from the state behind the head, and its tables are those of `s`.
  have hvalue : expr (s.consumeAll head (chain ++ n :: rest)) =
      .error (n.unresolved candidates) (s.consumeAll (head ++ (chain ++ [n])) rest) := by
    rw [expr_unresolved (s := s.consumeAll head (chain ++ n :: rest)) hn hchain rfl,
      State.consumeAll_append]
  cases hhead with
  | none =>
    rw [List.nil_append, hstart] at hunread
    have hsame : s.consumeAll [] (chain ++ n :: rest) = s := by
      rw [hstart, ← hunread]
      rfl
    rw [optionalStatement_of_startsValue ht hunread]
    rw [hsame] at hvalue
    exact bind_of_error hvalue
  | @returnWord keyword hk =>
    refine optionalStatement_of_keyword (by rw [hk]; decide) hunread ?_
    unfold statementFrom
    simp only [hk]
    exact returnStatement_of_error hstart ht hvalue
  | @letWord keyword name eq hk hname heq =>
    refine optionalStatement_of_keyword (by rw [hk]; decide) hunread ?_
    unfold statementFrom
    simp only [hk]
    have hne : eq.kind ≠ .colon := by rw [heq]; decide
    have htype := optionalType_of_ne
      (s := s.consumeAll [keyword, name] (eq :: (chain ++ n :: rest))) rfl hne
    exact letStatement_of_error rfl hname htype rfl heq hvalue
  | @typed keyword name colon typeName eq hk hname hcolon htype heq =>
    refine optionalStatement_of_keyword (by rw [hk]; decide) hunread ?_
    unfold statementFrom
    simp only [hk]
    exact letStatement_of_error rfl hname (optionalType_of_colon rfl hcolon htype) rfl heq hvalue
  | @assign v eq e hk he heq =>
    rw [optionalStatement_of_startsValue (by rw [hk]; rfl) hunread]
    exact bind_of_error (expr_assign_of_error hunread hk he heq hvalue)

end Statements
end Parse

/--
A statement in which a name stands for nothing, in the place of a value or of an operand, gives
nothing.  The name is reported, and no other problem is; reading goes on behind the semicolon of the
statement; everything else is as it was in front of the statement.
-/
theorem statement_of_unresolved {s : State} {head chain junk rest : List Token} {n semi : Token}
    {candidates : List String} (hhead : HeadTokens s.tables.vars head)
    (hn : n.kind = .identifier) (hchain : Unresolved s.tables n chain candidates)
    (hjunk : ∀ t ∈ junk, t.Plain ∧ t.kind.startsStatement = false)
    (hsemi : semi.kind = .semicolon)
    (hunread : s.unread = head ++ (chain ++ n :: (junk ++ semi :: rest))) :
    let p := n.unresolved candidates
    statement s = (none, { s with
      read := (head ++ (chain ++ n :: (junk ++ [semi]))).reverse ++ s.read
      unread := rest
      problems := s.problems ++ [p] }) ∧
      p.diagnostic.code = some "S010" ∧ p.diagnostic.pos = n.pos := by
  intro p
  have hfails := optionalStatement_unresolved hhead hn hchain hunread
  have hread : ∀ t ∈ head ++ (chain ++ [n]), t.Plain := by
    refine List.forall_mem_append.mpr ⟨hhead.plain, List.forall_mem_append.mpr ⟨hchain.plain, ?_⟩⟩
    exact List.forall_mem_singleton.mpr (by unfold Token.Plain; rw [hn]; decide)
  rw [s.consumeAll_of_balanced _ (balanced_of_plain hread)] at hfails
  unfold statement statementWith
  rw [hfails]
  refine ⟨Prod.ext rfl ((State.recover_of_plain rfl hjunk hsemi rfl).trans ?_), rfl, rfl⟩
  simp only [List.reverse_append, List.reverse_cons, List.append_assoc, List.reverse_nil,
    List.nil_append]
  rfl

/-- A declaration whose value has a name behind its third operator that stands for nothing. -/
theorem statement_of_unresolved_typed :
    let source := "let a = 1 let b: i32 = a ++ - -2 * zzz(7 in; b = 2;".toList
    let s := (statement (.ofSource "p" source)).2
    ∃ (n : Token) (rest : List Token),
      n.lexeme = "zzz" ∧ rest.map Token.lexeme = ["b", "=", "2", ";"] ∧ (statement s).1 = none ∧
      (statement s).2.diagnostics =
        s.diagnostics ++ [(n.unresolved s.tables.vars.names).diagnostic] ∧
      (statement s).2.unread = rest := by
  intro source s
  let n : Token := ⟨.identifier, "zzz", ⟨"p", 0, 35⟩, .none⟩
  let semi : Token := ⟨.semicolon, ";", ⟨"p", 0, 43⟩, .none⟩
  let head : List Token := [⟨.letWord, "let", ⟨"p", 0, 10⟩, .none⟩,
    ⟨.identifier, "b", ⟨"p", 0, 14⟩, .none⟩, ⟨.colon, ":", ⟨"p", 0, 15⟩, .none⟩,
    ⟨.identifier, "i32", ⟨"p", 0, 17⟩, .none⟩, ⟨.assign, "=", ⟨"p", 0, 21⟩, .none⟩]
  let first : Token := ⟨.identifier, "a", ⟨"p", 0, 23⟩, .none⟩
  let links : List Token := [⟨.increment, "++", ⟨"p", 0, 25⟩, .none⟩,
    ⟨.minus, "-", ⟨"p", 0, 28⟩, .none⟩, ⟨.minus, "-", ⟨"p", 0, 30⟩, .none⟩,
    ⟨.literal, "2", ⟨"p", 0, 31⟩, .number⟩]
  let times : Token := ⟨.multiply, "*", ⟨"p", 0, 33⟩, .none⟩
  let junk : List Token := [⟨.leftParen, "(", ⟨"p", 0, 38⟩, .none⟩,
    ⟨.literal, "7", ⟨"p", 0, 39⟩, .number⟩, ⟨.inWord, "in", ⟨"p", 0, 41⟩, .none⟩]
  let rest : List Token := [⟨.identifier, "b", ⟨"p", 0, 45⟩, .none⟩,
    ⟨.assign, "=", ⟨"p", 0, 47⟩, .none⟩, ⟨.literal, "2", ⟨"p", 0, 49⟩, .number⟩,
    ⟨.semicolon, ";", ⟨"p", 0, 50⟩, .none⟩]
  have hunread : s.unread =
      head ++ (([first] ++ (links ++ [times])) ++ n :: (junk ++ semi :: rest)) := by
    decide +kernel
  obtain ⟨e, he⟩ : ∃ e, s.tables.vars.lookup? "a" = some e :=
    Option.isSome_iff_exists.mp (by decide +kernel)
  have hnone : s.tables.vars.lookup? "zzz" = none :=
    Option.isNone_iff_eq_none.mp (by decide +kernel)
  have hlinks : LinkTokens s.tables.vars links :=
    .step rfl rfl (.operand rfl rfl (.negative rfl rfl (.inl rfl)) .nil)
  have hchain : Unresolved s.tables n ([first] ++ (links ++ [times])) s.tables.vars.names :=
    .behind (.reference rfl he) hlinks rfl rfl hnone
  have hjunk : ∀ t ∈ junk, (t.kind.isBrace = false ∧ t.kind ≠ .semicolon) ∧
      t.kind.startsStatement = false := by decide
  obtain ⟨hresult, _⟩ :=
    statement_of_unresolved (.typed rfl rfl rfl rfl rfl) rfl hchain hjunk rfl hunread
  refine ⟨n, rest, rfl, rfl, ?_, ?_, ?_⟩
  · rw [hresult]
  · rw [hresult, State.diagnostics, State.diagnostics, List.map_append]
    rfl
  · rw [hresult]

end ScriptFront
