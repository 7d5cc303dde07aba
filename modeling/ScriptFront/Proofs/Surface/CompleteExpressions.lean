import ScriptFront.Proofs.Surface.Scope
import ScriptFront.Proofs.Surface.SoundStatements

/-!
# Phrases whose names resolve are read

In front of a phrase that fits the declarations, and of a token that no phrase goes on with, the
reader of expressions succeeds, and what it gives is what the phrase stands for.

**Algorithm.** Operators may follow an open phrase; reading one leads to folding what follows it.
So there are two judgements for phrases, `Phrase.Opens` and `Phrase.Parses`, each constructor has a
lemma, and the first judgement gives the second one in front of a token that stops the folding.

**Results.**

* `State.Faces`: the terminals and declarations in front of which reading stands.
* `Phrase.Fits.parses`: a phrase whose names resolve is read.
-/

namespace ScriptFront

open Surface

/-- Reading stands in front of the terminals `w`, and `sc` has been declared. -/
structure State.Faces (s : State) (sc : Scope) (w : List Terminal) : Prop where
  regular : s.Regular
  advisory : s.Advisory
  scope : s.tables.scope = sc
  terminals : s.terminals = w

/-- No phrase goes on with such a token. -/
def TokenKind.endsPhrase : TokenKind → Bool
  | .semicolon | .comma | .rightParen | .leftBrace | .rightBrace | .range => true
  | _ => false

/-- Phrases start with such a terminal. -/
def Terminal.startsPhrase : Terminal → Bool
  | .mark k => k = .not || k = .minus
  | .name _ | .literal _ _ => true

namespace Surface

theorem Phrase.spell_cons (x : Phrase) : ∃ a w, x.spell = a :: w ∧ a.startsPhrase := by
  match x with
  | .operand y => cases y <;> exact ⟨_, _, rfl, rfl⟩
  | .chain lhs op rhs =>
    obtain ⟨a, w, hw, ha⟩ := lhs.spell_cons
    exact ⟨a, _, by rw [Phrase.spell, hw, List.cons_append], ha⟩
  | .step lhs op =>
    obtain ⟨a, w, hw, ha⟩ := lhs.spell_cons
    exact ⟨a, _, by rw [Phrase.spell, hw, List.cons_append], ha⟩
  | .call .. | .implCall .. | .fieldAccess .. | .not .. | .structLiteral .. | .assign ..
  | .fieldAssign .. => exact ⟨_, _, rfl, rfl⟩

/-- No phrase starts with another mark than that of a negation or a minus sign. -/
theorem Phrase.head?_spell_ne (x : Phrase) (w : List Terminal) {k : TokenKind}
    (hk : Terminal.startsPhrase (.mark k) = false) : (x.spell ++ w).head? ≠ some (.mark k) := by
  obtain ⟨a, v, hv, ha⟩ := x.spell_cons
  rw [hv, List.cons_append, List.head?_cons]
  rintro ⟨⟩
  rw [hk] at ha
  cases ha

theorem exists_joined_eq (x : List Terminal) (xs : List (List Terminal)) (trailing : Bool) :
    ∃ w, joined (x :: xs) trailing = x ++ w := by
  cases xs with
  | nil => cases trailing with
    | false => exact ⟨[], (List.append_nil x).symm⟩
    | true => exact ⟨[.mark .comma], rfl⟩
  | cons y ys => exact ⟨_, rfl⟩

/-- What reading gives for a phrase. -/
structure Phrase.Means (x : Phrase) (sc : Scope) (e : Expr) : Prop where
  denotes : x.Denotes e
  valueType : e.valueType = x.typeIn sc
  struct : e.instance?.map Instance.struct = x.structIn sc

/-- What stands behind a whole phrase. -/
def Stops (w : List Terminal) : Prop :=
  ∃ k : TokenKind, w.head? = some (.mark k) ∧ k.endsPhrase

/-- What stands behind an open phrase: neither a field nor a value is given to it. -/
def Continues (w : List Terminal) : Prop :=
  w.head? ≠ some (.mark .assign) ∧ w.head? ≠ some (.mark .dot)

theorem Stops.mark {k : TokenKind} {w : List Terminal} (hk : k.endsPhrase) : Stops (.mark k :: w) :=
  ⟨k, rfl, hk⟩

theorem Stops.continues {w : List Terminal} (h : Stops w) : Continues w := by
  obtain ⟨k, hw, hk⟩ := h
  unfold Continues
  rw [hw]
  constructor
  · rintro ⟨⟩
    cases hk
  · rintro ⟨⟩
    cases hk

theorem Continues.mark (op : Operator) (w : List Terminal) : Continues (.mark op.mark :: w) := by
  cases op <;> exact ⟨nofun, nofun⟩

end Surface

namespace Parse

variable {sc : Scope} {s : State} {w : List Terminal} {k : TokenKind}

section Tokens

theorem kind_of_mark {t : Token} (h : t.terminal = .mark k) : t.kind = k := by
  unfold Token.terminal at h
  split at h
  · cases h
  · cases h
  · injection h

theorem kind_of_name {t : Token} {name : String} (h : t.terminal = .name name) :
    t.kind = .identifier ∧ t.lexeme = name := by
  unfold Token.terminal at h
  split at h
  · rename_i hk
    injection h with hname
    exact ⟨hk, hname⟩
  · cases h
  · cases h

theorem kind_of_literal {t : Token} {text : String} {lit : LiteralType}
    (h : t.terminal = .literal text lit) :
    t.kind = .literal ∧ t.lexeme = text ∧ t.lit = lit := by
  unfold Token.terminal at h
  split at h
  · cases h
  · rename_i hk
    injection h with htext hlit
    exact ⟨hk, htext, hlit⟩
  · cases h

/-- The next token, and what reading stands in front of behind it. -/
theorem next_faces {a : Terminal} (h : s.Faces sc (a :: w)) :
    ∃ t rest, s.unread = t :: rest ∧ t.terminal = a ∧ (s.consume t rest).Faces sc w := by
  obtain ⟨t, rest, hunread, ha, hw⟩ := List.map_eq_cons_iff.mp h.terminals
  exact ⟨t, rest, hunread, ha, ⟨h.regular.consume hunread, h.advisory, h.scope, hw⟩⟩

theorem expect_faces (h : s.Faces sc (.mark k :: w)) :
    ∃ t u, expect k s = .ok t u ∧ u.Faces sc w := by
  obtain ⟨t, rest, hunread, ht, hrest⟩ := next_faces h
  exact ⟨t, _, expect_of_cons hunread (kind_of_mark ht), hrest⟩

theorem expect_name_faces {name : String} (h : s.Faces sc (.name name :: w)) :
    ∃ t u, expect .identifier s = .ok t u ∧ t.lexeme = name ∧ u.Faces sc w := by
  obtain ⟨t, rest, hunread, ht, hrest⟩ := next_faces h
  obtain ⟨hk, hname⟩ := kind_of_name ht
  exact ⟨t, _, expect_of_cons hunread hk, hname, hrest⟩

theorem accept_faces (h : s.Faces sc (.mark k :: w)) :
    ∃ u, accept k s = .ok true u ∧ u.Faces sc w := by
  obtain ⟨t, rest, hunread, ht, hrest⟩ := next_faces h
  exact ⟨_, accept_of_eq hunread (kind_of_mark ht), hrest⟩

theorem tables_of_expect {t : Token} {u : State} (h : expect k s = .ok t u) :
    u.tables = s.tables := by
  obtain ⟨_, rest, _, rfl⟩ := expect_eq_ok_iff.mp h
  rfl

theorem tables_of_accept {b : Bool} {u : State} (h : accept k s = .ok b u) :
    u.tables = s.tables := by
  rcases accept_eq (k := k) s with ⟨t, rest, _, _, haccept⟩ | ⟨_, haccept⟩
  · rw [haccept] at h
    injection h with _ hu
    rw [← hu]
    rfl
  · rw [haccept] at h
    injection h with _ hu
    rw [← hu]

theorem head?_mark_ne {k' : TokenKind} (h : k' ≠ k) :
    (Terminal.mark k' :: w).head? ≠ some (.mark k) := by
  intro hmark
  injection hmark with hmark
  injection hmark with hk
  exact h hk

theorem head?_name_ne {name : String} : (Terminal.name name :: w).head? ≠ some (.mark k) := by
  intro hmark
  injection hmark with hmark
  cases hmark

theorem head?_unread_ne (h : s.Faces sc w) (hk : k.isMark) (hw : w.head? ≠ some (.mark k)) :
    ∀ t ∈ s.unread.head?, t.kind ≠ k := by
  intro t ht hkind
  refine hw ?_
  rw [← h.terminals, State.terminals, List.head?_map, ht, Option.map_some,
    terminal_of_kind hkind hk]

theorem accept_other (h : s.Faces sc w) (hk : k.isMark) (hw : w.head? ≠ some (.mark k)) :
    accept k s = .ok false s := by
  have hne := head?_unread_ne h hk hw
  rcases accept_eq (k := k) s with ⟨t, rest, hunread, hkind, _⟩ | ⟨_, haccept⟩
  · rw [hunread] at hne
    exact absurd hkind (hne t rfl)
  · exact haccept

theorem check_faces (h : s.Faces sc (.mark k :: w)) : check k s = .ok true s := by
  obtain ⟨t, rest, hunread, ht, _⟩ := next_faces h
  rw [check_of_cons hunread, decide_eq_true (kind_of_mark ht)]

theorem check_other (h : s.Faces sc w) (hk : k.isMark) (hw : w.head? ≠ some (.mark k)) :
    check k s = .ok false s := by
  have hne := head?_unread_ne h hk hw
  cases hunread : s.unread with
  | nil => exact check_of_nil hunread
  | cons t rest =>
    rw [hunread] at hne
    rw [check_of_cons hunread, decide_eq_false (hne t rfl)]

end Tokens

section Operators

theorem foldOperators_of_stops (h : s.Faces sc w) (hw : Stops w) (e : Expr) :
    foldOperators e s = .ok e s := by
  obtain ⟨k, hhead, hk⟩ := hw
  obtain ⟨w', rfl⟩ := List.head?_eq_some_iff.mp hhead
  obtain ⟨t, rest, hunread, ht, _⟩ := next_faces h
  have hnone : Operator.foldable? t.kind = none := by
    rw [kind_of_mark ht]
    cases k <;> first | rfl | cases hk
  rw [foldOperators_eq, bind_of_ok (peek_of_cons hunread)]
  simp only [hnone]
  rfl

theorem foldable?_mark {op : Operator} (h : op ≠ .neg) : Operator.foldable? op.mark = some op := by
  cases op <;> first | rfl | exact absurd rfl h

/-- An operator is folded into what stands in front of it. -/
theorem foldOperators_of_mark {op : Operator} (h : s.Faces sc (.mark op.mark :: w))
    (hneg : op ≠ .neg) (lhs : Expr) :
    ∃ pos u, u.Faces sc w ∧ foldOperators lhs s = (do
      let rhs ← rightSide op pos
      foldOperators (.binary lhs.pos lhs op rhs)) u := by
  obtain ⟨t, rest, hunread, ht, hrest⟩ := next_faces h
  have hop : Operator.foldable? t.kind = some op := by
    rw [kind_of_mark ht, foldable?_mark hneg]
  refine ⟨t.pos, _, hrest, ?_⟩
  rw [foldOperators_eq, bind_of_ok (peek_of_cons hunread)]
  simp only [hop]
  rw [bind_of_ok (advance_of_cons hunread)]

theorem negativeLiteral_complete {text : String} {lit : LiteralType}
    (h : s.Faces sc (.literal text lit :: w)) (hlit : lit.isNumeric) (pos : Position) :
    ∃ u, negativeLiteral pos s = .ok (.literal pos ("-" ++ text) lit) u ∧ u.Faces sc w := by
  obtain ⟨t, rest, hunread, ht, hrest⟩ := next_faces h
  obtain ⟨hk, htext, hlit'⟩ := kind_of_literal ht
  refine ⟨_, ?_, hrest⟩
  unfold negativeLiteral
  rw [bind_of_ok (advance_of_cons hunread), htext, hlit', if_pos ⟨hk, hlit⟩]
  rfl

/-- The variable of a name in scope. -/
theorem lookup?_of_scope {name : String} {v : Variable} (h : s.Faces sc w)
    (hv : sc.var? name = some v) :
    ∃ entry, s.tables.vars.lookup? name = some entry ∧ entry.decl.variable = v := by
  rw [← h.scope, Tables.var?_scope] at hv
  exact Option.map_eq_some_iff.mp hv

theorem operand_complete {y : Operand} (hy : y.Fits sc) (h : s.Faces sc (y.spell ++ w)) :
    ∃ e u, operand s = .ok e u ∧ y.Denotes e ∧ u.Faces sc w := by
  cases hy with
  | @literal text lit hsign =>
    obtain ⟨t, rest, hunread, ht, hrest⟩ := next_faces h
    obtain ⟨hk, rfl, rfl⟩ := kind_of_literal ht
    refine ⟨.literal t.pos t.lexeme t.lit, _, ?_, .literal hsign, hrest⟩
    unfold operand
    rw [bind_of_ok (advance_of_cons hunread)]
    simp only [hk]
    rfl
  | @negative text lit hlit _ =>
    obtain ⟨t, rest, hunread, ht, hrest⟩ := next_faces h
    obtain ⟨u, hu, hw⟩ := negativeLiteral_complete hrest hlit t.pos
    refine ⟨.literal t.pos ("-" ++ text) lit, u, ?_, .negative hlit, hw⟩
    unfold operand
    rw [bind_of_ok (advance_of_cons hunread)]
    simp only [kind_of_mark ht]
    exact hu
  | @reference name v hv =>
    obtain ⟨t, rest, hunread, ht, hrest⟩ := next_faces h
    obtain ⟨hk, rfl⟩ := kind_of_name ht
    obtain ⟨entry, hlookup, _⟩ := lookup?_of_scope hrest hv
    have hname : entry.decl.name = t.lexeme := SymbolTable.name_of_lookup? hlookup
    have hdenotes : (Operand.reference entry.decl.name).Denotes (.reference t.pos entry.decl) :=
      .reference
    rw [hname] at hdenotes
    refine ⟨_, _, ?_, hdenotes, hrest⟩
    unfold operand
    rw [bind_of_ok (advance_of_cons hunread)]
    simp only [hk]
    rw [tables_bind]
    simp only [hlookup]
    rfl

end Operators

/-- An open phrase is read, and then what follows is folded into it. -/
def Opens (x : Phrase) (sc : Scope) : Prop :=
  ∀ ⦃s w⦄, s.Faces sc (x.spell ++ w) → Continues w →
    ∃ e u, expr s = foldOperators e u ∧ x.Means sc e ∧ u.Faces sc w

/-- A phrase is read as a whole. -/
def Parses (x : Phrase) (sc : Scope) : Prop :=
  ∀ ⦃s w⦄, s.Faces sc (x.spell ++ w) → Stops w →
    ∃ e u, expr s = .ok e u ∧ x.Means sc e ∧ u.Faces sc w

theorem Opens.parses {x : Phrase} (h : Opens x sc) : Parses x sc := by
  intro s w hs hw
  obtain ⟨e, u, hexpr, he, hu⟩ := h hs hw.continues
  exact ⟨e, u, hexpr.trans (foldOperators_of_stops hu hw e), he, hu⟩

section Phrases

/-- A phrase that starts with a name. -/
theorem expr_of_name {name : String} (h : s.Faces sc (.name name :: w)) :
    ∃ t u, expr s = nameUse expr t u ∧ t.lexeme = name ∧ u.Faces sc w := by
  obtain ⟨t, rest, hunread, ht, hrest⟩ := next_faces h
  obtain ⟨hk, hname⟩ := kind_of_name ht
  refine ⟨t, _, ?_, hname, hrest⟩
  rw [expr_of_cons hunread]
  unfold exprStep
  simp only [hk]

theorem expr_of_variable {name : String} {v : Variable} (h : s.Faces sc (.name name :: w))
    (hv : sc.var? name = some v) :
    ∃ pos entry u, expr s = variableUse expr pos entry u ∧ entry ∈ u.tables.vars.entries ∧
      entry.decl.name = name ∧ entry.decl.variable = v ∧ u.Faces sc w := by
  obtain ⟨t, u, hexpr, rfl, hu⟩ := expr_of_name h
  obtain ⟨entry, hlookup, hentry⟩ := lookup?_of_scope hu hv
  refine ⟨t.pos, entry, u, ?_, SymbolTable.mem_of_lookup? hlookup,
    SymbolTable.name_of_lookup? hlookup, hentry, hu⟩
  rw [hexpr]
  unfold nameUse
  rw [tables_bind]
  simp only [Tables.resolve?, hlookup]

/-- There is no variable of a name that resolves to something else. -/
theorem lookup?_of_no_variable {name : String} (h : s.Faces sc w) (hv : sc.var? name = none) :
    s.tables.vars.lookup? name = none := by
  rw [← h.scope, Tables.var?_scope] at hv
  exact Option.map_eq_none_iff.mp hv

theorem expr_of_procedure {name : String} {p : Signature} (h : s.Faces sc (.name name :: w))
    (hv : sc.var? name = none) (hp : sc.proc? name = some p) :
    ∃ pos callee u, expr s = (do
        let args ← callArgs expr callee pos
        foldOperators (.call pos callee args)) u ∧
      callee.name = name ∧ callee.signature = p ∧ u.Faces sc w := by
  obtain ⟨t, u, hexpr, rfl, hu⟩ := expr_of_name h
  have hnone := lookup?_of_no_variable hu hv
  rw [← hu.scope, Tables.proc?_scope] at hp
  obtain ⟨entry, hlookup, hentry⟩ := Option.map_eq_some_iff.mp hp
  refine ⟨t.pos, entry.decl, u, ?_, SymbolTable.name_of_lookup? hlookup, hentry, hu⟩
  rw [hexpr]
  unfold nameUse
  rw [tables_bind]
  simp only [Tables.resolve?, hnone, hlookup]

theorem expr_of_struct {name : String} {d : StructDef} (h : s.Faces sc (.name name :: w))
    (hv : sc.var? name = none) (hp : sc.proc? name = none) (hd : sc.struct? name = some d) :
    ∃ pos u, expr s = structUse expr pos d u ∧ d.name = name ∧ u.Faces sc w := by
  obtain ⟨t, u, hexpr, rfl, hu⟩ := expr_of_name h
  have hnone := lookup?_of_no_variable hu hv
  rw [← hu.scope] at hp hd
  rw [Tables.proc?_scope, Option.map_eq_none_iff] at hp
  rw [Tables.struct?_scope] at hd
  obtain ⟨entry, hlookup, rfl⟩ := Option.map_eq_some_iff.mp hd
  refine ⟨t.pos, u, ?_, SymbolTable.name_of_lookup? hlookup, hu⟩
  rw [hexpr]
  unfold nameUse
  rw [tables_bind]
  simp only [Tables.resolve?, hnone, hp, hlookup, Option.map_some]

theorem opens_operand {y : Operand} (hy : y.Fits sc) : Opens (.operand y) sc := by
  intro s w hs hw
  cases hy with
  | @literal text lit hsign =>
    obtain ⟨t, rest, hunread, ht, hrest⟩ := next_faces hs
    obtain ⟨hk, rfl, rfl⟩ := kind_of_literal ht
    refine ⟨.literal t.pos t.lexeme t.lit, _, ?_, ⟨.operand (.literal hsign), rfl, rfl⟩, hrest⟩
    rw [expr_of_cons hunread]
    unfold exprStep
    simp only [hk]
  | @negative text lit hlit _ =>
    obtain ⟨t, rest, hunread, ht, hrest⟩ := next_faces hs
    obtain ⟨u, hu, hfaces⟩ := negativeLiteral_complete hrest hlit t.pos
    refine ⟨.literal t.pos ("-" ++ text) lit, u, ?_, ⟨.operand (.negative hlit), rfl, rfl⟩, hfaces⟩
    rw [expr_of_cons hunread]
    unfold exprStep
    simp only [kind_of_mark ht]
    rw [bind_of_ok hu]
  | @reference name v hv =>
    obtain ⟨pos, entry, u, hexpr, _, rfl, hentry, hu⟩ := expr_of_variable hs hv
    refine ⟨.reference pos entry.decl, u, ?_, ⟨.operand .reference, ?_, ?_⟩, hu⟩
    · rw [hexpr]
      unfold variableUse
      rw [bind_of_ok (accept_other hu rfl hw.1)]
      simp only [Bool.false_eq_true, if_false]
      rw [bind_of_ok (accept_other hu rfl hw.2)]
      rfl
    · rw [Phrase.typeIn, Operand.typeIn, hv, ← hentry]
      rfl
    · rw [Phrase.structIn, hv, ← hentry]
      rfl

theorem opens_chain {lhs : Phrase} {op : Operator} {rhs : Operand} (hlhs : Opens lhs sc)
    (hopen : lhs.isOpen) (hneg : op ≠ .neg) (hstep : op.isStep = false) (hrhs : rhs.Fits sc) :
    Opens (.chain lhs op rhs) sc := by
  intro s w hs hw
  rw [Phrase.spell, List.append_assoc, List.cons_append] at hs
  obtain ⟨e, u, hexpr, he, hu⟩ := hlhs hs (.mark op _)
  obtain ⟨pos, v, hv, hfold⟩ := foldOperators_of_mark hu hneg e
  obtain ⟨r, v', hr, hdenotes, hv'⟩ := operand_complete hrhs hv
  refine ⟨.binary e.pos e op r, v', ?_, ⟨.chain hopen he.denotes hdenotes hneg hstep, ?_, rfl⟩, hv'⟩
  · rw [hexpr, hfold, rightSide, hstep]
    simp only [Bool.false_eq_true, if_false]
    rw [bind_of_ok hr]
  · rw [Expr.valueType, Phrase.typeIn, he.valueType]

theorem opens_step {lhs : Phrase} {op : Operator} (hlhs : Opens lhs sc) (hopen : lhs.isOpen)
    (hstep : op.isStep) : Opens (.step lhs op) sc := by
  intro s w hs hw
  rw [Phrase.spell, List.append_assoc, List.cons_append, List.nil_append] at hs
  obtain ⟨e, u, hexpr, he, hu⟩ := hlhs hs (.mark op _)
  have hneg : op ≠ .neg := by
    rintro rfl
    cases hstep
  obtain ⟨pos, v, hv, hfold⟩ := foldOperators_of_mark hu hneg e
  refine ⟨.binary e.pos e op (.literal pos "1" .number), v, ?_,
    ⟨.step hopen he.denotes hstep, ?_, rfl⟩, hv⟩
  · rw [hexpr, hfold, rightSide, if_pos hstep]
    rfl
  · rw [Expr.valueType, Phrase.typeIn, he.valueType]

theorem parses_not {inner : Phrase} (hinner : Parses inner sc) : Parses (.not inner) sc := by
  intro s w hs hw
  obtain ⟨t, rest, hunread, ht, hrest⟩ := next_faces hs
  obtain ⟨e, u, hexpr, he, hu⟩ := hinner hrest hw
  refine ⟨.binary t.pos e .neg (.literal t.pos "" .none), u, ?_, ⟨.not he.denotes, rfl, rfl⟩, hu⟩
  rw [expr_of_cons hunread]
  unfold exprStep
  simp only [kind_of_mark ht]
  rw [bind_of_ok hexpr]
  rfl

end Phrases

section Calls

theorem commaSeparated_complete {args : List Phrase} (hne : args ≠ [])
    (hargs : ∀ x ∈ args, Parses x sc)
    (h : s.Faces sc (joined (Phrase.spellAll args) false ++ .mark .rightParen :: w)) :
    ∃ es u, bounded (commaSeparated expr) s = .ok es u ∧ List.Forall₂ Phrase.Denotes args es ∧
      u.Faces sc (.mark .rightParen :: w) := by
  induction args generalizing s with
  | nil => exact absurd rfl hne
  | cons x xs ih =>
    have hx := hargs x List.mem_cons_self
    by_cases hxs : xs = []
    · rw [hxs] at h ⊢
      obtain ⟨e, u, hexpr, he, hu⟩ := hx h (.mark rfl)
      have hend : accept .comma u = .ok false u := accept_other hu rfl (head?_mark_ne (by decide))
      refine ⟨[e], u, ?_, .cons he.denotes .nil, hu⟩
      rw [commaSeparated_eq, bind_of_ok hexpr, bind_of_ok hend]
      rfl
    · rw [Phrase.spellAll, joined_cons (.inl (spellAll_ne_nil hxs)), List.append_assoc,
        List.cons_append] at h
      obtain ⟨e, u, hexpr, he, hu⟩ := hx h (.mark rfl)
      obtain ⟨v, haccept, hv⟩ := accept_faces hu
      obtain ⟨es, v', hrest, hes, hv'⟩ :=
        ih hxs (fun y hy => hargs y (List.mem_cons_of_mem x hy)) hv
      refine ⟨e :: es, v', ?_, .cons he.denotes hes, hv'⟩
      rw [commaSeparated_eq, bind_of_ok hexpr, bind_of_ok haccept]
      simp only [if_true]
      rw [bind_of_ok hrest]
      rfl

theorem callValues_complete {args : List Phrase} (hargs : ∀ x ∈ args, Parses x sc)
    (h : s.Faces sc (joined (Phrase.spellAll args) false ++ .mark .rightParen :: w)) :
    ∃ es u, callValues expr s = .ok es u ∧ List.Forall₂ Phrase.Denotes args es ∧
      u.Faces sc (.mark .rightParen :: w) := by
  unfold callValues
  cases args with
  | nil =>
    refine ⟨[], s, ?_, .nil, h⟩
    rw [bind_of_ok (check_faces h)]
    rfl
  | cons x xs =>
    obtain ⟨es, u, hes, hdenotes, hu⟩ := commaSeparated_complete (List.cons_ne_nil x xs) hargs h
    have hmore : check .rightParen s = .ok false s := by
      obtain ⟨w', hw'⟩ := exists_joined_eq x.spell (Phrase.spellAll xs) false
      rw [Phrase.spellAll, hw', List.append_assoc] at h
      exact check_other h rfl (x.head?_spell_ne _ rfl)
    refine ⟨es, u, ?_, hdenotes, hu⟩
    rw [bind_of_ok hmore]
    exact hes

theorem callArgs_complete {args : List Phrase} {callee : Proc Expr}
    (hlength : args.length = callee.signature.arity) (hargs : ∀ x ∈ args, Parses x sc)
    (h : s.Faces sc (.mark .leftParen :: (joined (Phrase.spellAll args) false ++
      .mark .rightParen :: w))) (pos : Position) :
    ∃ bindings u, callArgs expr callee pos s = .ok bindings u ∧
      List.Forall₂ Phrase.Denotes args (bindings.map Binding.value) ∧ u.Faces sc w := by
  obtain ⟨t, v, hopen, hv⟩ := expect_faces h
  obtain ⟨es, u, hes, hdenotes, hu⟩ := callValues_complete hargs hv
  obtain ⟨t', u', hclose, hu'⟩ := expect_faces hu
  have hsame : es.length = callee.params.length := by
    rw [← hdenotes.length_eq, hlength]
    rfl
  refine ⟨callee.params.zipWith (fun p value => ⟨p.name, p.typeName, value⟩) es, u', ?_, ?_, hu'⟩
  · unfold callArgs
    rw [bind_of_ok hopen, bind_of_ok hes, bind_of_ok hclose, if_neg (not_not_intro hsame)]
    rfl
  · rw [map_value_zipWith hsame]
    exact hdenotes

theorem opens_call {name : String} {args : List Phrase} {p : Signature}
    (hv : sc.var? name = none) (hp : sc.proc? name = some p) (hlength : args.length = p.arity)
    (hargs : ∀ x ∈ args, Parses x sc) : Opens (.call name args) sc := by
  intro s w hs _
  rw [Phrase.spell] at hs
  simp only [List.append_assoc, List.cons_append, List.nil_append] at hs
  obtain ⟨pos, callee, u, hexpr, rfl, rfl, hu⟩ := expr_of_procedure hs hv hp
  obtain ⟨bindings, u', hcall, hdenotes, hu'⟩ := callArgs_complete hlength hargs hu pos
  refine ⟨.call pos callee bindings, u', ?_, ⟨.call hdenotes, ?_, rfl⟩, hu'⟩
  · rw [hexpr, bind_of_ok hcall]
  · rw [Phrase.typeIn, hp]
    rfl

theorem opens_implCall {struct name : String} {args : List Phrase} {d : StructDef}
    {p : Signature} (hv : sc.var? struct = none) (hproc : sc.proc? struct = none)
    (hd : sc.struct? struct = some d) (hp : sc.method? struct name = some p)
    (hlength : args.length = p.arity) (hargs : ∀ x ∈ args, Parses x sc) :
    Opens (.implCall struct name args) sc := by
  intro s w hs _
  rw [Phrase.spell] at hs
  simp only [List.append_assoc, List.cons_append, List.nil_append] at hs
  obtain ⟨pos, u, hexpr, rfl, hu⟩ := expr_of_struct hs hv hproc hd
  obtain ⟨v, hcolons, hv⟩ := accept_faces hu
  obtain ⟨method, v', hmethod, rfl, hv'⟩ := expect_name_faces hv
  have hfound := hp
  rw [← hv'.scope, Tables.method?_scope] at hfound
  obtain ⟨entry, hlookup, hmethods⟩ := Option.bind_eq_some_iff.mp hfound
  obtain ⟨callee, hcallee, rfl⟩ := Option.map_eq_some_iff.mp hmethods
  have hstruct : entry.decl.struct.name = d.name := SymbolTable.name_of_lookup? hlookup
  have hname : callee.name = method.lexeme := by simpa using List.find?_some hcallee
  obtain ⟨bindings, u', hcall, hdenotes, hu'⟩ := callArgs_complete hlength hargs hv' method.pos
  have hmeans : (Phrase.implCall entry.decl.struct.name callee.name args).Denotes
      (.implCall pos entry.id entry.decl.struct.name callee bindings) := .implCall hdenotes
  rw [hname] at hmeans
  refine ⟨.implCall pos entry.id entry.decl.struct.name callee bindings, u', ?_, ⟨?_, ?_, rfl⟩, hu'⟩
  · rw [hexpr]
    unfold structUse
    rw [bind_of_ok hcolons]
    simp only [if_true]
    rw [bind_of_ok hmethod, tables_bind]
    simp only [hlookup, hcallee]
    rw [bind_of_ok hcall]
  · rw [← hstruct]
    exact hmeans
  · rw [Phrase.typeIn, hp]
    rfl

end Calls

section Fields

/-- A variable that has a field is bound to an instance with that field. -/
theorem exists_field {owner field : String} {f : TypedName} {v : Variable}
    (hf : sc.field? owner field = some f) (hv : sc.var? owner = some v)
    {entry : Entry (Binding Expr)} (hentry : entry.decl.variable = v)
    (hfaithful : entry.decl.value.Faithful) :
    ∃ value b, entry.decl.value.instance? = some value ∧ value.Complete ∧
      value.field? field = some b ∧ b.typed = f := by
  unfold Scope.field? at hf
  rw [hv, Option.bind_some] at hf
  obtain ⟨d, hd, hfind⟩ := Option.bind_eq_some_iff.mp hf
  rw [← hentry] at hd
  obtain ⟨value, hvalue, rfl⟩ := Option.map_eq_some_iff.mp hd
  have hcomplete := hfaithful value hvalue
  rw [← hcomplete.field? field] at hfind
  obtain ⟨b, hb, htyped⟩ := Option.map_eq_some_iff.mp hfind
  exact ⟨value, b, hvalue, hcomplete, hb, htyped⟩

/-- A variable that has a field is in scope. -/
theorem exists_owner {owner field : String} {f : TypedName} (hf : sc.field? owner field = some f) :
    ∃ v, sc.var? owner = some v := by
  obtain ⟨d, hd, _⟩ := Option.bind_eq_some_iff.mp hf
  obtain ⟨v, hv, _⟩ := Option.bind_eq_some_iff.mp hd
  exact ⟨v, hv⟩

/-- A field of a variable has been read, and what may be done with it is next. -/
theorem expr_of_field {owner field : String} {f : TypedName}
    (hf : sc.field? owner field = some f)
    (h : s.Faces sc (.name owner :: .mark .dot :: .name field :: w)) :
    ∃ pos entry, ∃ (value : Instance Expr) (b : Binding Expr), ∃ u, expr s = (do
        if ← accept .assign then
          let newValue ← expr
          let updated := (value.withField? field newValue).getD value
          let current ← currentBinding entry
          rebind entry (.structInstance current.value.pos updated)
          return Expr.fieldAssign pos (← currentBinding entry) (b.rebind newValue) newValue
        else
          foldOperators (.fieldAccess pos entry.decl b)) u ∧
      entry ∈ u.tables.vars.entries ∧ entry.decl.name = owner ∧
      entry.decl.value.instance? = some value ∧ value.Complete ∧
      value.field? field = some b ∧ b.typed = f ∧ u.Faces sc w := by
  obtain ⟨v, hv⟩ := exists_owner hf
  obtain ⟨pos, entry, u, hexpr, hmem, hname, hentry, hu⟩ := expr_of_variable h hv
  obtain ⟨value, b, hvalue, hcomplete, hb, htyped⟩ :=
    exists_field hf hv hentry (hu.regular.faithful entry hmem)
  have hno : accept .assign u = .ok false u := accept_other hu rfl (head?_mark_ne (by decide))
  obtain ⟨u', hdot, hu'⟩ := accept_faces hu
  obtain ⟨name, u'', hfield, rfl, hu''⟩ := expect_name_faces hu'
  refine ⟨pos, entry, value, b, u'', ?_, ?_, hname, hvalue, hcomplete, hb, htyped, hu''⟩
  · rw [hexpr]
    unfold variableUse
    rw [bind_of_ok hno]
    simp only [Bool.false_eq_true, if_false]
    rw [bind_of_ok hdot]
    simp only [if_true]
    unfold fieldUse
    rw [bind_of_ok hfield]
    simp only [hvalue, hb]
  · rw [tables_of_expect hfield, tables_of_accept hdot]
    exact hmem

theorem opens_fieldAccess {owner field : String} {f : TypedName}
    (hf : sc.field? owner field = some f) : Opens (.fieldAccess owner field) sc := by
  intro s w hs hw
  obtain ⟨pos, entry, value, b, u, hexpr, _, rfl, _, hcomplete, hb, htyped, hu⟩ :=
    expr_of_field hf hs
  have hmeans : (Phrase.fieldAccess entry.decl.name b.name).Denotes
      (.fieldAccess pos entry.decl b) := .fieldAccess
  rw [hcomplete.name_of_field? hb] at hmeans
  refine ⟨.fieldAccess pos entry.decl b, u, ?_, ⟨hmeans, ?_, rfl⟩, hu⟩
  · rw [hexpr, bind_of_ok (accept_other hu rfl hw.1)]
    rfl
  · rw [Phrase.typeIn, hf, ← htyped]
    rfl

theorem extends_of_expr {e : Expr} {u : State} (hs : s.Regular) (h : expr s = .ok e u) :
    s.Extends u :=
  (StepLaw.relates_expr (L := declarationLaw)).ok trivial h hs.numbered

theorem currentBinding_eq (entry : Entry (Binding Expr)) (s : State) :
    currentBinding entry s = .ok ((s.tables.vars.get? entry.id).getD entry.decl) s := rfl

theorem parses_assign {name : String} {value : Phrase} {v : Variable}
    (hv : sc.var? name = some v) (hvalue : Parses value sc) : Parses (.assign name value) sc := by
  intro s w hs hw
  obtain ⟨pos, entry, u, hexpr, hmem, rfl, _, hu⟩ := expr_of_variable hs hv
  obtain ⟨u', hmark, hu'⟩ := accept_faces hu
  obtain ⟨e, u'', he, hmeans, hu''⟩ := hvalue hu' hw
  have hextends := extends_of_expr hu'.regular he
  have htarget := hextends.currentBinding_name (by rw [tables_of_accept hmark]; exact hmem)
    (currentBinding_eq entry u'')
  have hdenotes :
      (Phrase.assign ((u''.tables.vars.get? entry.id).getD entry.decl).name value).Denotes
        (.assign pos ((u''.tables.vars.get? entry.id).getD entry.decl) e) := .assign hmeans.denotes
  rw [htarget] at hdenotes
  refine ⟨_, u'', ?_, ⟨hdenotes, rfl, rfl⟩, hu''⟩
  rw [hexpr]
  unfold variableUse
  rw [bind_of_ok hmark]
  simp only [if_true]
  rw [bind_of_ok he, bind_of_ok (currentBinding_eq entry u'')]
  rfl

theorem parses_fieldAssign {owner field : String} {value : Phrase} {f : TypedName}
    (hf : sc.field? owner field = some f) (hvalue : Parses value sc) :
    Parses (.fieldAssign owner field value) sc := by
  intro s w hs hw
  obtain ⟨pos, entry, old, b, u, hexpr, hmem, rfl, hold, hcomplete, hb, htyped, hu⟩ :=
    expr_of_field hf hs
  obtain ⟨u', hmark, hu'⟩ := accept_faces hu
  obtain ⟨e, v, he, hmeans, hv⟩ := hvalue hu' hw
  have hmem' : entry ∈ u'.tables.vars.entries := by
    rw [tables_of_accept hmark]
    exact hmem
  have hextends := extends_of_expr hu'.regular he
  obtain ⟨hupdated, hstruct⟩ := hcomplete.withField? field e
  generalize hnew : Expr.structInstance
    ((v.tables.vars.get? entry.id).getD entry.decl).value.pos
    ((old.withField? field e).getD old) = new
  have hfaithful : new.Faithful := by
    rw [← hnew]
    exact Expr.faithful_structInstance hupdated
  have hscope : (v.rebind entry new).tables.scope = v.tables.scope := by
    refine State.scope_rebind fun g hg hid => ?_
    rw [hextends.variable_eq (hv.scope.trans hu'.scope.symm) hmem' hg hid]
    unfold Binding.variable
    rw [hold, ← hnew, Expr.instance?, Option.map_some, Option.map_some, hstruct]
  have hrebound := currentBinding_eq entry (v.rebind entry new)
  have howner := (hextends.trans (.rebind hextends.numbered entry new)).currentBinding_name hmem'
    hrebound
  generalize ((v.rebind entry new).tables.vars.get? entry.id).getD entry.decl = current
    at hrebound howner
  have hdenotes : (Phrase.fieldAssign current.name (b.rebind e).name value).Denotes
      (.fieldAssign pos current (b.rebind e) e) := .fieldAssign hmeans.denotes
  rw [howner, show (b.rebind e).name = b.name from rfl, hcomplete.name_of_field? hb] at hdenotes
  refine ⟨.fieldAssign pos current (b.rebind e) e, v.rebind entry new, ?_, ⟨hdenotes, ?_, rfl⟩,
    ⟨hv.regular.rebind entry hfaithful, hv.advisory, hscope.trans hv.scope, hv.terminals⟩⟩
  · rw [hexpr, bind_of_ok hmark]
    simp only [if_true]
    rw [bind_of_ok he, bind_of_ok (currentBinding_eq entry v), hnew]
    have hset : rebind entry new v = .ok () (v.rebind entry new) := rfl
    rw [bind_of_ok hset, bind_of_ok hrebound]
    rfl
  · rw [Phrase.typeIn, hf, ← htyped]
    rfl

/-- The next field of a struct literal has been read. -/
theorem literalField_complete (struct : String) {d : TypedName} {ds : List TypedName} {x : Phrase}
    (hx : Parses x sc) (h : s.Faces sc (.name d.name :: .mark .colon :: (x.spell ++ w)))
    (hw : Stops w) :
    ∃ (e : Expr) (u : State), x.Denotes e ∧ u.Faces sc w ∧
      literalFields expr struct (d :: ds) s = (do
        let binding : Binding Expr := ⟨d.name, d.typeName, e⟩
        if ← accept .comma then
          return binding :: (← literalFields expr struct ds)
        else
          return [binding]) u := by
  have hmore : check .rightBrace s = .ok false s := check_other h rfl head?_name_ne
  obtain ⟨t, u, hname, hsame, hu⟩ := expect_name_faces h
  obtain ⟨t', u', hcolon, hu'⟩ := expect_faces hu
  obtain ⟨e, u'', he, hmeans, hu''⟩ := hx hu' hw
  refine ⟨e, u'', hmeans.denotes, hu'', ?_⟩
  rw [literalFields, bind_of_ok hmore]
  simp only [Bool.false_eq_true, if_false]
  rw [bind_of_ok hname, if_neg (not_not_intro hsame), bind_of_ok hcolon, bind_of_ok he]

/-- The fields of a struct literal are read in the order of their declaration. -/
theorem literalFields_complete (struct : String) {declared : List TypedName} {comma : Bool}
    {fields : List (String × Phrase)} (hnames : fields.map Prod.fst = declared.map TypedName.name)
    (hfields : ∀ x ∈ fields.map Prod.snd, Parses x sc)
    (h : s.Faces sc (joined (Phrase.spellFields fields) comma ++ .mark .rightBrace :: w)) :
    ∃ bindings u, literalFields expr struct declared s = .ok bindings u ∧
      fields.map Prod.fst = bindings.map Binding.name ∧
      List.Forall₂ Phrase.Denotes (fields.map Prod.snd) (bindings.map Binding.value) ∧
      bindings.length = declared.length ∧ u.Faces sc (.mark .rightBrace :: w) := by
  induction declared generalizing fields s with
  | nil =>
    obtain rfl := List.map_eq_nil_iff.mp hnames
    refine ⟨[], s, ?_, rfl, .nil, rfl, h⟩
    rw [literalFields, bind_of_ok (check_faces h)]
    rfl
  | cons d ds ih =>
    obtain ⟨⟨name, x⟩, rest, rfl, rfl, hrest⟩ := List.map_eq_cons_iff.mp hnames
    have hx := hfields x List.mem_cons_self
    have hothers : ∀ y ∈ rest.map Prod.snd, Parses y sc :=
      fun y hy => hfields y (List.mem_cons_of_mem x hy)
    by_cases hmore : rest ≠ [] ∨ comma
    · have hparts : Phrase.spellFields rest ≠ [] ∨ comma := hmore.imp_left spellFields_ne_nil
      rw [Phrase.spellFields, joined_cons hparts] at h
      simp only [List.append_assoc, List.cons_append] at h
      obtain ⟨e, u, he, hu, hfirst⟩ := literalField_complete struct hx h (.mark rfl)
      obtain ⟨v, haccept, hv⟩ := accept_faces hu
      obtain ⟨bindings, v', hall, hsame, hdenotes, hlength, hv'⟩ := ih hrest hothers hv
      refine ⟨⟨d.name, d.typeName, e⟩ :: bindings, v', ?_, ?_, .cons he hdenotes, ?_, hv'⟩
      · rw [hfirst, bind_of_ok haccept]
        simp only [if_true]
        rw [bind_of_ok hall]
        rfl
      · rw [List.map_cons, List.map_cons, hsame]
      · rw [List.length_cons, List.length_cons, hlength]
    · obtain ⟨hnil, hcomma⟩ := not_or.mp hmore
      obtain rfl := not_not.mp hnil
      obtain rfl := List.map_eq_nil_iff.mp hrest.symm
      rw [Bool.not_eq_true] at hcomma
      rw [hcomma] at h
      obtain ⟨e, u, he, hu, hfirst⟩ := literalField_complete struct hx h (.mark rfl)
      have hend : accept .comma u = .ok false u := accept_other hu rfl (head?_mark_ne (by decide))
      refine ⟨[⟨d.name, d.typeName, e⟩], u, ?_, rfl, .cons he .nil, rfl, hu⟩
      rw [hfirst, bind_of_ok hend]
      rfl

theorem parses_structLiteral {name : String} {fields : List (String × Phrase)} {comma : Bool}
    {d : StructDef} (hv : sc.var? name = none) (hp : sc.proc? name = none)
    (hd : sc.struct? name = some d) (hnames : fields.map Prod.fst = d.fieldNames)
    (hfields : ∀ x ∈ fields.map Prod.snd, Parses x sc) :
    Parses (.structLiteral name fields comma) sc := by
  intro s w hs _
  rw [Phrase.spell] at hs
  simp only [List.append_assoc, List.cons_append, List.nil_append] at hs
  obtain ⟨pos, u, hexpr, rfl, hu⟩ := expr_of_struct hs hv hp hd
  have hno : accept .doubleColon u = .ok false u := accept_other hu rfl (head?_mark_ne (by decide))
  obtain ⟨t, u', hopen, hu'⟩ := expect_faces hu
  obtain ⟨bindings, v, hall, hsame, hdenotes, hlength, hv⟩ :=
    literalFields_complete d.name hnames hfields hu'
  obtain ⟨t', v', hclose, hv'⟩ := expect_faces hv
  have hmeans := @Phrase.Denotes.structLiteral pos ⟨d, bindings⟩ fields comma hsame hdenotes
  refine ⟨.structInstance pos ⟨d, bindings⟩, v', ?_, ⟨hmeans, rfl, ?_⟩, hv'⟩
  · rw [hexpr]
    unfold structUse
    rw [bind_of_ok hno]
    simp only [Bool.false_eq_true, if_false]
    unfold structLiteral
    rw [bind_of_ok hopen, bind_of_ok hall, bind_of_ok hclose,
      if_neg (by rw [hlength]; exact lt_irrefl _)]
    rfl
  · rw [Phrase.structIn, hd]
    rfl

end Fields

/-- A phrase whose names resolve is read. -/
theorem fits_reads {x : Phrase} (h : x.Fits sc) : (x.isOpen → Opens x sc) ∧ Parses x sc := by
  have whole {y : Phrase} (hopen : y.isOpen = false) (hy : Parses y sc) :
      (y.isOpen → Opens y sc) ∧ Parses y sc :=
    ⟨fun hy => absurd hy (by rw [hopen]; exact Bool.false_ne_true), hy⟩
  -- A chain needs more of its left side than that it is read: an operator stands behind it.
  induction h with
  | operand hy => exact ⟨fun _ => opens_operand hy, (opens_operand hy).parses⟩
  | call hv hp hlength _ ih =>
    have hopens := opens_call hv hp hlength fun x hx => (ih x hx).2
    exact ⟨fun _ => hopens, hopens.parses⟩
  | implCall hv hproc hd hp hlength _ ih =>
    have hopens := opens_implCall hv hproc hd hp hlength fun x hx => (ih x hx).2
    exact ⟨fun _ => hopens, hopens.parses⟩
  | fieldAccess hf => exact ⟨fun _ => opens_fieldAccess hf, (opens_fieldAccess hf).parses⟩
  | chain hopen _ hneg hstep hrhs ih =>
    have hopens := opens_chain (ih.1 hopen) hopen hneg hstep hrhs
    exact ⟨fun _ => hopens, hopens.parses⟩
  | step hopen _ hstep ih =>
    have hopens := opens_step (ih.1 hopen) hopen hstep
    exact ⟨fun _ => hopens, hopens.parses⟩
  | not _ ih => exact whole rfl (parses_not ih.2)
  | structLiteral hv hp hd hnames _ ih =>
    exact whole rfl (parses_structLiteral hv hp hd hnames fun x hx => (ih x hx).2)
  | assign hv _ ih => exact whole rfl (parses_assign hv ih.2)
  | fieldAssign hf _ ih => exact whole rfl (parses_fieldAssign hf ih.2)

theorem fits_parses {x : Phrase} (h : x.Fits sc) : Parses x sc :=
  (fits_reads h).2

end Parse
end ScriptFront
