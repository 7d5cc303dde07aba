import ScriptFront.Proofs.Surface.CompleteExpressions
import ScriptFront.Proofs.Surface.SoundPrograms

/-!
# Statements whose names resolve are read

In front of a statement whose names resolve, and of a semicolon behind it, the reader of statements
succeeds: it gives what the statement stands for, and declares what the statement declares.

**Algorithm.** The statements of a block and those of a program are read by the same steps, which
only end differently; `Steps` is a run of such steps.

**Results.**

* `statement_parses`, `items_run`: statements and lists of statements are read.
* `finish_complete`: a program is read from any text for it whose names resolve.
-/

namespace ScriptFront

open Surface

namespace State.Faces

variable {s : State} {sc : Scope} {w : List Terminal}

theorem report (h : s.Faces sc w) (p : Problem) (hp : p.cause.stage = .advisory) :
    (s.report p).Faces sc w where
  regular := h.regular.report p
  advisory := by
    unfold State.report
    split
    · exact h.advisory
    · intro q hq
      rcases List.mem_append.mp hq with hq | hq
      · exact h.advisory q hq
      · rw [List.mem_singleton.mp hq]
        exact hp
  scope := by
    rw [(report_same s p).2]
    exact h.scope
  terminals := by
    rw [State.terminals, (report_same s p).1]
    exact h.terminals

theorem declare {sc' : Scope} (h : s.Faces sc w) (symbol : Symbol) (hid : symbol.id = s.nextId)
    (hvalue : ∀ e, symbol = .variable e → e.decl.value.Faithful)
    (hscope : (s.tables.declare symbol).scope = sc') :
    State.Faces { s with nextId := s.nextId + 1, tables := s.tables.declare symbol } sc' w where
  regular := h.regular.declare symbol hid hvalue
  advisory := h.advisory
  scope := hscope
  terminals := h.terminals

theorem openScope (h : s.Faces sc w) {bindings : List (Binding Expr)}
    (hbindings : ∀ b ∈ bindings, b.value.Faithful) :
    (s.openScope bindings).Faces (sc.addVars (bindings.map Binding.variable)) w where
  regular := h.regular.openScope hbindings
  advisory := h.advisory
  scope := by rw [scope_openScope, h.scope]
  terminals := h.terminals

theorem closeScope {t : State} {bindings : List (Binding Expr)} {sc' : Scope}
    {w' : List Terminal} (h : s.Faces sc w) (hst : (s.openScope bindings).Extends t)
    (ht : t.Faces sc' w') :
    (t.closeScope (s.entriesFor bindings)).Faces
      (sc'.leave sc.vars.length bindings.length) w' where
  regular := ht.regular.closeScope h.regular.numbered hst
  advisory := ht.advisory
  scope := by rw [scope_closeScope h.regular.numbered hst, ht.scope, h.scope]
  terminals := ht.terminals

end State.Faces

namespace Parse

variable {sc : Scope} {s : State} {w : List Terminal}

section Simple

theorem typedName_complete {x : TypedName} (h : s.Faces sc (spellTyped x ++ w)) :
    ∃ u, typedName s = .ok x u ∧ u.Faces sc w := by
  obtain ⟨t, u, hname, hsame, hu⟩ := expect_name_faces h
  obtain ⟨t', u', hcolon, hu'⟩ := expect_faces hu
  obtain ⟨t'', u'', htype, hsame', hu''⟩ := expect_name_faces hu'
  refine ⟨u'', ?_, hu''⟩
  unfold typedName
  rw [bind_of_ok hname, bind_of_ok hcolon, bind_of_ok htype, hsame, hsame']
  rfl

theorem optionalType_complete {written : Option String} (h : s.Faces sc (spellType written ++ w))
    (hw : w.head? ≠ some (.mark .colon)) :
    ∃ u, optionalType s = .ok written u ∧ u.Faces sc w := by
  unfold optionalType
  cases written with
  | none =>
    have hno : accept .colon s = .ok false s := accept_other h rfl hw
    exact ⟨s, by rw [bind_of_ok hno]; rfl, h⟩
  | some typeName =>
    obtain ⟨u, hcolon, hu⟩ := accept_faces h
    obtain ⟨t, u', htype, hsame, hu'⟩ := expect_name_faces hu
    refine ⟨u', ?_, hu'⟩
    rw [bind_of_ok hcolon]
    simp only [if_true]
    rw [bind_of_ok htype, hsame]
    rfl

theorem typedNames_complete {xs : List TypedName} (hne : xs ≠ [])
    (h : s.Faces sc (joined (xs.map spellTyped) false ++ .mark .rightParen :: w)) :
    ∃ u, bounded typedNames s = .ok xs u ∧ u.Faces sc (.mark .rightParen :: w) := by
  induction xs generalizing s with
  | nil => exact absurd rfl hne
  | cons x xs ih =>
    by_cases hxs : xs = []
    · rw [hxs] at h ⊢
      obtain ⟨u, hx, hu⟩ := typedName_complete h
      have hend : accept .comma u = .ok false u := accept_other hu rfl (head?_mark_ne (by decide))
      refine ⟨u, ?_, hu⟩
      rw [typedNames_eq, bind_of_ok hx, bind_of_ok hend]
      rfl
    · rw [List.map_cons, joined_cons (.inl (map_ne_nil hxs)), List.append_assoc,
        List.cons_append] at h
      obtain ⟨u, hx, hu⟩ := typedName_complete h
      obtain ⟨v, haccept, hv⟩ := accept_faces hu
      obtain ⟨v', hrest, hv'⟩ := ih hxs hv
      refine ⟨v', ?_, hv'⟩
      rw [typedNames_eq, bind_of_ok hx, bind_of_ok haccept]
      simp only [if_true]
      rw [bind_of_ok hrest]
      rfl

theorem parameters_complete {xs : List TypedName}
    (h : s.Faces sc (joined (xs.map spellTyped) false ++ .mark .rightParen :: w)) :
    ∃ u, parameters s = .ok xs u ∧ u.Faces sc (.mark .rightParen :: w) := by
  unfold parameters
  cases xs with
  | nil =>
    refine ⟨s, ?_, h⟩
    rw [bind_of_ok (check_faces h)]
    rfl
  | cons x xs =>
    obtain ⟨u, hall, hu⟩ := typedNames_complete (List.cons_ne_nil x xs) h
    have hmore : check .rightParen s = .ok false s := by
      obtain ⟨w', hw'⟩ := exists_joined_eq (spellTyped x) (xs.map spellTyped) false
      rw [List.map_cons, hw', List.append_assoc] at h
      exact check_other h rfl head?_name_ne
    refine ⟨u, ?_, hu⟩
    rw [bind_of_ok hmore]
    exact hall

theorem structFields_complete {xs : List TypedName} {comma : Bool}
    (h : s.Faces sc (joined (xs.map spellTyped) comma ++ .mark .rightBrace :: w)) :
    ∃ u, bounded structFields s = .ok xs u ∧ u.Faces sc (.mark .rightBrace :: w) := by
  induction xs generalizing s with
  | nil =>
    refine ⟨s, ?_, h⟩
    rw [structFields_eq, bind_of_ok (check_faces h)]
    rfl
  | cons x xs ih =>
    have hmore : check .rightBrace s = .ok false s := by
      obtain ⟨w', hw'⟩ := exists_joined_eq (spellTyped x) (xs.map spellTyped) comma
      rw [List.map_cons, hw', List.append_assoc] at h
      exact check_other h rfl head?_name_ne
    by_cases hxs : xs ≠ [] ∨ comma
    · have hparts : xs.map spellTyped ≠ [] ∨ comma := hxs.imp_left map_ne_nil
      rw [List.map_cons, joined_cons hparts, List.append_assoc, List.cons_append] at h
      obtain ⟨u, hx, hu⟩ := typedName_complete h
      obtain ⟨v, haccept, hv⟩ := accept_faces hu
      obtain ⟨v', hrest, hv'⟩ := ih hv
      refine ⟨v', ?_, hv'⟩
      rw [structFields_eq, bind_of_ok hmore]
      simp only [Bool.false_eq_true, if_false]
      rw [bind_of_ok hx, bind_of_ok haccept]
      simp only [if_true]
      rw [bind_of_ok hrest]
      rfl
    · obtain ⟨hnil, hcomma⟩ := not_or.mp hxs
      obtain rfl := not_not.mp hnil
      rw [Bool.not_eq_true] at hcomma
      rw [hcomma] at h
      obtain ⟨u, hx, hu⟩ := typedName_complete h
      have hend : accept .comma u = .ok false u := accept_other hu rfl (head?_mark_ne (by decide))
      refine ⟨u, ?_, hu⟩
      rw [structFields_eq, bind_of_ok hmore]
      simp only [Bool.false_eq_true, if_false]
      rw [bind_of_ok hx, bind_of_ok hend]
      rfl

/-- A report that is only advice changes nothing that is read. -/
theorem checkWrittenType_complete (written : Option String) (value : Expr) (h : s.Faces sc w) :
    ∃ u, checkWrittenType written value s = .ok () u ∧ u.Faces sc w := by
  unfold checkWrittenType
  cases written with
  | none => exact ⟨s, rfl, h⟩
  | some typeName =>
    by_cases hsame : typeName = value.valueType
    · refine ⟨s, ?_, h⟩
      simp only [if_pos hsame]
      rfl
    · refine ⟨_, ?_, h.report ⟨.typeMismatch typeName value.valueType, value.pos⟩ rfl⟩
      simp only [if_neg hsame]
      rfl

/-- A new declaration, and a warning if the table already had one of its name. -/
theorem declareNew_complete {sc' : Scope} (h : s.Faces sc w) (symbol : Symbol)
    (hid : symbol.id = s.nextId) (hvalue : ∀ e, symbol = .variable e → e.decl.value.Faithful)
    (hscope : (s.tables.declare symbol).scope = sc') (sort : String) (name : Token) :
    ∃ u, warnIfShadowed (s.tables.shadows symbol) sort name
        { s with nextId := s.nextId + 1, tables := s.tables.declare symbol } = .ok () u ∧
      u.tables = s.tables.declare symbol ∧ u.Faces sc' w := by
  have hdeclared := h.declare symbol hid hvalue hscope
  unfold warnIfShadowed
  cases s.tables.shadows symbol with
  | false => exact ⟨_, rfl, rfl, hdeclared⟩
  | true => exact ⟨_, rfl, (State.report_same _ _).2, hdeclared.report ⟨.redeclared _ _, _⟩ rfl⟩

theorem condition_complete {x : Phrase} (hx : x.Fits sc) (htest : x.isTest sc)
    (h : s.Faces sc (x.spell ++ w)) (hw : Stops w) :
    ∃ e u, condition s = .ok e u ∧ x.Means sc e ∧ u.Faces sc w := by
  obtain ⟨e, u, hexpr, he, hu⟩ := fits_parses hx h hw
  refine ⟨e, u, ?_, he, hu⟩
  have hbool : ¬ (e.kind ≠ .binary ∧ e.valueType ≠ "bool") := by
    rintro ⟨hkind, htype⟩
    rw [he.valueType] at htype
    cases he.denotes with
    | chain => exact hkind rfl
    | step => exact hkind rfl
    | _ => exact htype htest
  unfold condition
  rw [bind_of_ok hexpr, if_neg hbool]
  rfl

/-- The statement is read in front of a semicolon; the first scope is the one in front of it, the
other one that behind it. -/
def StatementParses (x : Statement) (sc sc' : Scope) : Prop :=
  ∀ ⦃s : State⦄ ⦃w : List Terminal⦄, s.Faces sc (x.spell ++ .mark .semicolon :: w) →
    ∃ t rest e u, s.unread = t :: rest ∧ t.kind ≠ .semicolon ∧ t.kind ≠ .rightBrace ∧
      statementFrom block t (s.consume t rest) = .ok e u ∧ x.Denotes e ∧
      u.Faces sc' (.mark .semicolon :: w)

theorem statementFrom_of_startsPhrase {t : Token} (h : t.terminal.startsPhrase) :
    t.kind ≠ .semicolon ∧ t.kind ≠ .rightBrace ∧ statementFrom block t = exprFrom t := by
  unfold Token.terminal at h
  unfold statementFrom
  cases hk : t.kind
  case literal | identifier | not | minus => exact ⟨nofun, nofun, rfl⟩
  all_goals
    simp only [hk] at h
    cases h

theorem parses_phrase {x : Phrase} (hx : x.Fits sc) : StatementParses (.phrase x) sc sc := by
  intro s w hs
  obtain ⟨a, v, hv, ha⟩ := x.spell_cons
  obtain ⟨e, u, hexpr, he, hu⟩ := fits_parses hx hs (.mark rfl)
  rw [Statement.spell, hv, List.cons_append] at hs
  obtain ⟨t, rest, hunread, rfl, _⟩ := next_faces hs
  obtain ⟨hsemicolon, hbrace, hfrom⟩ := statementFrom_of_startsPhrase ha
  refine ⟨t, rest, e, u, hunread, hsemicolon, hbrace, ?_, .phrase he.denotes, hu⟩
  rw [hfrom, exprFrom_eq, ← expr_of_cons hunread]
  exact hexpr

/-- A statement that starts with a keyword. -/
theorem parses_keyword {x : Statement} {sc' : Scope} {k : TokenKind} {v : List Terminal}
    (hspell : x.spell = .mark k :: v) (hk : k ≠ .semicolon) (hk' : k ≠ .rightBrace)
    (h : ∀ ⦃t : Token⦄ ⦃s : State⦄ ⦃w : List Terminal⦄, t.kind = k →
      s.Faces sc (v ++ .mark .semicolon :: w) → ∃ e u, statementFrom block t s = .ok e u ∧
        x.Denotes e ∧ u.Faces sc' (.mark .semicolon :: w)) :
    StatementParses x sc sc' := by
  intro s w hs
  rw [hspell, List.cons_append] at hs
  obtain ⟨t, rest, hunread, ht, hrest⟩ := next_faces hs
  have hkind := kind_of_mark ht
  obtain ⟨e, u, hread, he, hu⟩ := h hkind hrest
  exact ⟨t, rest, e, u, hunread, hkind ▸ hk, hkind ▸ hk', hread, he, hu⟩

theorem parses_letStatement {name : String} {hint : Option String} {x : Phrase} (hx : x.Fits sc) :
    StatementParses (.letStatement name hint x) sc
      (sc.addVars [⟨name, hint.getD (x.typeIn sc), x.structIn sc⟩]) := by
  have hspell : (Statement.letStatement name hint x).spell =
      .mark .letWord :: .name name :: (spellType hint ++ .mark .assign :: x.spell) := by
    rw [Statement.spell, List.cons_append, List.cons_append]
  refine parses_keyword hspell nofun nofun fun t s w hk hs => ?_
  simp only [List.append_assoc, List.cons_append] at hs
  obtain ⟨t₁, u, hname, rfl, hu⟩ := expect_name_faces hs
  obtain ⟨u₁, hwritten, hu₁⟩ := optionalType_complete hu (head?_mark_ne (by decide))
  obtain ⟨t₂, u₂, hassign, hu₂⟩ := expect_faces hu₁
  obtain ⟨e, u₃, hexpr, he, hu₃⟩ := fits_parses hx hu₂ (.mark rfl)
  obtain ⟨u₄, hcheck, hu₄⟩ := checkWrittenType_complete hint e hu₃
  obtain ⟨_, _, _, hfaithful⟩ := expr_denotes hu₂.regular hexpr
  generalize hbinding : (⟨t₁.lexeme, hint.getD e.valueType, e.boundValue⟩ : Binding Expr) = b
  have hscope : (u₄.tables.declare (.variable ⟨u₄.nextId, b⟩)).scope =
      sc.addVars [⟨t₁.lexeme, hint.getD (x.typeIn sc), x.structIn sc⟩] := by
    rw [Tables.scope_declare_variable, hu₄.scope, ← hbinding, ← he.valueType, ← he.struct,
      ← Expr.instance?_boundValue]
    rfl
  have hdeclared := hu₄.declare (.variable ⟨u₄.nextId, b⟩) rfl
    (by rintro _ ⟨⟩; rw [← hbinding]; exact hfaithful.boundValue) hscope
  refine ⟨.letStatement t.pos t₁.lexeme (hint.getD e.valueType) e, _, ?_,
    .letStatement he.denotes, hdeclared⟩
  unfold statementFrom
  simp only [hk]
  unfold letStatement
  rw [bind_of_ok hname, bind_of_ok hwritten, bind_of_ok hassign, bind_of_ok hexpr,
    bind_of_ok hcheck, ← hbinding]
  rfl

theorem parses_returnStatement {x : Phrase} (hx : x.Fits sc) :
    StatementParses (.returnStatement (some x)) sc sc := by
  have hspell : (Statement.returnStatement (some x)).spell = .mark .returnWord :: x.spell := by
    rw [Statement.spell]
  refine parses_keyword hspell nofun nofun fun t s w hk hs => ?_
  obtain ⟨e, u, hexpr, he, hu⟩ := fits_parses hx hs (.mark rfl)
  obtain ⟨a, v, hv, ha⟩ := x.spell_cons
  rw [hv, List.cons_append] at hs
  obtain ⟨first, rest, hunread, rfl, _⟩ := next_faces hs
  obtain ⟨hsemicolon, hbrace, _⟩ := statementFrom_of_startsPhrase ha
  refine ⟨.returnStatement t.pos (some e), u, ?_, .returnStatement he.denotes, hu⟩
  unfold statementFrom
  simp only [hk]
  unfold returnStatement
  rw [bind_of_ok (peek_of_cons hunread)]
  simp only [if_neg (not_or.mpr ⟨hsemicolon, hbrace⟩)]
  rw [bind_of_ok hexpr]
  rfl

theorem parses_structDef {name : String} {fields : List TypedName} {comma : Bool} :
    StatementParses (.structDef name fields comma) sc (sc.addStruct ⟨name, fields⟩) := by
  have hspell : (Statement.structDef name fields comma).spell =
      .mark .structWord :: .name name :: .mark .leftBrace ::
        (joined (fields.map spellTyped) comma ++ [.mark .rightBrace]) := by
    rw [Statement.spell, List.cons_append, List.cons_append, List.cons_append]
  refine parses_keyword hspell nofun nofun fun t s w hk hs => ?_
  simp only [List.append_assoc, List.cons_append, List.nil_append] at hs
  obtain ⟨t₁, u, hname, rfl, hu⟩ := expect_name_faces hs
  obtain ⟨t₂, u₁, hopen, hu₁⟩ := expect_faces hu
  obtain ⟨u₂, hfields, hu₂⟩ := structFields_complete hu₁
  obtain ⟨t₃, u₃, hclose, hu₃⟩ := expect_faces hu₂
  have hscope : (u₃.tables.declare (.struct ⟨u₃.nextId, ⟨t₁.lexeme, fields⟩⟩)).scope =
      sc.addStruct ⟨t₁.lexeme, fields⟩ := by
    rw [Tables.scope_declare_struct, hu₃.scope]
  obtain ⟨u₄, hwarn, _, hu₄⟩ := declareNew_complete hu₃ (.struct ⟨u₃.nextId, ⟨t₁.lexeme, fields⟩⟩)
    rfl nofun hscope "struct" t₁
  have hdenotes := @Statement.Denotes.structDef t.pos ⟨t₁.lexeme, fields⟩ comma
  refine ⟨.structDef t.pos ⟨t₁.lexeme, fields⟩, u₄, ?_, hdenotes, hu₄⟩
  unfold statementFrom
  simp only [hk]
  unfold structStatement
  rw [bind_of_ok hname, bind_of_ok hopen, bind_of_ok hfields, bind_of_ok hclose,
    declareNew_bind, bind_of_ok hwarn]
  rfl

end Simple

section Runs

/-- The steps in which the statements of a list are read. -/
inductive Steps : Items → State → List Expr → State → Prop
  | nil {s : State} : Steps [] s [] s
  | cons {item : Option Statement} {items : Items} {s u v : State} {t : Token}
      {rest : List Token} {r : Option Expr} {es : List Expr} : s.unread = t :: rest →
      t.kind ≠ .rightBrace → statement s = (r, u) → u.closedBlocks = 0 →
      isBareReturn r = false → ItemDenotes item r → Steps items u es v →
      Steps (item :: items) s (r.toList ++ es) v

theorem Steps.itemsDenote {items : Items} {es : List Expr} {u : State} (h : Steps items s es u) :
    ItemsDenote items es := by
  induction h with
  | nil => exact .nil
  | cons _ _ _ _ _ hitem _ ih => exact itemsDenote_cons hitem ih

/-- Steps inside of a block. -/
theorem Steps.then_body {items : Items} {es es' : List Expr} {u v : State} {ofProc : Bool}
    (h : Steps items s es u) (hu : body ofProc u = .ok es' v) :
    body ofProc s = .ok (es ++ es') v := by
  induction h with
  | nil => exact hu
  | @cons item items s u' v' t rest r es hunread hk hstep hclosed hbare _ _ ih =>
    have hskip : ¬ (ofProc && isBareReturn (statement s).1) = true := by
      rw [hstep, hbare, Bool.and_false]
      exact Bool.false_ne_true
    rw [body_of_open ofProc hunread hk (hstep ▸ hclosed), if_neg hskip, hstep, bind_of_ok (ih hu),
      List.append_assoc]
    rfl

/-- Steps at the level of a program. -/
theorem Steps.then_finish {items : Items} {es : List Expr} {u : State} (h : Steps items s es u)
    (program : Program) :
    Session.finish ⟨program, s⟩ = Session.finish ⟨program ++ es, u⟩ := by
  induction h generalizing program with
  | nil => rw [List.append_nil]
  | @cons item items s u' v' t rest r es hunread hk hstep _ _ _ _ ih =>
    rw [Session.finish_of_cons hunread, hstep, ih, List.append_assoc]

/-- The list of statements is read by steps, from the first scope to the second. -/
def ItemsRun (items : Items) (sc sc' : Scope) : Prop :=
  ∀ ⦃s : State⦄ ⦃w : List Terminal⦄, s.Faces sc (spellItems items ++ w) →
    ∃ es u, Steps items s es u ∧ u.Faces sc' w

theorem run_nil : ItemsRun [] sc sc :=
  fun s _ hs => ⟨[], s, .nil, hs⟩

theorem run_semicolon {items : Items} {sc' : Scope} (h : ItemsRun items sc sc') :
    ItemsRun (none :: items) sc sc' := by
  intro s w hs
  rw [spellItems, List.cons_append] at hs
  obtain ⟨t, rest, hunread, ht, hrest⟩ := next_faces hs
  have hk := kind_of_mark ht
  obtain ⟨es, u, hsteps, hu⟩ := h hrest
  have hstep : statement s = (none, s.consume t rest) := statement_of_semicolon hunread hk
  exact ⟨es, u, .cons hunread (hk ▸ nofun) hstep hrest.regular.settled.closed rfl trivial hsteps,
    hu⟩

theorem run_cons {x : Statement} {items : Items} {sc₁ sc₂ : Scope} (hx : StatementParses x sc sc₁)
    (hreturn : x ≠ .returnStatement none) (h : ItemsRun (none :: items) sc₁ sc₂) :
    ItemsRun (some x :: none :: items) sc sc₂ := by
  intro s w hs
  rw [spellItems, spellItems, List.append_assoc, List.cons_append] at hs
  obtain ⟨t, rest, e, u, hunread, hsemicolon, hbrace, hread, he, hu⟩ := hx hs
  obtain ⟨es, v, hsteps, hv⟩ := h (s := u) (w := w) (by rw [spellItems]; exact hu)
  have hstep : statement s = (some e, u) := statement_of_ok hunread hsemicolon hread
  have hbare : isBareReturn (some e) = false := by
    cases hr : isBareReturn (some e) with
    | false => rfl
    | true =>
      have hitem : some x = some (.returnStatement none) :=
        eq_bareReturn (show ItemDenotes (some x) (some e) from he) hr
      exact absurd (Option.some.inj hitem) hreturn
  exact ⟨_, v, .cons hunread hbrace hstep hu.regular.settled.closed hbare he hsteps, hv⟩

/-- A block is read with its braces. -/
theorem block_complete {items : Items} {sc' : Scope} (h : ItemsRun items sc sc') (ofProc : Bool)
    (hs : s.Faces sc (.mark .leftBrace :: (spellItems items ++ .mark .rightBrace :: w))) :
    ∃ es u, block ofProc s = .ok es u ∧ ItemsDenote items es ∧ u.Faces sc' w := by
  obtain ⟨t, u, hopen, hu⟩ := expect_faces hs
  obtain ⟨es, v, hsteps, hv⟩ := h hu
  obtain ⟨t', rest, hunread, ht', hrest⟩ := next_faces hv
  have hclose : body ofProc v = .ok [] (v.consume t' rest) :=
    body_of_close ofProc hunread (kind_of_mark ht')
  refine ⟨es, _, ?_, hsteps.itemsDenote, hrest⟩
  unfold block braced
  rw [bind_of_ok hopen, hsteps.then_body hclose, List.append_nil]

end Runs

section Compounds

variable {sc' : Scope} {items : Items}

/-- A statement that is a condition and the block that it guards. -/
theorem parses_guarded {statement : Statement} (k : TokenKind)
    (F : Position → Expr → List Expr → Expr) {x : Phrase}
    (hspell : statement.spell = .mark k ::
      (x.spell ++ .mark .leftBrace :: (spellItems items ++ [.mark .rightBrace])))
    (hk : k ≠ .semicolon) (hk' : k ≠ .rightBrace)
    (hfrom : ∀ t : Token, t.kind = k → statementFrom block t =
      (do let test ← condition; return F t.pos test (← block false)))
    (hdenotes : ∀ {pos : Position} {e : Expr} {es : List Expr}, x.Denotes e →
      ItemsDenote items es → statement.Denotes (F pos e es))
    (hx : x.Fits sc) (htest : x.isTest sc) (hitems : ItemsRun items sc sc') :
    StatementParses statement sc sc' := by
  refine parses_keyword hspell hk hk' fun t s w ht hs => ?_
  simp only [List.append_assoc, List.cons_append, List.nil_append] at hs
  obtain ⟨e, u, htested, he, hu⟩ := condition_complete hx htest hs (.mark rfl)
  obtain ⟨es, v, hblock, hes, hv⟩ := block_complete hitems false hu
  refine ⟨F t.pos e es, v, ?_, hdenotes he.denotes hes, hv⟩
  rw [hfrom t ht, bind_of_ok htested, bind_of_ok hblock]
  rfl

theorem parses_ifStatement {x : Phrase} (hx : x.Fits sc) (htest : x.isTest sc)
    (hitems : ItemsRun items sc sc') : StatementParses (.ifStatement x items) sc sc' := by
  refine parses_guarded .ifWord .ifStatement ?_ nofun nofun (fun t hk => ?_) .ifStatement
    hx htest hitems
  · simp only [Statement.spell, List.append_assoc, List.cons_append]
  · simp only [statementFrom, hk]

theorem parses_whileStatement {x : Phrase} (hx : x.Fits sc) (htest : x.isTest sc)
    (hitems : ItemsRun items sc sc') : StatementParses (.whileStatement x items) sc sc' := by
  refine parses_guarded .whileWord .whileStatement ?_ nofun nofun (fun t hk => ?_) .whileStatement
    hx htest hitems
  · simp only [Statement.spell, List.append_assoc, List.cons_append]
  · simp only [statementFrom, hk]

theorem extends_of_block {ofProc : Bool} {es : List Expr} {u : State} (hs : s.Regular)
    (h : block ofProc s = .ok es u) : s.Extends u :=
  (declarationLaw_loose.relates_block ofProc).ok trivial h hs.numbered

theorem parses_forLoop {counter : String} {x y : Phrase} (hx : x.Fits sc) (hy : y.Fits sc)
    (hitems : ItemsRun items (sc.addVars [⟨counter, "i32", x.structIn sc⟩]) sc') :
    StatementParses (.forLoop counter x y items) sc (sc'.leave sc.vars.length 1) := by
  have hspell : (Statement.forLoop counter x y items).spell =
      .mark .forWord :: .name counter :: .mark .inWord :: (x.spell ++ .mark .range ::
        (y.spell ++ .mark .leftBrace :: (spellItems items ++ [.mark .rightBrace]))) := by
    simp only [Statement.spell, List.append_assoc, List.cons_append]
  refine parses_keyword hspell nofun nofun fun t s w hk hs => ?_
  simp only [List.append_assoc, List.cons_append, List.nil_append] at hs
  obtain ⟨t₁, u, hname, rfl, hu⟩ := expect_name_faces hs
  obtain ⟨t₂, u₁, hin, hu₁⟩ := expect_faces hu
  obtain ⟨start, u₂, hstart, hmeans, hu₂⟩ := fits_parses hx hu₁ (.mark rfl)
  obtain ⟨t₃, u₃, hrange, hu₃⟩ := expect_faces hu₂
  obtain ⟨stop, v, hstop, hmeans', hv⟩ := fits_parses hy hu₃ (.mark rfl)
  obtain ⟨_, _, _, hfaithful⟩ := expr_denotes hu₁.regular hstart
  generalize hinitial : (⟨t₁.lexeme, "i32", start⟩ : Binding Expr) = initial
  have hopened : (v.openScope [initial]).Faces _ _ :=
    hv.openScope (by simpa [← hinitial] using hfaithful)
  have hvars : [initial].map Binding.variable = [⟨t₁.lexeme, "i32", x.structIn sc⟩] := by
    rw [← hinitial, ← hmeans.struct]
    rfl
  rw [hvars] at hopened
  obtain ⟨es, v₁, hblock, hes, hv₁⟩ := block_complete hitems false hopened
  have hextends := extends_of_block hopened.regular hblock
  have hcounter : firstBinding initial (v.entriesFor [initial]) v₁ =
      .ok ((v₁.tables.vars.get? v.nextId).getD initial) v₁ := rfl
  have hcounterName : ((v₁.tables.vars.get? v.nextId).getD initial).name = t₁.lexeme := by
    have hmem : (⟨v.nextId, initial⟩ : Entry (Binding Expr)) ∈
        (v.openScope [initial]).tables.vars.entries := by
      rw [State.entries_openScope]
      exact List.mem_append_right _ (List.mem_singleton.mpr rfl)
    rw [hextends.currentBinding_name hmem hcounter, ← hinitial]
  generalize (v₁.tables.vars.get? v.nextId).getD initial = final at hcounter hcounterName
  have hdenotes : (Statement.forLoop final.name x y items).Denotes
      (.forLoop t.pos final (.range start.pos start stop) es) :=
    .forLoop hmeans.denotes hmeans'.denotes hes
  rw [hcounterName] at hdenotes
  refine ⟨_, _, ?_, hdenotes, hv.closeScope hextends hv₁⟩
  unfold statementFrom
  simp only [hk]
  unfold forStatement
  rw [bind_of_ok hname, bind_of_ok hin, bind_of_ok hstart, bind_of_ok hrange, bind_of_ok hstop]
  simp only [hinitial]
  unfold withVariables
  simp only
  rw [bind_of_ok hblock, bind_of_ok hcounter]
  rfl

/-- The procedure is read behind its keyword. -/
def ProcParses (p : ProcText Statement) (sc sc' : Scope) : Prop :=
  ∀ ⦃s : State⦄ ⦃w : List Terminal⦄ (keyword : Token), s.Faces sc (spellProc p ++ w) →
    ∃ (name : Token) (proc : Proc Expr) (u : State),
      procedure block keyword s = .ok (name, proc) u ∧ ProcDenotes p proc ∧
        proc.signature = p.signature ∧ u.Faces sc' w

theorem map_variable_defaultBinding (t : Tables) (pos : Position) (params : List TypedName) :
    (params.map (·.defaultBinding t.structs pos)).map Binding.variable =
      t.scope.parameters params := by
  unfold Scope.parameters
  rw [List.map_map]
  refine List.map_congr_left fun p _ => ?_
  rw [Tables.defaultStruct?_scope, ← defaultValue_instance? t.structs pos]
  rfl

theorem parses_proc {name : String} {params : List TypedName} {returnType : Option String}
    (hitems : ItemsRun items (sc.addVars (sc.parameters params)) sc') :
    ProcParses ⟨name, params, returnType, items, []⟩ sc
      (sc'.leave sc.vars.length params.length) := by
  intro s w keyword hs
  rw [spellProc] at hs
  simp only [List.append_assoc, List.cons_append, List.nil_append] at hs
  obtain ⟨t₁, u, hname, rfl, hu⟩ := expect_name_faces hs
  obtain ⟨t₂, u₁, hopen, hu₁⟩ := expect_faces hu
  obtain ⟨u₂, hparams, hu₂⟩ := parameters_complete hu₁
  obtain ⟨t₃, u₃, hclose, hu₃⟩ := expect_faces hu₂
  obtain ⟨v, htype, hv⟩ := optionalType_complete hu₃ (head?_mark_ne (by decide))
  generalize hbindings : params.map (·.defaultBinding v.tables.structs t₁.pos) = bindings
  have hfaithful : ∀ b ∈ bindings, b.value.Faithful := by
    intro b hb
    rw [← hbindings] at hb
    obtain ⟨param, _, rfl⟩ := List.mem_map.mp hb
    exact faithful_defaultValue _ _ _ _
  have hopened := hv.openScope hfaithful
  rw [← hbindings, map_variable_defaultBinding, hv.scope, hbindings] at hopened
  obtain ⟨es, v₁, hblock, hes, hv₁⟩ := block_complete hitems true hopened
  have hclosed := hv.closeScope (extends_of_block hopened.regular hblock) hv₁
  rw [show bindings.length = params.length by rw [← hbindings, List.length_map]] at hclosed
  have hfinal : State.Faces { v₁.closeScope (v.entriesFor bindings) with
      completed := v₁.completed + 1 } (sc'.leave sc.vars.length params.length) w :=
    ⟨hclosed.regular.complete, hclosed.advisory, hclosed.scope, hclosed.terminals⟩
  refine ⟨t₁, ⟨v₁.completed, keyword.pos, t₁.lexeme, returnType, params, es⟩, _, ?_,
    @ProcDenotes.mk ⟨_, _, _, _, _, es⟩ items [] hes (.inl rfl), rfl, hfinal⟩
  unfold procedure
  rw [bind_of_ok hname, bind_of_ok hopen, bind_of_ok hparams, bind_of_ok hclose,
    bind_of_ok htype, tables_bind]
  simp only [hbindings]
  unfold withVariables
  simp only [bind, EStateM.bind, hblock]
  rfl

theorem parses_procDef {p : ProcText Statement} (hp : ProcParses p sc sc') :
    StatementParses (.procDef p) sc (sc'.addProc p.signature) := by
  have hspell : (Statement.procDef p).spell = .mark .procWord :: spellProc p := by
    rw [Statement.spell]
  refine parses_keyword hspell nofun nofun fun t s w hk hs => ?_
  obtain ⟨name, proc, u, hproc, hdenotes, hsignature, hu⟩ := hp t hs
  have hscope : (u.tables.declare (.procedure ⟨u.nextId, proc⟩)).scope =
      sc'.addProc p.signature := by
    rw [Tables.scope_declare_procedure, hu.scope, hsignature]
  obtain ⟨u', hwarn, _, hu'⟩ := declareNew_complete hu (.procedure ⟨u.nextId, proc⟩) rfl nofun
    hscope "procedure" name
  refine ⟨.procDef proc, u', ?_, .procDef hdenotes, hu'⟩
  unfold statementFrom
  simp only [hk]
  unfold procStatement
  rw [bind_of_ok hproc]
  simp only
  rw [declareNew_bind, bind_of_ok hwarn]
  rfl

/-- An impl block is at the place `i` among all of them, and `b` is what it holds. -/
structure Holds (s : State) (i : Nat) (entry : Entry (Impl Expr)) (b : Impl Expr) : Prop where
  place : (s.tables.impls.entries.map Entry.id)[i]? = some entry.id
  current : s.tables.impls.get? entry.id = some b

namespace Holds

variable {i : Nat} {entry : Entry (Impl Expr)} {b : Impl Expr} {u : State}

theorem of_tables (h : Holds s i entry b) (htables : u.tables = s.tables) : Holds u i entry b :=
  ⟨htables ▸ h.place, htables ▸ h.current⟩

theorem of_extends (h : Holds s i entry b) (hextends : s.Extends u) : Holds u i entry b := by
  refine ⟨?_, hextends.impl_get? h.current⟩
  obtain ⟨new, hnew, _⟩ := hextends.impls
  have hlt := (List.getElem?_eq_some_iff.mp h.place).1
  rw [hnew, List.map_append, List.getElem?_append_left hlt]
  exact h.place

theorem addProc (h : Holds s i entry b) (proc : Proc Expr) :
    Holds (s.addProc entry proc) i entry { b with procs := b.procs ++ [proc] } := by
  refine ⟨?_, ?_⟩
  · rw [State.impls_addProc, SymbolTable.map_update _ _ _ Entry.id fun _ _ _ => rfl]
    exact h.place
  · rw [State.impls_addProc, SymbolTable.get?_update, h.current]
    rfl

/-- A new impl block stands behind those that the scope has. -/
theorem of_declare (hu : u.Regular) (hscope : s.tables.scope = sc)
    (htables : u.tables = s.tables.declare (.impl entry)) :
    Holds u sc.impls.length entry entry.decl := by
  have hentries : u.tables.impls.entries = s.tables.impls.entries ++ [entry] := by
    rw [htables]
    rfl
  have hmem : entry ∈ u.tables.impls.entries := by
    rw [hentries]
    exact List.mem_append_right _ (List.mem_singleton.mpr rfl)
  have hlength : sc.impls.length = (s.tables.impls.entries.map Entry.id).length := by
    rw [← hscope, Tables.scope, List.length_map, List.length_map]
  refine ⟨?_, hu.numbered.impls.get?_of_mem hmem⟩
  rw [hentries, hlength, List.map_append, List.getElem?_append_right (Nat.le_refl _), Nat.sub_self]
  rfl

end Holds

/-- The procedures of an impl block, which is at the place `i`, are read up to its end. -/
def ProcsParse (i : Nat) (ps : List (ProcText Statement)) (sc sc' : Scope) : Prop :=
  ∀ ⦃s : State⦄ ⦃w : List Terminal⦄ (entry : Entry (Impl Expr)) (b : Impl Expr),
    s.Faces sc (spellProcs ps ++ .mark .rightBrace :: w) → Holds s i entry b →
    ∃ procs u, bounded (implProcs block entry) s = .ok () u ∧ ProcsDenote ps procs ∧
      Holds u i entry { b with procs := b.procs ++ procs } ∧ u.Faces sc' w

theorem parses_noProcs (i : Nat) : ProcsParse i [] sc sc := by
  intro s w entry b hs hholds
  obtain ⟨u, hclose, hu⟩ := accept_faces hs
  refine ⟨[], u, ?_, .nil, ?_, hu⟩
  · rw [implProcs_eq, bind_of_ok hclose]
    rfl
  · rw [List.append_nil]
    exact hholds.of_tables (tables_of_accept hclose)

theorem parses_procs {i : Nat} {p : ProcText Statement} {ps : List (ProcText Statement)}
    {sc₁ sc₂ : Scope} (hp : ProcParses p sc sc₁)
    (hps : ProcsParse i ps (sc₁.addMethod i p.signature) sc₂) :
    ProcsParse i (p :: ps) sc sc₂ := by
  intro s w entry b hs hholds
  rw [spellProcs, List.append_assoc, List.cons_append] at hs
  have hmore : accept .rightBrace s = .ok false s :=
    accept_other hs rfl (head?_mark_ne (by decide))
  obtain ⟨keyword, u, hkeyword, hu⟩ := expect_faces hs
  obtain ⟨name, proc, v, hproc, hdenotes, hsignature, hv⟩ := hp keyword hu
  have himplProc : implProc block s = .ok proc v := by
    unfold implProc
    rw [bind_of_ok hkeyword, bind_of_ok hproc]
    rfl
  have hextends : s.Extends v := (StepLaw.relates_implProc declarationLaw_loose.relates_block).ok
    trivial himplProc hs.regular.numbered
  have hlater := hholds.of_extends hextends
  have hadded : (v.addProc entry proc).Faces (sc₁.addMethod i p.signature)
      (spellProcs ps ++ .mark .rightBrace :: w) := by
    refine ⟨hv.regular.addProc entry proc, hv.advisory, ?_, hv.terminals⟩
    rw [State.scope_addProc hv.regular.numbered hlater.place proc, hv.scope, hsignature]
  obtain ⟨procs, u', hall, hprocs, hfinal, hu'⟩ := hps entry _ hadded (hlater.addProc proc)
  rw [List.append_assoc] at hfinal
  refine ⟨proc :: procs, u', ?_, .cons hdenotes hprocs, hfinal, hu'⟩
  have hadd : addProc entry proc v = .ok () (v.addProc entry proc) := rfl
  rw [implProcs_eq, bind_of_ok hmore]
  simp only [Bool.false_eq_true, if_false]
  rw [bind_of_ok himplProc, bind_of_ok hadd]
  exact hall

theorem parses_implBlock {struct : String} {d : StructDef} {ps : List (ProcText Statement)}
    (hd : sc.struct? struct = some d)
    (hps : ProcsParse sc.impls.length ps (sc.addImpl struct) sc') :
    StatementParses (.implBlock struct ps) sc sc' := by
  have hspell : (Statement.implBlock struct ps).spell = .mark .implWord :: .name struct ::
      .mark .leftBrace :: (spellProcs ps ++ [.mark .rightBrace]) := by
    rw [Statement.spell, List.cons_append, List.cons_append, List.cons_append]
  refine parses_keyword hspell nofun nofun fun t s w hk hs => ?_
  simp only [List.append_assoc, List.cons_append, List.nil_append] at hs
  obtain ⟨t₁, u, hname, rfl, hu⟩ := expect_name_faces hs
  have hfound := hd
  rw [← hu.scope, Tables.struct?_scope] at hfound
  obtain ⟨struct, hlookup, rfl⟩ := Option.map_eq_some_iff.mp hfound
  have hstruct : struct.decl.name = t₁.lexeme := SymbolTable.name_of_lookup? hlookup
  obtain ⟨t₂, u₁, hopen, hu₁⟩ := expect_faces hu
  generalize hentry : (⟨u₁.nextId, ⟨struct.decl, []⟩⟩ : Entry (Impl Expr)) = entry
  have hscope : (u₁.tables.declare (.impl entry)).scope = sc.addImpl t₁.lexeme := by
    rw [← hentry, Tables.scope_declare_impl, hu₁.scope, hstruct]
  obtain ⟨u₂, hwarn, htables, hu₂⟩ := declareNew_complete hu₁ (.impl entry) (by rw [← hentry]; rfl)
    nofun hscope "impl" t₁
  have hempty : Holds u₂ sc.impls.length entry ⟨struct.decl, []⟩ := by
    have hholds := Holds.of_declare hu₂.regular hu₁.scope htables
    rwa [show entry.decl = ⟨struct.decl, []⟩ by rw [← hentry]] at hholds
  obtain ⟨procs, u₃, hall, hprocs, hfinal, hu₃⟩ := hps entry _ hu₂ hempty
  have hbody : implBody block struct.decl t₁ u₁ = .ok entry u₃ := by
    unfold implBody
    rw [declareNew_bind]
    simp only [hentry]
    rw [bind_of_ok hwarn, bind_of_ok hall]
    rfl
  have hcurrent : currentImpl entry u₃ = .ok ⟨struct.decl, procs⟩ u₃ := by
    unfold currentImpl
    rw [hfinal.current]
    rfl
  have hdenotes : (Statement.implBlock struct.decl.name ps).Denotes
      (.implBlock t.pos entry.id ⟨struct.decl, procs⟩) :=
    @Statement.Denotes.implBlock t.pos entry.id ⟨struct.decl, procs⟩ ps hprocs
  rw [hstruct] at hdenotes
  refine ⟨_, u₃, ?_, hdenotes, hu₃⟩
  unfold statementFrom
  simp only [hk]
  unfold implStatement
  rw [bind_of_ok hname, tables_bind]
  simp only [hlookup]
  rw [bind_of_ok hopen, bind_of_ok hbody, bind_of_ok hcurrent]
  rfl

end Compounds

section Programs

mutual

/-- A statement whose names resolve is read. -/
theorem statement_parses (x : Statement) {sc sc' : Scope} (h : x.Resolves sc sc') :
    StatementParses x sc sc' := by
  cases h with
  | phrase hx => exact parses_phrase hx
  | letStatement hx => exact parses_letStatement hx
  | returnStatement hx => exact parses_returnStatement hx
  | ifStatement hx htest hitems => exact parses_ifStatement hx htest (items_run _ hitems)
  | whileStatement hx htest hitems => exact parses_whileStatement hx htest (items_run _ hitems)
  | forLoop hx hy hitems => exact parses_forLoop hx hy (items_run _ hitems)
  | procDef hp => exact parses_procDef (proc_parses _ hp)
  | structDef => exact parses_structDef
  | implBlock hd hps => exact parses_implBlock hd (procs_parse _ hps)

/-- A list of statements whose names resolve is read statement by statement. -/
theorem items_run (items : List (Option Statement)) {sc sc' : Scope}
    (h : ItemsResolve sc items sc') : ItemsRun items sc sc' := by
  cases h with
  | nil => exact run_nil
  | semicolon hitems => exact run_semicolon (items_run _ hitems)
  | cons hx hitems =>
    refine run_cons (statement_parses _ hx) ?_ (items_run _ hitems)
    rintro rfl
    cases hx

theorem proc_parses (p : ProcText Statement) {sc sc' : Scope} (h : ProcResolves sc p sc') :
    ProcParses p sc sc' := by
  cases h with
  | mk hitems => exact parses_proc (items_run _ hitems)

theorem procs_parse (ps : List (ProcText Statement)) {i : Nat} {sc sc' : Scope}
    (h : ProcsResolve i sc ps sc') : ProcsParse i ps sc sc' := by
  cases h with
  | nil => exact parses_noProcs i
  | cons hp hps => exact parses_procs (proc_parses _ hp) (procs_parse _ hps)

end

end Programs
end Parse

section Programs

/--
If the names of a program's text resolve, then from any tokens that spell it, for example those of a
source text, the program is read to the end and with nothing but advice.  What is read is what the
text stands for, one expression for each statement.
-/
theorem finish_complete {items : Items} {sc : Scope} (h : ItemsResolve {} items sc)
    {ts : List Token} (hspell : ts.map Token.terminal = spellItems items) (finish : Position) :
    ItemsDenote items
        (Session.finish { state := { unread := ts, finish := finish } }).program ∧
      (Session.finish { state := { unread := ts, finish := finish } }).state.unread = [] ∧
      ∀ d ∈ (Session.finish { state := { unread := ts, finish := finish } }).diagnostics,
        d.code = some "S001" ∨ d.code = some "S011" := by
  have hlexed : ∀ t ∈ ts, t.terminal.Lexed := by
    intro t ht
    refine lexed_items items h _ ?_
    rw [← hspell]
    exact List.mem_map_of_mem ht
  have hstart : State.Faces { unread := ts, finish := finish } {} (spellItems items ++ []) :=
    ⟨regular_of_lexed hlexed finish, nofun, rfl, by rw [List.append_nil]; exact hspell⟩
  obtain ⟨es, u, hsteps, hu⟩ := Parse.items_run items h hstart
  have hnil : u.unread = [] := List.map_eq_nil_iff.mp hu.terminals
  have hfinish := hsteps.then_finish []
  rw [List.nil_append, Session.finish_of_nil (s := ⟨es, u⟩) hnil] at hfinish
  rw [hfinish]
  refine ⟨hsteps.itemsDenote, hnil, fun d hd => ?_⟩
  obtain ⟨p, hp, rfl⟩ := List.mem_map.mp hd
  have hadvice := hu.advisory p hp
  obtain ⟨cause, pos⟩ := p
  cases cause with
  | typeMismatch => exact .inl rfl
  | redeclared => exact .inr rfl
  | _ => cases hadvice

/-- A procedure and a call of it behind the procedure. -/
theorem finish_complete_call :
    ∃ items : Items,
      (tokenize "p" "proc f(a: i32) { return a; }; let x = f(1) + -2;".toList).map
        Token.terminal = spellItems items ∧
      ItemsDenote items (Session.finish { state := {
        unread := tokenize "p" "proc f(a: i32) { return a; }; let x = f(1) + -2;".toList
        finish := ⟨"p", 0, 48⟩ } }).program := by
  have hproc : ProcResolves {} ⟨"f", [⟨"a", "i32"⟩], none,
      [some (.returnStatement (some (.operand (.reference "a")))), none], []⟩ {} :=
    .mk (.cons (.returnStatement (.operand (.reference rfl))) (.semicolon .nil))
  have hcall : (Phrase.chain (.call "f" [.operand (.literal "1" .number)]) .add
      (.negative "2" .number)).Fits { procs := [⟨"f", 1, none⟩] } := by
    refine .chain rfl (.call rfl rfl rfl ?_) nofun rfl (.negative (.inl rfl) fun _ => by decide)
    intro x hx
    rw [List.mem_singleton.mp hx]
    exact .operand (.literal fun _ => by decide)
  have hspell : (tokenize "p" "proc f(a: i32) { return a; }; let x = f(1) + -2;".toList).map
      Token.terminal = spellItems [some (.procDef ⟨"f", [⟨"a", "i32"⟩], none,
        [some (.returnStatement (some (.operand (.reference "a")))), none], []⟩), none,
        some (.letStatement "x" none (.chain (.call "f" [.operand (.literal "1" .number)]) .add
          (.negative "2" .number))), none] := by
    decide +kernel
  have hread := finish_complete (.cons (.procDef hproc) (.semicolon
    (.cons (.letStatement hcall) (.semicolon .nil)))) hspell ⟨"p", 0, 48⟩
  exact ⟨_, hspell, hread.1⟩

end Programs
end ScriptFront
