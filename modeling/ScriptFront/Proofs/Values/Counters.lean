import ScriptFront.Proofs.Reading.Chains
import ScriptFront.Proofs.Tables.Scopes
import ScriptFront.Proofs.Values.Sound

/-!
# Variables that are bound to variables

A `let` statement binds its variable to the value that a variable on its right has, not to that
variable.  Parameters start with default values, and a field assignment binds its variable to an
instance.  The counter of a loop is bound to the first bound of the range as it stands there: if
this is a variable, the counter is bound to it, and so are the variables that copy the counter.

**Results.**

* `Parse.expr_eq_reference`: an expression that is a variable has been read of one token.
* `State.Binds.of_range`: the first bound of a range.
* `Reached.binds`: what variables are bound to wherever reading comes to.
* `bindings_chain_at_counters`: nothing but the counter of a loop starts a chain of variables.
-/

namespace ScriptFront

open Parse

section Reading

/-- An expression is no variable alone. -/
def Expr.IsValue (e : Expr) : Prop :=
  e.kind ≠ .reference

theorem Expr.isValue_or (e : Expr) : e.IsValue ∨ ∃ pos b, e = .reference pos b := by
  cases e with
  | reference pos b => exact .inr ⟨pos, b, rfl⟩
  | _ => exact .inl (by rintro ⟨⟩)

variable {s u : State} {e : Expr} (p : Parse Expr)

theorem yields_foldOperators {lhs : Expr} (hlhs : lhs.IsValue) :
    Yields Expr.IsValue (foldOperators lhs) := by
  intro s e u h
  rcases foldUpTo_ok _ h with ⟨rfl, _⟩ | hkind
  · exact hlhs
  · unfold Expr.IsValue
    rw [hkind]
    decide

theorem yields_negativeLiteral (pos : Position) :
    Yields Expr.IsValue (negativeLiteral pos) := by
  refine .bind fun t => ?_
  split
  · exact yields_pure nofun
  · exact yields_fail _ _

theorem yields_structUse (pos : Position) (struct : StructDef) :
    Yields Expr.IsValue (structUse p pos struct) := by
  refine .bind fun colons => ?_
  split
  · refine .bind fun method => .bind fun known => ?_
    split
    · exact yields_fail _ _
    · split
      · exact yields_fail _ _
      · exact .bind fun args => yields_foldOperators nofun
  · refine .bind fun _ => .bind fun fields => .bind fun _ => ?_
    split
    · exact yields_fail _ _
    · exact yields_pure nofun

theorem yields_fieldUse (pos : Position) (owner : Entry (Binding Expr)) :
    Yields Expr.IsValue (fieldUse p pos owner) := by
  refine .bind fun name => ?_
  split
  · exact yields_fail _ _
  · split
    · exact yields_fail _ _
    · refine .bind fun assigned => ?_
      split
      · exact .bind fun _ => .bind fun _ => .bind fun _ => .bind fun _ => yields_pure nofun
      · exact yields_foldOperators nofun

/-- A variable that stands alone is read behind its name without any further token. -/
theorem variableUse_eq_reference {owner : Entry (Binding Expr)} {pos place : Position}
    {b : Binding Expr} (h : variableUse p pos owner s = .ok (.reference place b) u) :
    place = pos ∧ b = owner.decl ∧ u = s := by
  unfold variableUse at h
  rcases accept_eq (k := .assign) s with ⟨_, _, _, _, hassign⟩ | ⟨_, hassign⟩
  · rw [bind_of_ok hassign] at h
    obtain ⟨_, _, _, h⟩ := bind_eq_ok_iff.mp h
    cases h
  · rw [bind_of_ok hassign] at h
    simp only [Bool.false_eq_true, if_false] at h
    rcases accept_eq (k := .dot) s with ⟨_, _, _, _, hdot⟩ | ⟨_, hdot⟩
    · rw [bind_of_ok hdot] at h
      exact absurd rfl (yields_fieldUse p pos owner _ _ _ h)
    · rw [bind_of_ok hdot] at h
      simp only [Bool.false_eq_true, if_false] at h
      rcases foldUpTo_ok _ h with ⟨heq, rfl⟩ | hkind
      · injection heq with hplace hb
        exact ⟨hplace, hb, rfl⟩
      · cases hkind

/-- An expression that starts with no name is no variable. -/
theorem yields_exprStep {t : Token} (hk : t.kind ≠ .identifier) :
    Yields Expr.IsValue (exprStep p t) := by
  unfold exprStep
  split
  · exact yields_foldOperators nofun
  · rename_i hname
    exact absurd hname hk
  · exact .bind fun _ => yields_pure nofun
  · intro s e u h
    obtain ⟨value, v, hvalue, h⟩ := bind_eq_ok_iff.mp h
    exact yields_foldOperators (yields_negativeLiteral _ _ _ _ hvalue) _ _ _ h
  · exact yields_fail _ _
  · exact yields_fail _ _

/-- An expression that is a variable has been read of one token, the name of the variable. -/
theorem Parse.expr_eq_reference {pos : Position} {b : Binding Expr}
    (h : expr s = .ok (.reference pos b) u) :
    ∃ name rest f, s.unread = name :: rest ∧ name.kind = .identifier ∧ name.pos = pos ∧
      s.tables.vars.lookup? name.lexeme = some f ∧ f.decl = b ∧ u = s.consume name rest := by
  cases hunread : s.unread with
  | nil =>
    rw [expr_of_nil hunread] at h
    cases h
  | cons name rest =>
    rw [expr_of_cons hunread] at h
    by_cases hk : name.kind = .identifier
    · unfold exprStep at h
      simp only [hk] at h
      unfold nameUse at h
      rw [bind_of_ok (show tables (s.consume name rest) = .ok s.tables _ from rfl)] at h
      cases hresolve : s.tables.resolve? name.lexeme with
      | none =>
        simp only [hresolve] at h
        cases h
      | some symbol =>
        simp only [hresolve] at h
        cases symbol with
        | «variable» f =>
          obtain ⟨hpos, hb, hu⟩ := variableUse_eq_reference expr h
          exact ⟨name, rest, f, rfl, hk, hpos.symm, Tables.resolve?_eq_variable_iff.mp hresolve,
            hb.symm, hu⟩
        | procedure f =>
          have hcall : Yields Expr.IsValue (do
              let args ← callArgs expr f.decl name.pos
              foldOperators (.call name.pos f.decl args)) :=
            .bind fun args => yields_foldOperators nofun
          exact absurd rfl (hcall _ _ _ h)
        | struct f => exact absurd rfl (yields_structUse expr _ _ _ _ _ h)
        | impl f => cases h
    · exact absurd rfl (yields_exprStep expr hk _ _ _ h)

end Reading

/-- A variable stands in the tokens as the first bound of a range, where a value is expected. -/
def StartsRange (ts : List Token) (name : Token) : Prop :=
  ∃ before dots, before.kind.awaitsValue ∧ name.kind = .identifier ∧ dots.kind = .range ∧
    [before, name, dots] <:+: ts

/--
What a variable may be bound to in a program with these tokens: a value, or else a variable that
stands as the first bound of a range, and that is bound likewise.
-/
inductive Expr.BoundIn (ts : List Token) : Expr → Prop where
  | value {e : Expr} : e.IsValue → BoundIn ts e
  | bound {name : Token} {b : Binding Expr} : StartsRange ts name → name.lexeme = b.name →
    b.value.BoundIn ts → BoundIn ts (.reference name.pos b)

/-- Where no range starts with a variable, only values are bound. -/
theorem Expr.BoundIn.isValue {ts : List Token} {e : Expr} (h : e.BoundIn ts)
    (hts : ∀ name, ¬ StartsRange ts name) : e.IsValue := by
  cases h with
  | value he => exact he
  | bound hname _ _ => exact absurd hname (hts _)

theorem isValue_defaultValue (structs : SymbolTable StructDef) (pos : Position)
    (path : List String) (typeName : String) :
    (defaultValue structs pos path typeName).IsValue := by
  refine defaultValue_induction (P := Expr.IsValue) structs pos (fun text lit => ?_)
    (fun v _ _ => ?_) path typeName
  · exact nofun
  · exact nofun

/-- While these tokens are read, no chain of variables starts but at the first bound of a range. -/
structure State.Binds (ts : List Token) (s : State) : Prop where
  tokens : s.tokens = ts
  vars : ∀ e ∈ s.tables.vars.entries, e.decl.value.BoundIn ts

namespace State.Binds

variable {ts : List Token} {s t : State}

/-- Reading on without a change of the variables. -/
theorem of_later (h : s.Binds ts) (hlater : s.Later t) (htables : t.tables = s.tables) :
    t.Binds ts :=
  ⟨hlater.tokens_eq.trans h.tokens, htables ▸ h.vars⟩

theorem lookup? (h : s.Binds ts) {name : String} {e : Entry (Binding Expr)}
    (hlookup : s.tables.vars.lookup? name = some e) : e.decl.value.BoundIn ts :=
  h.vars e (SymbolTable.mem_of_lookup? hlookup)

theorem openScope (h : s.Binds ts) {bindings : List (Binding Expr)}
    (hbindings : ∀ b ∈ bindings, b.value.BoundIn ts) : (s.openScope bindings).Binds ts :=
  ⟨h.tokens, forall_openScope h.vars hbindings⟩

theorem closeScope (h : s.Binds ts) (entries : List (Entry (Binding Expr))) :
    (s.closeScope entries).Binds ts :=
  ⟨h.tokens, forall_closeScope h.vars entries⟩

/-- The first bound of a range is bound as it stands, though it may be a variable. -/
theorem of_range {start stop : Expr} (h : s.Binds ts) (hrange : s.ReadsRange start stop t) :
    start.BoundIn ts := by
  obtain ⟨before, hbefore, hawaits⟩ := hrange.awaits
  obtain ⟨u, dots, rest, hstart, hunread, hdots, _⟩ := hrange.bounds
  rcases start.isValue_or with hvalue | ⟨pos, b, rfl⟩
  · exact .value hvalue
  · obtain ⟨name, rest', f, hnext, hk, rfl, hlookup, rfl, rfl⟩ := expr_eq_reference hstart
    obtain rfl : rest' = dots :: rest := hunread
    obtain ⟨read, hread⟩ : ∃ read, s.read = before :: read :=
      List.head?_eq_some_iff.mp hbefore
    have hnear : [before, name, dots] <:+: ts := by
      refine ⟨read.reverse, rest, ?_⟩
      rw [← h.tokens, State.tokens, hread, hnext]
      simp
    exact .bound ⟨before, dots, hawaits, hk, hdots, hnear⟩
      (SymbolTable.name_of_lookup? hlookup).symm (h.lookup? hlookup)

end State.Binds

/-- What variables are bound to is kept by all rules of reading. -/
def bindsRules (ts : List Token) : ProgramRules where
  holds := State.Binds ts
  failed _ s := s.Binds ts
  operand e := e.boundValue.BoundIn ts
  primary e := e.boundValue.BoundIn ts
  value e := e.boundValue.BoundIn ts
  statement _ := True
  read hs hunread _ := hs.of_later (.consume hunread) rfl
  fail _ hs := hs
  failAtEnd _ hs _ := hs
  stop _ hs _ hunread := hs.of_later (.consume hunread) rfl
  literal _ _ _ := .value nofun
  negative _ _ _ _ _ := .value nofun
  one _ _ := .value nofun
  reference hs _ hlookup := hs.lookup? hlookup
  primary_of_operand he := he
  fieldAccess _ _ _ _ _ := .value nofun
  call _ _ _ _ _ := .value nofun
  implCall _ _ _ _ _ _ _ := .value nofun
  binary _ _ _ := .value nofun
  value_of_primary he := he
  negation _ _ _ := .value nofun
  structLiteral _ _ _ _ _ := .value nofun
  assign _ _ _ _ _ _ _ := .value nofun
  fieldAssign _ _ _ _ hu _ :=
    ⟨⟨hu.tokens, State.forall_rebind hu.vars _ (.value nofun)⟩, .value nofun⟩
  report _ hs := hs.of_later (.report _ _) (State.tables_report _ _).1
  declareVariable _ _ hs hv := ⟨hs.tokens, List.forall_mem_append.mpr
    ⟨hs.vars, List.forall_mem_singleton.mpr hv⟩⟩
  declareStruct _ hs := ⟨hs.tokens, hs.vars⟩
  declareProcedure hs _ := ⟨hs.tokens, hs.vars⟩
  declareImpl _ hs := ⟨hs.tokens, hs.vars⟩
  addProc _ hs _ := ⟨hs.tokens, hs.vars⟩
  complete hs := ⟨hs.tokens, hs.vars⟩
  openParameters params pos hs := hs.openScope (by
    rintro _ hb
    obtain ⟨param, _, rfl⟩ := List.mem_map.mp hb
    exact .value (isValue_defaultValue _ _ _ _))
  openCounter _ hs hrange _ ht := ht.openScope (List.forall_mem_singleton.mpr (hs.of_range hrange))
  close entries hs := hs.closeScope entries
  failed_close entries hs := hs.closeScope entries
  statement_of_value _ := trivial
  letStatement _ _ _ _ := trivial
  bareReturn _ := trivial
  returnStatement _ _ := trivial
  ifStatement _ _ _ _ := trivial
  whileStatement _ _ _ _ := trivial
  forLoop _ _ _ _ _ _ _ := trivial
  structDef _ _ := trivial
  procDef _ := trivial
  implBlock _ _ _ := trivial
  skip ts hs hunread := hs.of_later (.consumeAll hunread) rfl
  recover depth hs := hs.of_later (.recover _ depth _) (State.tables_recover _ _ depth).1
  reportAny p hs := hs.of_later (.report _ p) (State.tables_report _ p).1
  leave hs := ⟨hs.tokens, hs.vars⟩

theorem Reached.binds {s : State} (h : Reached s) : s.Binds s.tokens :=
  ProgramRules.holds_of_reached_of_tokens (I := bindsRules s.tokens)
    (fun _ _ htokens => ⟨htokens, List.forall_mem_nil _⟩) h rfl

/-- A `let` statement with a variable on its right copies the value that this variable has. -/
theorem exists_copied {s t : State} {keyword : Token} {name typeName : String} {pos : Position}
    {b : Binding Expr} (h : letStatement keyword s =
      .ok (.letStatement keyword.pos name typeName (.reference pos b)) t) :
    ∃ (before : List (Entry (Binding Expr))) (copy : Entry (Binding Expr)),
      t.tables.vars.entries = before ++ [copy] ∧ copy.decl = ⟨name, typeName, b.value⟩ ∧
      ∃ f ∈ before, f.decl = b := by
  obtain ⟨_, _, _, _, _, u, v, _, _, he, _, ⟨w, hvalue⟩, _, htables, _, rfl⟩ := letStatement_ok h
  obtain ⟨_, rfl, rfl, rfl⟩ := Expr.letStatement.inj he
  obtain ⟨_, _, f, _, _, _, hlookup, hb, rfl⟩ := expr_eq_reference hvalue
  refine ⟨v.tables.vars.entries, _, rfl, rfl, f, ?_, hb⟩
  rw [htables]
  exact SymbolTable.mem_of_lookup? hlookup

/--
Wherever reading comes to, a variable is bound to a value, or to a variable that stands in the text
as the first bound of a range: the counter of a loop is bound to it.  Where no range starts with a
variable, no variable is bound to a variable.

A `let` statement with a variable on its right binds its own variable to the value that the other
one has, and the parameters of a procedure are bound to values.
-/
theorem bindings_chain_at_counters {s : State} (hs : Reached s) :
    (∀ e ∈ s.tables.vars.entries, e.decl.value.BoundIn s.tokens) ∧
    ((∀ name, ¬ StartsRange s.tokens name) →
      ∀ e ∈ s.tables.vars.entries, e.decl.value.kind ≠ .reference) ∧
    (∀ keyword name typeName pos b t,
      letStatement keyword s = .ok (.letStatement keyword.pos name typeName (.reference pos b)) t →
      ∃ (before : List (Entry (Binding Expr))) (copy : Entry (Binding Expr)),
        t.tables.vars.entries = before ++ [copy] ∧ copy.decl = ⟨name, typeName, b.value⟩ ∧
        ∃ f ∈ before, f.decl = b) ∧
    ∀ (param : TypedName) pos,
      (param.defaultBinding s.tables.structs pos).value.kind ≠ .reference := by
  refine ⟨hs.binds.vars, fun hts e he => (hs.binds.vars e he).isValue hts, ?_, ?_⟩
  · intro keyword name typeName pos b t h
    exact exists_copied h
  · intro param pos
    exact isValue_defaultValue _ _ _ _

/-- The counter of a loop is copied while it is bound to a variable; where there is no loop, a
variable is copied with its value. -/
theorem bindings_chain_at_counters_copied :
    (∃ s : State, Reached s ∧
      s.tables.vars.entries.map (fun e => (e.decl.name, e.decl.value.kind)) =
        [("x", .literal), ("y", .reference)] ∧
      ∀ e ∈ s.tables.vars.entries, e.decl.value.BoundIn s.tokens) ∧
    ∃ (s t : State) (keyword : Token) (typeName : String) (pos : Position) (b : Binding Expr)
      (copy : Entry (Binding Expr)), Reached s ∧
      letStatement keyword s = .ok (.letStatement keyword.pos "y" typeName (.reference pos b)) t ∧
      copy ∈ t.tables.vars.entries ∧ copy.decl = ⟨"y", typeName, b.value⟩ ∧
      ∀ e ∈ s.tables.vars.entries, e.decl.value.kind ≠ .reference := by
  constructor
  · have hs := Reached.start "p" "let x = 1 for i in x..3 { let y = i }".toList
    have hloop := (hs.statement (by decide +kernel)).statement (by decide +kernel)
    exact ⟨_, hloop, by decide +kernel, (bindings_chain_at_counters hloop).1⟩
  · let s₁ := (Parse.statement (.ofSource "p" "let x = 1 let y = x".toList)).2
    let keyword : Token := ⟨.letWord, "let", ⟨"p", 0, 10⟩, .none⟩
    let rest : List Token := [⟨.identifier, "y", ⟨"p", 0, 14⟩, .none⟩,
      ⟨.assign, "=", ⟨"p", 0, 16⟩, .none⟩, ⟨.identifier, "x", ⟨"p", 0, 18⟩, .none⟩]
    have hs₁ : Reached s₁ := (Reached.start _ _).statement (by decide +kernel)
    have hs : Reached (s₁.consume keyword rest) := hs₁.token (by decide +kernel)
    have hkinds : ((letStatement keyword).run' (s₁.consume keyword rest)).map
        (fun e => e.children.map Expr.kind) = some [.reference] := by decide +kernel
    have hplain : ∀ t ∈ (s₁.consume keyword rest).tokens, t.kind ≠ .range := by decide +kernel
    obtain ⟨e, t, hr⟩ := exists_ok (p := letStatement keyword) (s := s₁.consume keyword rest)
      (by decide +kernel)
    obtain ⟨name, _, typeName, value, _, _, _, hunread, _, rfl, _⟩ := letStatement_ok hr
    obtain ⟨rfl, _⟩ := List.cons.inj hunread
    unfold EStateM.run' EStateM.run at hkinds
    rw [hr] at hkinds
    obtain ⟨_, hvalues, hlet, _⟩ := bindings_chain_at_counters hs
    rcases value.isValue_or with hvalue | ⟨pos, b, rfl⟩
    · simp only [Option.map_some, Expr.children, List.map_cons, List.map_nil, Option.some.injEq,
        List.cons.injEq, and_true] at hkinds
      exact absurd hkinds hvalue
    · obtain ⟨before, copy, hentries, hcopy, _⟩ := hlet _ _ _ _ _ _ hr
      refine ⟨_, t, keyword, typeName, pos, b, copy, hs, hr, by rw [hentries]; simp, hcopy,
        hvalues ?_⟩
      rintro name ⟨_, dots, _, _, hdots, hnear⟩
      exact hplain dots (hnear.subset (by simp)) hdots

end ScriptFront
