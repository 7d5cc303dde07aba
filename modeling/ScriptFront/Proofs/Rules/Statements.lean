import ScriptFront.Proofs.Rules.Expressions

/-!
# Every reader of statements keeps the rules

Statements add to the tables, and some of them hold blocks of other statements.  `StatementRules`
lists what a property has to satisfy for them besides the rules of expressions.  The readers are
given the reader for the blocks inside of them.

**Results.**

* `StatementRules.after_withVariables`: what is read while some variables are declared.
* `StatementRules.after_statementFrom`: a statement behind its first token.
-/

namespace ScriptFront

namespace State

/-- The state in which a symbol with the next identity has been declared. -/
def declareNext (s : State) (symbol : Nat → Symbol) : State :=
  { s with nextId := s.nextId + 1, tables := s.tables.declare (symbol s.nextId) }

/-- Between two states the bounds `start..stop` of a range have been read. -/
structure ReadsRange (s : State) (start stop : Expr) (t : State) : Prop where
  awaits : s.Awaits
  bounds : ∃ u dots rest, Parse.expr s = .ok start u ∧ u.unread = dots :: rest ∧
    dots.kind = .range ∧ Parse.expr (u.consume dots rest) = .ok stop t

/-- An impl block as it is now. -/
def block (s : State) (e : Entry (Impl Expr)) : Impl Expr :=
  (s.tables.impls.get? e.id).getD e.decl

theorem unread_report (s : State) (p : Problem) : (s.report p).unread = s.unread := by
  unfold report
  split <;> rfl

end State

namespace ExprRules

open Parse

section Types

variable {I : ExprRules} {n : Nat} {s : State}

/-- Nothing is said of what such a step gives. -/
def Nothing {α : Type} (_ : α) : Prop :=
  True

theorem after_typedName (hs : I.Fits n s) : I.After n Nothing (typedName s) := by
  refine .expect hs (by decide) fun name rest _ _ hname => ?_
  refine .expect hname (by decide) fun colon rest' _ _ hcolon => ?_
  exact .expect hcolon (by decide) fun typeName rest'' _ _ htype => .pure htype trivial

theorem after_optionalType (hs : I.Fits n s) : I.After n Nothing (optionalType s) := by
  refine .accept hs (by decide) (fun colon rest _ _ hcolon => ?_) (.pure hs trivial)
  exact .expect hcolon (by decide) fun typeName rest' _ _ htype => .pure htype trivial

theorem after_typedNames (m : Nat) (hs : I.Fits n s) : I.After n Nothing (typedNames m s) := by
  induction m generalizing s with
  | zero => exact (after_typedName hs).bind fun first u _ _ hu => .pure hu trivial
  | succ m ih =>
    refine (after_typedName hs).bind fun first u _ _ hu => ?_
    refine .accept hu (by decide) (fun comma rest _ _ hcomma => ?_) (.pure hu trivial)
    exact (ih hcomma).bind fun others v _ _ hv => .pure hv trivial

theorem after_parameters (hs : I.Fits n s) : I.After n Nothing (parameters s) := by
  refine .check ?_
  split
  · exact .pure hs trivial
  · exact after_typedNames _ hs

theorem after_structFields (m : Nat) (hs : I.Fits n s) : I.After n Nothing (structFields m s) := by
  induction m generalizing s with
  | zero => exact (after_typedName hs).bind fun first u _ _ hu => .pure hu trivial
  | succ m ih =>
    refine .check ?_
    split
    · exact .pure hs trivial
    · refine (after_typedName hs).bind fun first u _ _ hu => ?_
      refine .accept hu (by decide) (fun comma rest _ _ hcomma => ?_) (.pure hu trivial)
      exact (ih hcomma).bind fun others v _ _ hv => .pure hv trivial

/-- Tokens that are skipped up to the end of a block may be of any kind. -/
theorem after_skipToClose (hs : I.Fits n s)
    (hskip : ∀ ts rest, s.unread = ts ++ rest → I.holds (s.consumeAll ts rest)) :
    I.After n Nothing (skipToClose s) := by
  have happend := splitAtClose_append 0 s.unread
  unfold skipToClose
  cases hsplit : splitAtClose 0 s.unread with
  | mk skipped rest? =>
    rw [hsplit] at happend
    cases rest? with
    | none =>
      have hread : I.holds (s.consumeAll skipped []) :=
        hskip skipped [] (by simpa using happend.symm)
      exact I.failAtEnd _ hread rfl
    | some rest =>
      refine ⟨trivial, hskip _ _ happend.symm, ?_⟩
      refine Nat.le_trans ?_ hs.length_le
      rw [← happend, List.length_append]
      exact Nat.le_add_left _ _

end Types
end ExprRules

/--
A property that the reading of statements keeps, given that the blocks inside of them keep it: of
states and values as before, and of statements.
-/
structure StatementRules extends ExprRules where
  statement : Expr → Prop
  report {s : State} {p : Problem} : p.cause.isUnexpectedEnd = false → holds s → holds (s.report p)
  declareVariable {s : State} {v : Expr} (name typeName : String) :
    holds s → value v →
    holds (s.declareNext fun id => .variable ⟨id, ⟨name, typeName, v.boundValue⟩⟩)
  declareStruct {s : State} (struct : StructDef) :
    holds s → holds (s.declareNext fun id => .struct ⟨id, struct⟩)
  declareProcedure {s : State} {proc : Proc Expr} :
    holds s → (∀ e ∈ proc.body, statement e) →
    holds (s.declareNext fun id => .procedure ⟨id, proc⟩)
  declareImpl {s : State} (struct : StructDef) :
    holds s → holds (s.declareNext fun id => .impl ⟨id, ⟨struct, []⟩⟩)
  addProc {s : State} {proc : Proc Expr} (e : Entry (Impl Expr)) :
    holds s → (∀ e ∈ proc.body, statement e) → holds (s.addProc e proc)
  complete {s : State} : holds s → holds { s with completed := s.completed + 1 }
  openParameters {s : State} (params : List TypedName) (pos : Position) :
    holds s → holds (s.openScope (params.map (·.defaultBinding s.tables.structs pos)))
  /-- The counter of a loop starts with the first bound of the range. -/
  openCounter {s t : State} {start stop : Expr} (name : String) :
    holds s → s.ReadsRange start stop t → value start → holds t →
    holds (t.openScope [⟨name, "i32", start⟩])
  close {s : State} (entries : List (Entry (Binding Expr))) :
    holds s → holds (s.closeScope entries)
  failed_close {s : State} {p : Problem} (entries : List (Entry (Binding Expr))) :
    failed p s → failed p (s.closeScope entries)
  statement_of_value {e : Expr} : value e → statement e
  letStatement {v : Expr} (pos : Position) (name typeName : String) :
    value v → statement (.letStatement pos name typeName v)
  bareReturn (pos : Position) : statement (.returnStatement pos none)
  returnStatement {v : Expr} (pos : Position) :
    value v → statement (.returnStatement pos (some v))
  ifStatement {test : Expr} {body : List Expr} (pos : Position) :
    value test → (test.kind = .binary ∨ test.valueType = "bool") →
    (∀ e ∈ body, statement e) → statement (.ifStatement pos test body)
  whileStatement {test : Expr} {body : List Expr} (pos : Position) :
    value test → (test.kind = .binary ∨ test.valueType = "bool") →
    (∀ e ∈ body, statement e) → statement (.whileStatement pos test body)
  /-- The loop holds the binding of its counter at the end of the body. -/
  forLoop {s : State} {start stop : Expr} {body : List Expr} {counter : Entry (Binding Expr)}
    (pos : Position) (name : String) :
    holds s → counter.decl = ⟨name, "i32", start⟩ → value start → value stop →
    (∀ e ∈ body, statement e) →
    statement (.forLoop pos (s.binding counter) (.range start.pos start stop) body)
  structDef (pos : Position) (struct : StructDef) : statement (.structDef pos struct)
  procDef {proc : Proc Expr} : (∀ e ∈ proc.body, statement e) → statement (.procDef proc)
  implBlock {s : State} {e : Entry (Impl Expr)} (pos : Position) :
    holds s → e.decl.procs = [] → statement (.implBlock pos e.id (s.block e))

namespace StatementRules

open Parse ExprRules

variable {I : StatementRules} {n : Nat}

section Simple

variable {s : State}

theorem after_report {cause : Cause} (hs : I.Fits n s) (hcause : cause.isUnexpectedEnd = false)
    (pos : Position) : I.After n Nothing (Parse.report cause pos s) :=
  ⟨trivial, hs.stay (I.report hcause hs.holds) (State.unread_report s _)⟩

theorem after_checkWrittenType (written : Option String) (v : Expr) (hs : I.Fits n s) :
    I.After n Nothing (checkWrittenType written v s) := by
  cases written with
  | none => exact .pure hs trivial
  | some typeName =>
    unfold checkWrittenType
    simp only
    split
    · exact .pure hs trivial
    · exact after_report hs rfl _

theorem after_warnIfShadowed (shadowed : Bool) (sort : String) (name : Token) (hs : I.Fits n s) :
    I.After n Nothing (warnIfShadowed shadowed sort name s) := by
  unfold warnIfShadowed
  split
  · exact after_report hs rfl _
  · exact .pure hs trivial

theorem after_letStatement (keyword : Token) (hs : I.Fits n s) :
    I.After n I.statement (Parse.letStatement keyword s) := by
  refine .expect hs (by decide) fun name rest _ _ hname => ?_
  refine (after_optionalType hname).bind fun written s₁ _ _ hwritten => ?_
  refine .expect hwritten (by decide) fun eq rest' _ heq hassign => ?_
  refine (after_expr hassign (State.awaits_consume (by rw [heq]; rfl))).bind
    fun v s₂ _ hv hs₂ => ?_
  refine (after_checkWrittenType written v hs₂).bind fun _ s₃ _ _ hs₃ => ?_
  exact ⟨I.letStatement _ _ _ hv, hs₃.stay (I.declareVariable _ _ hs₃.holds hv) rfl⟩

theorem after_returnStatement (keyword : Token) (hs : I.Fits n s) (hawaits : s.Awaits) :
    I.After n I.statement (Parse.returnStatement keyword s) := by
  refine .peek ?_
  cases hnext : s.unread.head? with
  | none => exact .pure hs (I.bareReturn _)
  | some t =>
    simp only
    split
    · exact .pure hs (I.bareReturn _)
    · exact (after_expr hs hawaits).bind fun v u _ hv hu => .pure hu (I.returnStatement _ hv)

theorem after_condition (hs : I.Fits n s) (hawaits : s.Awaits) :
    I.After n (fun test => I.value test ∧ (test.kind = .binary ∨ test.valueType = "bool"))
      (condition s) := by
  refine (after_expr hs hawaits).bind fun test u _ htest hu => ?_
  split
  · exact .fail hu rfl _
  · rename_i hkind
    exact .pure hu ⟨htest, (Decidable.not_and_iff_not_or_not.mp hkind).imp
      Decidable.not_not.mp Decidable.not_not.mp⟩

theorem after_structStatement (keyword : Token) (hs : I.Fits n s) :
    I.After n I.statement (structStatement keyword s) := by
  refine .expect hs (by decide) fun name rest _ _ hname => ?_
  refine .expect hname (by decide) fun opening rest' _ _ hopen => ?_
  refine (after_structFields _ hopen).bind fun fields s₁ _ _ hs₁ => ?_
  refine .expect hs₁ (by decide) fun closing rest'' _ _ hclose => ?_
  have hdeclared := hclose.stay (I.declareStruct ⟨name.lexeme, fields⟩ hclose.holds) rfl
  exact (after_warnIfShadowed _ _ name hdeclared).bind fun _ s₂ _ _ hs₂ =>
    .pure hs₂ (I.structDef _ _)

end Simple

section Compounds

variable {s : State}
  (hb : ∀ ofProc s, I.Fits n s → I.After n (fun es => ∀ e ∈ es, I.statement e) (block ofProc s))

/-- A step while some variables are declared. -/
theorem after_withVariables {α : Type} {V : α → Prop} {bindings : List (Binding Expr)}
    {f : List (Entry (Binding Expr)) → Parse α}
    (h : I.After n V (f (s.entriesFor bindings) (s.openScope bindings))) :
    I.After n V (withVariables bindings f s) := by
  unfold withVariables
  simp only
  cases hr : f (s.entriesFor bindings) (s.openScope bindings) with
  | ok a t =>
    rw [hr] at h
    exact ⟨h.1, h.2.stay (I.close _ h.2.holds) rfl⟩
  | error p t =>
    rw [hr] at h
    exact I.failed_close _ h

include hb

theorem after_procedure (keyword : Token) (hs : I.Fits n s) :
    I.After n (fun np => ∀ e ∈ np.2.body, I.statement e) (procedure block keyword s) := by
  refine .expect hs (by decide) fun name rest _ _ hname => ?_
  refine .expect hname (by decide) fun opening rest' _ _ hopen => ?_
  refine (after_parameters hopen).bind fun params s₁ _ _ hs₁ => ?_
  refine .expect hs₁ (by decide) fun closing rest'' _ _ hclose => ?_
  refine (after_optionalType hclose).bind fun returnType s₂ _ _ hs₂ => .tables ?_
  have hopened := hs₂.stay (I.openParameters params name.pos hs₂.holds) rfl
  refine (after_withVariables (hb true _ hopened)).bind fun body s₃ _ hbody hs₃ => ?_
  exact ⟨hbody, hs₃.stay (I.complete hs₃.holds) rfl⟩

theorem after_procStatement (keyword : Token) (hs : I.Fits n s) :
    I.After n I.statement (procStatement block keyword s) := by
  refine (after_procedure hb keyword hs).bind fun np s₁ _ hbody hs₁ => ?_
  have hdeclared := hs₁.stay (I.declareProcedure hs₁.holds hbody) rfl
  exact (after_warnIfShadowed _ _ np.1 hdeclared).bind fun _ s₂ _ _ hs₂ =>
    .pure hs₂ (I.procDef hbody)

theorem after_implProc (hs : I.Fits n s) :
    I.After n (fun proc => ∀ e ∈ proc.body, I.statement e) (implProc block s) := by
  refine .expect hs (by decide) fun keyword rest _ _ hkeyword => ?_
  exact (after_procedure hb keyword hkeyword).bind fun np u _ hbody hu => .pure hu hbody

theorem after_implProcs (entry : Entry (Impl Expr)) (hs : I.Fits n s) :
    I.After n Nothing (bounded (implProcs block entry) s) := by
  -- Every procedure reads a token at least, so that fewer are left for those behind it.
  induction hlength : s.unread.length using Nat.strongRecOn generalizing s with
  | ind m ih =>
    rw [implProcs_eq]
    refine .accept hs (by decide) (fun closing rest _ _ hclose => .pure hclose trivial) ?_
    refine (after_implProc hb hs).bind fun proc u hproc hbody hu => ?_
    have hless : u.unread.length < m := hlength ▸ implProc_lt hproc
    exact ih _ hless (hu.stay (I.addProc entry hu.holds hbody) rfl) rfl

theorem after_implBody (struct : StructDef) (name : Token) (hs : I.Fits n s) :
    I.After n (fun entry => entry.decl.procs = []) (implBody block struct name s) := by
  have hdeclared := hs.stay (I.declareImpl struct hs.holds) rfl
  refine (after_warnIfShadowed (s.tables.shadows (.impl ⟨s.nextId, ⟨struct, []⟩⟩)) "impl" name
    hdeclared).bind fun _ s₁ _ _ hs₁ => ?_
  exact (after_implProcs hb _ hs₁).bind fun _ s₂ _ _ hs₂ => .pure hs₂ rfl

theorem after_implStatement (keyword : Token) (hs : I.Fits n s) :
    I.After n I.statement (implStatement block keyword s) := by
  refine .expect hs (by decide) fun name rest _ _ hname => .tables ?_
  cases hstruct : (s.consume name rest).tables.structs.lookup? name.lexeme with
  | none => exact .fail hname rfl _
  | some struct =>
    refine .expect hname (by decide) fun opening rest' _ _ hopen => ?_
    refine (after_implBody hb struct.decl name hopen).bind fun entry u _ hentry hu => ?_
    exact .pure hu (I.implBlock _ hu.holds hentry)

theorem after_forStatement (keyword : Token) (hs : I.Fits n s) :
    I.After n I.statement (forStatement block keyword s) := by
  refine .expect hs (by decide) fun name rest _ _ hname => ?_
  refine .expect hname (by decide) fun inWord rest' _ hk hin => ?_
  refine (after_expr hin (State.awaits_consume (by rw [hk]; rfl))).bind
    fun start s₁ hfirst hstart hs₁ => ?_
  refine .expect hs₁ (by decide) fun dots rest'' hunread hk' hdots => ?_
  refine (after_expr hdots (State.awaits_consume (by rw [hk']; rfl))).bind
    fun stop s₂ hlast hstop hs₂ => ?_
  refine after_withVariables ?_
  have hrange : State.ReadsRange _ start stop s₂ :=
    ⟨State.awaits_consume (by rw [hk]; rfl), _, _, _, hfirst, hunread, hk', hlast⟩
  have hopened := hs₂.stay (I.openCounter name.lexeme hin.holds hrange hstart hs₂.holds) rfl
  refine (hb false _ hopened).bind fun body s₃ _ hbody hs₃ => ?_
  exact ⟨I.forLoop keyword.pos name.lexeme hs₃.holds rfl hstart hstop hbody, hs₃⟩

/-- A statement behind its first token. -/
theorem after_statementFrom {t : Token} {rest : List Token} (hs : I.holds s)
    (hunread : s.unread = t :: rest) (hlength : rest.length ≤ n) (hk : t.kind ≠ .semicolon) :
    I.After n I.statement (statementFrom block t (s.consume t rest)) := by
  have hread : I.Fits n (s.consume t rest) := ⟨I.read hs hunread hk, hlength⟩
  have hvalue : t.kind.startsValue → I.After n I.statement (exprFrom t (s.consume t rest)) :=
    fun hstart => (after_exprFrom hs hunread hlength hstart).mono fun _ => I.statement_of_value
  unfold statementFrom
  cases hkind : t.kind
  case letWord => exact after_letStatement t hread
  case procWord => exact after_procStatement hb t hread
  case structWord => exact after_structStatement t hread
  case implWord => exact after_implStatement hb t hread
  case ifWord =>
    refine (after_condition hread (State.awaits_consume (by rw [hkind]; rfl))).bind
      fun test u _ htest hu => ?_
    exact (hb false u hu).bind fun body v _ hbody hv =>
      .pure hv (I.ifStatement _ htest.1 htest.2 hbody)
  case whileWord =>
    refine (after_condition hread (State.awaits_consume (by rw [hkind]; rfl))).bind
      fun test u _ htest hu => ?_
    exact (hb false u hu).bind fun body v _ hbody hv =>
      .pure hv (I.whileStatement _ htest.1 htest.2 hbody)
  case forWord => exact after_forStatement hb t hread
  case returnWord =>
    exact after_returnStatement t hread (State.awaits_consume (by rw [hkind]; rfl))
  case literal | identifier | not | minus | invalid => exact hvalue (by rw [hkind]; rfl)
  all_goals exact .fail hread rfl _

end Compounds
end StatementRules
end ScriptFront
