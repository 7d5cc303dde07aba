import ScriptFront.Proofs.Surface.SoundPrograms
import ScriptFront.Proofs.Tables.Growth
import ScriptFront.Proofs.Values.Failures

/-!
# Every reader accounts for what it declares

The statements that are read and the symbols that are declared meanwhile belong together.  Each
statement that is found in a program has declared its symbols; a statement that fails may have
declared some, too, but then a problem is reported.

**Results.**

* `Recounts.bind`: the accounts of two steps are the account of one after the other.
* `recounts_statementFrom`, `recounts_block`: statements and blocks.
* `declares_finish`: whole programs.
-/

namespace ScriptFront

/-- What a statement declares: the name and type of a variable, a procedure, a struct, or an impl
block with the identity of its entry. -/
inductive Declaration where
  | variable (v : TypedName)
  | procedure (proc : Proc Expr)
  | struct (struct : StructDef)
  | impl (entry : Entry (Impl Expr))

namespace Declaration

def var? : Declaration → Option TypedName
  | .variable v => some v
  | _ => none

def proc? : Declaration → Option (Proc Expr)
  | procedure proc => some proc
  | _ => none

def struct? : Declaration → Option StructDef
  | struct s => some s
  | _ => none

def impl? : Declaration → Option (Entry (Impl Expr))
  | impl e => some e
  | _ => none

end Declaration

/-- What has been declared with a symbol. -/
def Symbol.declared : Symbol → Declaration
  | .variable e => .variable e.decl.typed
  | procedure e => .procedure e.decl
  | struct e => .struct e.decl
  | impl e => .impl e

mutual

/--
The declarations in a statement, in the order of the text: a procedure comes behind what is declared
in its body, an impl block in front of what is declared in the bodies of its procedures.  The
procedures of an impl block are declared by the block.
-/
def Expr.declarations : Expr → List Declaration
  | .letStatement _ name typeName _ => [.variable ⟨name, typeName⟩]
  | .ifStatement _ _ body | .whileStatement _ _ body | .forLoop _ _ _ body => declarationsIn body
  | .procDef ⟨number, pos, name, returnType, params, body⟩ =>
    declarationsIn body ++ [.procedure ⟨number, pos, name, returnType, params, body⟩]
  | .structDef _ struct => [.struct struct]
  | .implBlock _ id ⟨struct, procs⟩ => .impl ⟨id, ⟨struct, procs⟩⟩ :: declarationsInBodies procs
  | _ => []

/-- The declarations in several statements. -/
def declarationsIn : List Expr → List Declaration
  | [] => []
  | e :: es => e.declarations ++ declarationsIn es

/-- The declarations in the bodies of several procedures. -/
def declarationsInBodies : List (Proc Expr) → List Declaration
  | [] => []
  | ⟨_, _, _, _, _, body⟩ :: procs => declarationsIn body ++ declarationsInBodies procs

end

theorem declarationsIn_append (es fs : List Expr) :
    declarationsIn (es ++ fs) = declarationsIn es ++ declarationsIn fs := by
  induction es with
  | nil => rfl
  | cons e es ih => rw [List.cons_append, declarationsIn, declarationsIn, ih, List.append_assoc]

theorem declarationsInBodies_append (ps qs : List (Proc Expr)) :
    declarationsInBodies (ps ++ qs) = declarationsInBodies ps ++ declarationsInBodies qs := by
  induction ps with
  | nil => rfl
  | cons p ps ih =>
    rw [List.cons_append, declarationsInBodies, declarationsInBodies, ih, List.append_assoc]

/-- The declarations of what has been read are among those of the symbols that have been declared,
in the same order; they are all of them if nothing but advice has been reported. -/
structure Accounts (ds : List Declaration) (log : List Symbol) (t : State) : Prop where
  sublist : ds.Sublist (log.map Symbol.declared)
  all : t.Advisory → ds = log.map Symbol.declared

/-- A step from `s` declares symbols, and what it gives, these symbols and the state after it are
related by `V`. -/
def Recounts {α : Type} (s : State) (V : α → List Symbol → State → Prop) :
    EStateM.Result Problem State α → Prop
  | .ok a t => s.Numbered → ∃ log, Declares s log t ∧ V a log t
  | .error _ t => s.Numbered → ∃ log, Declares s log t

/-- What a statement declares is accounted for. -/
def Declared (e : Expr) (log : List Symbol) (t : State) : Prop :=
  Accounts e.declarations log t

/-- What the statements of a block declare is accounted for. -/
def DeclaredIn (es : List Expr) (log : List Symbol) (t : State) : Prop :=
  Accounts (declarationsIn es) log t

/-- Nothing has been declared that stays. -/
def Quiet {α : Type} (_ : α) (log : List Symbol) (_ : State) : Prop :=
  log = []

open Parse

variable {α β : Type} {s t u : State} {log log' : List Symbol}

namespace Accounts

variable {ds ds' : List Declaration}

theorem nil (t : State) : Accounts [] [] t :=
  ⟨.refl _, fun _ => rfl⟩

theorem append (h : Accounts ds log t) (htu : t.Later u) (h' : Accounts ds' log' u) :
    Accounts (ds ++ ds') (log ++ log') u where
  sublist := by
    rw [List.map_append]
    exact h.sublist.append h'.sublist
  all hu := by rw [List.map_append, ← h.all (hu.of_prefix htu.problems), ← h'.all hu]

/-- Afterwards nothing is declared. -/
theorem later (h : Accounts ds log t) (htu : t.Later u) : Accounts ds log u :=
  ⟨h.sublist, fun hu => h.all (hu.of_prefix htu.problems)⟩

/-- A single symbol. -/
theorem one {symbol : Symbol} (hlog : log = [symbol]) (hds : ds = [symbol.declared]) :
    Accounts ds log t := by
  subst hlog hds
  exact ⟨.refl _, fun _ => rfl⟩

end Accounts

namespace Recounts

variable {V : α → List Symbol → State → Prop} {W : β → List Symbol → State → Prop}
  {p : Parse α} {f : α → Parse β}

theorem of_numbered {r : EStateM.Result Problem State α} (h : s.Numbered → Recounts s V r) :
    Recounts s V r := by
  cases r with
  | ok a t => exact fun hs => h hs hs
  | error e t => exact fun hs => h hs hs

/-- Something has been declared before the step. -/
theorem of_declares {r : EStateM.Result Problem State α} (h : Declares s log t)
    (ht : Recounts t (fun a log' u => V a (log ++ log') u) r) : Recounts s V r := by
  cases r with
  | ok a u =>
    intro hs
    obtain ⟨log', hlog', hV⟩ := ht (h.grows hs).keeps.numbered
    exact ⟨_, h.trans hlog', hV⟩
  | error e u =>
    intro hs
    obtain ⟨log', hlog'⟩ := ht (h.grows hs).keeps.numbered
    exact ⟨_, h.trans hlog'⟩

/-- Nothing has been declared before the step. -/
theorem of_pass {r : EStateM.Result Problem State α} (h : Declares s [] t) (ht : Recounts t V r) :
    Recounts s V r :=
  .of_declares h ht

/-- The account of a step goes on with another one. -/
theorem goOn (hp : Recounts s V (p t))
    (hf : ∀ a u log, p t = .ok a u → Declares s log u → V a log u → Recounts s W (f a u)) :
    Recounts s W ((p >>= f) t) := by
  cases hr : p t with
  | error e u =>
    rw [hr] at hp
    rw [bind_of_error hr]
    exact hp
  | ok a u =>
    rw [hr] at hp
    rw [bind_of_ok hr]
    refine .of_numbered fun hs => ?_
    obtain ⟨log, hlog, ha⟩ := hp hs
    exact hf a u log hr hlog ha

/-- The account of a step and then another one. -/
theorem bind (hp : Recounts s V (p t))
    (hf : ∀ a u log, p t = .ok a u → Declares s log u → V a log u →
      Recounts u (fun b log' v => W b (log ++ log') v) (f a u)) :
    Recounts s W ((p >>= f) t) :=
  hp.goOn fun a u log hr hlog ha => .of_declares hlog (hf a u log hr hlog ha)

/-- The account of a step in between. -/
theorem between (hst : Declares s log t) (hp : Recounts t V (p t))
    (hf : ∀ a u log', Declares t log' u → V a log' u → Declares s (log ++ log') u →
      Recounts s W (f a u)) :
    Recounts s W ((p >>= f) t) := by
  cases hr : p t with
  | error e u =>
    rw [hr] at hp
    rw [bind_of_error hr]
    exact .of_declares (r := .error e u) hst hp
  | ok a u =>
    rw [hr] at hp
    rw [bind_of_ok hr]
    refine .of_numbered fun hs => ?_
    obtain ⟨log', hlog', ha⟩ := hp (hst.grows hs).keeps.numbered
    exact hf a u log' hlog' ha (hst.trans hlog')

theorem pure {a : α} (h : V a [] s) : Recounts s V ((Pure.pure a : Parse α) s) :=
  fun _ => ⟨[], .course (.refl s), h⟩

theorem fail (cause : Cause) (pos : Position) : Recounts s V ((Parse.fail cause pos : Parse α) s) :=
  fun _ => ⟨[], .course (.refl s)⟩

theorem failAtEnd (expected : Expected) :
    Recounts s V ((Parse.failAtEnd expected : Parse α) s) :=
  fun _ => ⟨[], .course (.refl s)⟩

/-- A step that declares nothing, and then another one. -/
theorem next (hp : Recounts s Quiet (p s))
    (hf : ∀ a t, p s = .ok a t → Declares s [] t → Recounts t W (f a t)) :
    Recounts s W ((p >>= f) s) := by
  refine hp.bind fun a t log hr hlog hquiet => ?_
  obtain rfl : log = [] := hquiet
  exact hf a t hr hlog

/-- What a step gives is put into a tree. -/
theorem map {g : α → β} (hp : Recounts s V (p t)) (hg : ∀ a log u, V a log u → W (g a) log u) :
    Recounts s W ((do return g (← p)) t) := by
  refine hp.bind fun a u log _ _ ha => .pure ?_
  rw [List.append_nil]
  exact hg a log u ha

/-- A step that takes a course declares nothing. -/
theorem of_after {n : Nat} {V : α → Prop} {r : EStateM.Result Problem State α}
    (h : (courseRules s).After n V r) : Recounts s Quiet r := by
  cases r with
  | ok a t =>
    obtain ⟨ds, hds⟩ := h.2.holds.2
    exact fun _ => ⟨[], .course hds, rfl⟩
  | error e t =>
    obtain ⟨ds, hds⟩ := h
    exact fun _ => ⟨[], .course hds⟩

/-- A step that expects a token first. -/
theorem expect {k : TokenKind} {f : Token → Parse β}
    (hf : ∀ t rest, s.unread = t :: rest → t.kind = k →
      Recounts (s.consume t rest) W (f t (s.consume t rest))) :
    Recounts s W ((Parse.expect k >>= f) s) := by
  cases hr : Parse.expect k s with
  | error e u =>
    obtain ⟨rfl, _⟩ := expect_error hr
    rw [bind_of_error hr]
    exact fun _ => ⟨[], .course (.refl u)⟩
  | ok t u =>
    obtain ⟨hk, rest, hunread, rfl⟩ := expect_eq_ok_iff.mp hr
    rw [bind_of_ok hr]
    exact .of_pass (.course (.token hunread)) (hf t rest hunread hk)

/-- What is declared while some variables are in their scope stays. -/
theorem scope {bindings : List (Binding Expr)} {f : List (Entry (Binding Expr)) → Parse α}
    (hV : ∀ a log t, V a log t → V a log (t.closeScope (s.entriesFor bindings)))
    (h : Recounts (s.openScope bindings) V (f (s.entriesFor bindings) (s.openScope bindings))) :
    Recounts s V (withVariables bindings f s) := by
  unfold withVariables
  simp only
  cases hr : f (s.entriesFor bindings) (s.openScope bindings) with
  | ok a t =>
    rw [hr] at h
    intro hs
    obtain ⟨log, hlog, ha⟩ := h (State.Extends.openScope hs bindings).numbered
    exact ⟨log, .scope hlog, hV a log t ha⟩
  | error e t =>
    rw [hr] at h
    intro hs
    obtain ⟨log, hlog⟩ := h (State.Extends.openScope hs bindings).numbered
    exact ⟨log, .scope hlog⟩

end Recounts

section Simple

/-- An expression declares nothing. -/
def undeclaringRules : ExprRules where
  holds _ := True
  failed _ _ := True
  operand e := e.declarations = []
  primary e := e.declarations = []
  value e := e.declarations = []
  read _ _ _ := trivial
  fail _ _ := trivial
  failAtEnd _ _ _ := trivial
  stop _ _ _ _ := trivial
  literal _ _ _ := rfl
  negative _ _ _ _ _ := rfl
  one _ _ := rfl
  reference _ _ _ := rfl
  primary_of_operand h := h
  fieldAccess _ _ _ _ _ := rfl
  call _ _ _ _ _ := rfl
  implCall _ _ _ _ _ _ _ := rfl
  binary _ _ _ := rfl
  value_of_primary h := h
  negation _ _ _ := rfl
  structLiteral _ _ _ _ _ := rfl
  assign _ _ _ _ _ _ _ := rfl
  fieldAssign _ _ _ _ _ _ := ⟨trivial, rfl⟩

/-- The expression of a statement declares nothing. -/
theorem recounts_expr (hawaits : s.Awaits) : Recounts s Quiet (expr s) :=
  .of_after (ExprRules.after_expr (courseRules_fits s) hawaits)

/-- An expression that is a statement has nothing to declare. -/
theorem recounts_exprFrom {t : Token} {rest : List Token} (hunread : s.unread = t :: rest)
    (hstart : t.kind.startsValue) :
    Recounts s Declared (exprFrom t (s.consume t rest)) := by
  have hcourse := Recounts.of_after (ExprRules.after_exprFrom (n := rest.length)
    (courseRules_fits s).holds hunread (Nat.le_refl _) hstart)
  have hvalue := ExprRules.after_exprFrom (I := undeclaringRules) (n := rest.length) trivial hunread
    (Nat.le_refl _) hstart
  cases hr : exprFrom t (s.consume t rest) with
  | error p u =>
    rw [hr] at hcourse
    exact hcourse
  | ok e u =>
    rw [hr] at hcourse hvalue
    have hnone : e.declarations = [] := hvalue.1
    intro hs
    obtain ⟨log, hlog, rfl⟩ := hcourse hs
    refine ⟨[], hlog, ?_⟩
    unfold Declared
    rw [hnone]
    exact .nil u

theorem recounts_report (cause : Cause) (pos : Position) :
    Recounts s Quiet (Parse.report cause pos s) :=
  fun _ => ⟨[], .pass (.report s _) (s.tables_report _).1 (s.tables_report _).2, rfl⟩

theorem recounts_warnIfShadowed (shadowed : Bool) (sort : String) (name : Token) :
    Recounts s Quiet (warnIfShadowed shadowed sort name s) := by
  unfold warnIfShadowed
  split
  · exact recounts_report _ _
  · exact .pure rfl

theorem recounts_letStatement {keyword : Token} {rest : List Token}
    (hunread : s.unread = keyword :: rest) (hk : keyword.kind = .letWord) :
    Recounts s Declared (letStatement keyword (s.consume keyword rest)) := by
  cases hr : letStatement keyword (s.consume keyword rest) with
  | error p u =>
    obtain ⟨ds, hds⟩ := course_of_letStatement_error hr
    exact fun _ => ⟨[], .course ((Course.token hunread).trans hds)⟩
  | ok e u =>
    obtain ⟨_, _, _, _, _, _, _, _, _, rfl, _⟩ := letStatement_ok hr
    exact fun _ => ⟨_, .letStatement hunread hk hr, .one rfl rfl⟩

theorem recounts_returnStatement {keyword : Token} (hawaits : s.Awaits) :
    Recounts s Declared (returnStatement keyword s) := by
  unfold returnStatement
  cases hunread : s.unread with
  | nil =>
    rw [bind_of_ok (peek_of_nil hunread)]
    exact .pure (.nil s)
  | cons t rest =>
    rw [bind_of_ok (peek_of_cons hunread)]
    simp only
    split
    · exact .pure (.nil s)
    · exact (recounts_expr hawaits).next fun value u _ _ => .pure (.nil u)

theorem recounts_condition (hawaits : s.Awaits) : Recounts s Quiet (condition s) := by
  refine (recounts_expr hawaits).next fun test u _ _ => ?_
  split
  · exact .fail _ _
  · exact .pure rfl

theorem recounts_structStatement (keyword : Token) :
    Recounts s Declared (structStatement keyword s) := by
  refine .expect fun name rest _ _ => .expect fun opening rest' _ _ => ?_
  refine Recounts.next (.of_after (ExprRules.after_structFields _ (courseRules_fits _)))
    fun fields t _ _ => .expect fun closing rest'' _ _ => ?_
  refine .of_declares (.declare (fun id => .struct ⟨id, ⟨name.lexeme, fields⟩⟩) (fun _ => rfl)
    (by nofun)) ?_
  exact (recounts_warnIfShadowed _ _ name).next fun _ u _ _ => .pure (.one rfl rfl)

end Simple

section Compounds

variable {b : Bool → Parse (List Expr)}
  (hb : ∀ ofProc s, Recounts s DeclaredIn (b ofProc s))
include hb

/-- A block in the scope of some variables. -/
theorem recounts_scopedBlock (bindings : List (Binding Expr)) (ofProc : Bool) :
    Recounts s DeclaredIn (withVariables bindings (fun _ => b ofProc) s) :=
  .scope (fun _ _ t h => h.later (.closeScope t _)) (hb ofProc _)

theorem recounts_procedure (keyword : Token) :
    Recounts s (fun np => DeclaredIn np.2.body) (procedure b keyword s) := by
  refine .expect fun name rest _ _ => .expect fun opening rest' _ _ => ?_
  refine Recounts.next (.of_after (ExprRules.after_parameters (courseRules_fits _)))
    fun params t _ _ => .expect fun closing rest'' _ _ => ?_
  refine Recounts.next (.of_after (ExprRules.after_optionalType (courseRules_fits _)))
    fun returnType u _ _ => ?_
  refine (recounts_scopedBlock hb (params.map (·.defaultBinding u.tables.structs name.pos))
    true).bind fun body v log _ _ haccounts => ?_
  have hlater : v.Later { v with completed := v.completed + 1 } :=
    .of_same rfl rfl rfl rfl List.prefix_rfl
  refine .of_pass (.pass hlater rfl rfl) (.pure ?_)
  rw [List.append_nil]
  exact haccounts.later hlater

theorem recounts_procStatement (keyword : Token) :
    Recounts s Declared (procStatement b keyword s) := by
  refine (recounts_procedure hb keyword).bind fun np t log _ _ haccounts => ?_
  have hdeclare : Declares t [.procedure ⟨t.nextId, np.2⟩]
      (t.declareNext fun id => .procedure ⟨id, np.2⟩) :=
    .declare (fun id => .procedure ⟨id, np.2⟩) (fun _ => rfl) (by nofun)
  refine .of_declares hdeclare ((recounts_warnIfShadowed _ _ np.1).next fun _ u _ hu => .pure ?_)
  rw [List.append_nil]
  exact haccounts.append (hdeclare.trans hu).later (.one rfl rfl)

theorem recounts_implProc :
    Recounts s (fun proc => DeclaredIn proc.body) (implProc b s) :=
  .expect fun keyword _ _ _ => (recounts_procedure hb keyword).map fun _ _ _ h => h

/-- An impl block has been declared first, with some procedures; behind it come the symbols that
are declared in their bodies. -/
def DeclaredImpl (e : Entry (Impl Expr)) (log : List Symbol) (t : State) : Prop :=
  ∃ log', log = .impl e :: log' ∧ Accounts (declarationsInBodies e.decl.procs) log' t

/-- The procedures of an impl block are added to the block that has been declared in front of
them. -/
theorem recounts_implProcs {struct : StructDef} {procs : List (Proc Expr)} (n : Nat)
    (hst : Declares s log t) (hlog : DeclaredImpl ⟨s.nextId, ⟨struct, procs⟩⟩ log t) :
    Recounts s (fun _ log u => ∃ procs', DeclaredImpl ⟨s.nextId, ⟨struct, procs'⟩⟩ log u)
      (implProcs b ⟨s.nextId, ⟨struct, []⟩⟩ n t) := by
  induction n generalizing procs log t with
  | zero => exact fun _ => ⟨_, hst⟩
  | succ n ih =>
    obtain ⟨others, rfl, haccounts⟩ := hlog
    unfold implProcs
    rcases accept_eq (k := .rightBrace) t with ⟨closing, rest, hunread, _, haccept⟩ | ⟨_, haccept⟩
    · rw [bind_of_ok haccept]
      have hclose : Declares t [] (t.consume closing rest) := .course (.token hunread)
      refine .of_declares hst (.of_pass hclose (.pure ⟨procs, others, ?_, ?_⟩))
      · rw [List.append_nil]
      · exact haccounts.later hclose.later
    · rw [bind_of_ok haccept]
      refine .of_numbered fun hs => .between hst (recounts_implProc hb) ?_
      intro proc u log' hlater haccounts' hbody
      rw [List.cons_append] at hbody
      have hadd := hbody.addProc (e := ⟨s.nextId, ⟨struct, []⟩⟩) proc (Nat.le_refl _)
      rw [List.map_cons, hbody.map_addProc hs, Symbol.addProc, if_pos rfl] at hadd
      have hone : declarationsInBodies [proc] = declarationsIn proc.body := List.append_nil _
      refine ih hadd ⟨_, rfl, ?_⟩
      rw [declarationsInBodies_append, hone]
      exact (haccounts.append hlater.later haccounts').later
        (.of_same rfl rfl rfl rfl List.prefix_rfl)

/-- An impl block is declared with the procedures that have been read. -/
theorem recounts_implBody (struct : StructDef) (name : Token) :
    Recounts s (fun entry log t => ∃ procs, DeclaredImpl ⟨entry.id, ⟨struct, procs⟩⟩ log t ∧
      t.tables.impls.get? entry.id = some ⟨struct, procs⟩) (implBody b struct name s) := by
  show Recounts s _ ((do
    warnIfShadowed (s.tables.shadows (.impl ⟨s.nextId, ⟨struct, []⟩⟩)) "impl" name
    bounded (implProcs b ⟨s.nextId, ⟨struct, []⟩⟩)
    return (⟨s.nextId, ⟨struct, []⟩⟩ : Entry (Impl Expr)))
      (s.declareNext fun id => .impl ⟨id, ⟨struct, []⟩⟩))
  refine Recounts.between (.declare (fun id => .impl ⟨id, ⟨struct, []⟩⟩) (fun _ => rfl) (by nofun))
    (recounts_warnIfShadowed _ "impl" name) fun _ t log' _ hquiet hst => ?_
  obtain rfl : log' = [] := hquiet
  have hprocs := recounts_implProcs hb t.unread.length hst ⟨[], rfl, .nil t⟩
  refine hprocs.goOn fun _ u log _ hlog ⟨procs, himpl⟩ => .of_numbered fun hs => ?_
  refine .of_declares hlog (.pure ⟨procs, ?_, ?_⟩)
  · rw [List.append_nil]
    exact himpl
  · obtain ⟨others, rfl, _⟩ := himpl
    exact hlog.get?_impl (e := ⟨s.nextId, ⟨struct, procs⟩⟩) hs List.mem_cons_self

theorem recounts_implStatement (keyword : Token) :
    Recounts s Declared (implStatement b keyword s) := by
  refine .expect fun name rest _ _ => ?_
  refine Recounts.next (p := Parse.tables) (fun _ => ⟨[], .course (.refl _), rfl⟩)
    fun known t _ _ => ?_
  cases hstruct : known.structs.lookup? name.lexeme with
  | none => exact .fail _ _
  | some struct =>
    refine .expect fun opening rest' _ _ => ?_
    refine (recounts_implBody hb _ name).bind fun entry u log _ _ himpl =>
      fun _ => ⟨[], .course (.refl u), ?_⟩
    obtain ⟨procs, ⟨others, hlog, h⟩, hget⟩ := himpl
    show Accounts (Expr.implBlock keyword.pos entry.id
      ((u.tables.impls.get? entry.id).getD entry.decl)).declarations (log ++ []) u
    rw [hget, List.append_nil, hlog]
    have hblock : Accounts [.impl ⟨entry.id, ⟨struct.decl, procs⟩⟩]
        [.impl ⟨entry.id, ⟨struct.decl, procs⟩⟩] u := .one rfl rfl
    exact hblock.append (.refl u) h

/-- A block is read into a tree that holds its statements. -/
theorem recounts_guarded {F : Expr → List Expr → Expr} (hawaits : s.Awaits)
    (hF : ∀ test body, (F test body).declarations = declarationsIn body) :
    Recounts s Declared ((do let test ← condition; return F test (← b false)) s) :=
  (recounts_condition hawaits).next fun test t _ _ => (hb false t).map fun body log u h => by
    unfold Declared
    rw [hF]
    exact h

theorem recounts_forStatement (keyword : Token) :
    Recounts s Declared (forStatement b keyword s) := by
  refine .expect fun name rest _ _ => .expect fun inWord rest' _ hin => ?_
  refine (recounts_expr (State.awaits_consume (by rw [hin]; rfl))).next fun start t _ _ => ?_
  refine .expect fun dots rest'' _ hdots => ?_
  refine (recounts_expr (State.awaits_consume (by rw [hdots]; rfl))).next fun stop u _ _ => ?_
  refine .scope (fun _ _ t h => h.later (.closeScope t _)) ?_
  refine (hb false _).bind fun body v log _ _ h => fun _ => ⟨[], .course (.refl v), ?_⟩
  show Accounts (declarationsIn body) (log ++ []) v
  rw [List.append_nil]
  exact h

/-- A statement behind its first token. -/
theorem recounts_statementFrom {t : Token} {rest : List Token} (hunread : s.unread = t :: rest) :
    Recounts s Declared (statementFrom b t (s.consume t rest)) := by
  have hread : Declares s [] (s.consume t rest) := .course (.token hunread)
  have hvalue (hstart : t.kind.startsValue) :
      Recounts s Declared (exprFrom t (s.consume t rest)) :=
    recounts_exprFrom hunread hstart
  unfold statementFrom
  cases hk : t.kind
  case letWord => exact recounts_letStatement hunread hk
  case procWord => exact .of_pass hread (recounts_procStatement hb t)
  case structWord => exact .of_pass hread (recounts_structStatement t)
  case implWord => exact .of_pass hread (recounts_implStatement hb t)
  case ifWord =>
    exact .of_pass hread (recounts_guarded hb (State.awaits_consume (by rw [hk]; rfl))
      fun _ _ => rfl)
  case whileWord =>
    exact .of_pass hread (recounts_guarded hb (State.awaits_consume (by rw [hk]; rfl))
      fun _ _ => rfl)
  case forWord => exact .of_pass hread (recounts_forStatement hb t)
  case returnWord =>
    exact .of_pass hread (recounts_returnStatement (State.awaits_consume (by rw [hk]; rfl)))
  case literal | identifier | not | minus | invalid => exact hvalue (by rw [hk]; rfl)
  all_goals exact .of_pass hread (.fail _ _)

end Compounds

section Blocks

theorem recounts_optionalStatement {b : Bool → Parse (List Expr)}
    (hb : ∀ ofProc s, Recounts s DeclaredIn (b ofProc s)) :
    Recounts s (fun e => DeclaredIn e.toList) (optionalStatement b s) := by
  cases hunread : s.unread with
  | nil =>
    unfold optionalStatement
    rw [bind_of_ok (accept_of_nil hunread)]
    simp only [Bool.false_eq_true, if_false]
    rw [bind_of_error (advance_of_nil hunread)]
    exact fun _ => ⟨[], .course (.refl s)⟩
  | cons t rest =>
    rw [optionalStatement_of_cons b hunread]
    split
    · exact .of_pass (.course (.token hunread)) (.pure (.nil _))
    · refine (recounts_statementFrom hb hunread).map fun e log u h => ?_
      show Accounts (e.declarations ++ []) log u
      rw [List.append_nil]
      exact h

/-- A statement that fails has a problem reported, and nothing comes of it. -/
theorem recounts_statementWith {b : Bool → Parse (List Expr)} (hreads : ReadsBlock b)
    (hb : ∀ ofProc s, Recounts s DeclaredIn (b ofProc s)) :
    Recounts s (fun e => DeclaredIn e.toList) (always (statementWith b) s) := by
  have hoptional := recounts_optionalStatement hb (s := s)
  have hnone (p : Problem) (u : State) (hr : optionalStatement b s = .error p u) :
      ¬ (u.recover s.braceDepth p).Advisory := by
    intro hu
    have hstatement : (statementWith b s).2 = u.recover s.braceDepth p := by
      rw [statementWith, hr]
    have hok := optionalStatement_of_advisory hreads (hstatement ▸ hu)
    rw [hr] at hok
    cases hok
  unfold always statementWith
  cases hr : optionalStatement b s with
  | ok e u =>
    rw [hr] at hoptional
    exact hoptional
  | error p u =>
    rw [hr] at hoptional
    intro hs
    obtain ⟨log, hlog⟩ := hoptional hs
    have hrecover : Declares u [] (u.recover s.braceDepth p) :=
      .pass (.recover u _ p) (u.tables_recover p _).1 (u.tables_recover p _).2
    exact ⟨_, hlog.trans hrecover, List.nil_sublist _, fun hu => absurd hu (hnone p u hr)⟩

theorem recounts_leaveClosedBlock : Recounts s Quiet (leaveClosedBlock s) := by
  unfold leaveClosedBlock
  split
  · exact .pure rfl
  · exact fun _ => ⟨[], .pass (.of_same rfl rfl rfl rfl List.prefix_rfl) rfl rfl, rfl⟩

theorem recounts_skipToClose : Recounts s Quiet (skipToClose s) := by
  have happend := splitAtClose_append 0 s.unread
  unfold skipToClose
  cases hsplit : splitAtClose 0 s.unread with
  | mk skipped rest? =>
    rw [hsplit] at happend
    cases rest? with
    | none =>
      have hall : s.unread = skipped ++ [] := by simpa using happend.symm
      exact fun _ => ⟨[], .pass (.consumeAll hall) rfl rfl⟩
    | some rest => exact fun _ => ⟨[], .pass (.consumeAll happend.symm) rfl rfl, rfl⟩

/-- What follows a statement of a block. -/
theorem recounts_bodyRest {others : Bool → Parse (List Expr)} (ofProc : Bool) (e : Option Expr)
    (hothers : ∀ s, Recounts s DeclaredIn (others ofProc s)) (hst : Declares s log t)
    (he : DeclaredIn e.toList log t) :
    Recounts s DeclaredIn (bodyRest others ofProc e t) := by
  refine .between hst recounts_leaveClosedBlock fun left u log' hleave hquiet hsu => ?_
  obtain rfl : log' = [] := hquiet
  rw [List.append_nil] at hsu
  have hu := he.later hleave.later
  split
  · refine .of_declares hsu (.pure ?_)
    rw [List.append_nil]
    exact hu
  · split
    · refine .between hsu recounts_skipToClose fun _ v log' hskip hquiet hsv => ?_
      obtain rfl : log' = [] := hquiet
      refine .of_declares hsv (.pure ?_)
      rw [List.append_nil, List.append_nil]
      exact hu.later hskip.later
    · refine .of_declares hsu ((hothers u).bind fun es v log' _ hlog' hes => .pure ?_)
      show Accounts (declarationsIn (e.toList ++ es)) (log ++ (log' ++ [])) v
      rw [declarationsIn_append, List.append_nil]
      exact hu.append hlog'.later hes

/-- The statements of a block and its closing brace, at every level. -/
theorem recounts_bodyUpTo (n : Nat) (ofProc : Bool) :
    Recounts s DeclaredIn (bodyUpTo n ofProc s) := by
  induction n generalizing s ofProc with
  | zero => exact .failAtEnd _
  | succ n ih =>
    show Recounts s DeclaredIn (bodyStep _ _ ofProc s)
    unfold bodyStep
    cases hunread : s.unread with
    | nil =>
      rw [bind_of_ok (peek_of_nil hunread)]
      exact .failAtEnd _
    | cons t rest =>
      rw [bind_of_ok (peek_of_cons hunread)]
      simp only
      split
      · rw [bind_of_ok (advance_of_cons hunread)]
        exact .of_pass (.course (.token hunread)) (.pure (.nil _))
      · have hbraced (o : Bool) (s : State) : Recounts s DeclaredIn (braced (bodyUpTo n) o s) :=
          .expect fun _ _ _ _ => ih o
        have hreads : ReadsBlock (braced (bodyUpTo n)) := readsBlock_braced (bodyUpTo_denotes n)
          (declarationLaw_loose.relates_braced (declarationLaw_loose.relates_bodyUpTo n))
          (fun m => (readingLaw_loose m).relates_braced ((readingLaw_loose m).relates_bodyUpTo n))
        exact (recounts_statementWith hreads hbraced).goOn fun e u log _ hlog he =>
          recounts_bodyRest ofProc e (fun _ => ih ofProc) hlog he

theorem recounts_block (ofProc : Bool) : Recounts s DeclaredIn (block ofProc s) :=
  .expect fun _ _ _ _ => recounts_bodyUpTo _ ofProc

/-- A statement declares its symbols, whether it succeeds or fails. -/
theorem declares_statement (hs : s.Numbered) : ∃ log, Declares s log (statement s).2 ∧
    DeclaredIn (statement s).1.toList log (statement s).2 :=
  recounts_statementWith readsBlock (fun ofProc _ => recounts_block ofProc) hs

/-- The statements that are left declare their symbols. -/
theorem declares_finish (session : Session) (hs : session.state.Numbered) :
    ∃ log program, Declares session.state log session.finish.state ∧
      session.finish.program = session.program ++ program ∧
      DeclaredIn program log session.finish.state := by
  obtain ⟨before, s⟩ := session
  induction s using statement_induction generalizing before with
  | nil s hunread =>
    rw [Session.finish_of_nil hunread]
    exact ⟨[], [], .course (.refl _), (List.append_nil _).symm, .nil _⟩
  | cons s t rest hunread ih =>
    obtain ⟨log, hlog, haccounts⟩ := declares_statement hs
    rw [Session.finish_of_cons hunread]
    obtain ⟨log', program, hlog', hprogram, haccounts'⟩ :=
      ih (before ++ (statement s).1.toList) (hlog.grows hs).keeps.numbered
    refine ⟨_, (statement s).1.toList ++ program, hlog.trans hlog', ?_, ?_⟩
    · rw [hprogram, List.append_assoc]
    · unfold DeclaredIn
      rw [declarationsIn_append]
      exact haccounts.append hlog'.later haccounts'

end Blocks
end ScriptFront
