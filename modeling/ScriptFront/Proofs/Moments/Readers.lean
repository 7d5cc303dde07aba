import ScriptFront.Proofs.Moments.Runs
import ScriptFront.Proofs.Values.Failures

/-!
# Every reader of statements has a run

The readers are taken one by one.  Each is put together from smaller ones, and its run from theirs;
where one of them fails, the run ends there with what has been read left out.

**Algorithm.** A block is read from fewer tokens than the statement that holds it, so the readers of
statements are given that blocks of at most `n` tokens have runs.  Blocks get theirs by induction.

**Results.**

* `gives_block`, `run_statement`: blocks and statements.
* `run_finish`: a program is read like the body of a block, from its first token to its last one.
-/

namespace ScriptFront

open Parse

variable {α β : Type} {s v u : State}

/-- From `s` on a run leads to the end of a step, with what is read if the step succeeds. -/
def Gives (s : State) (reads : α → State → Prop) : EStateM.Result Problem State α → Prop
  | .ok a t => reads a t
  | .error _ t => Run s .nothing t

/-- A step in which nothing is read that a program holds. -/
def Parse.Quiet (p : Parse α) : Prop :=
  ∀ u, Gives u (fun _ => Run u .nothing) (p u)

namespace Gives

variable {Y : α → State → Prop} {Z : β → State → Prop}

theorem of_ok {p : Parse α} {f : α → Parse β} {a : α} (hp : p u = .ok a v)
    (h : Gives s Z (f a v)) : Gives s Z ((p >>= f) u) := by
  rw [bind_of_ok hp]
  exact h

theorem of_error {p : Parse α} {f : α → Parse β} {e : Problem} (hp : p u = .error e v)
    (h : Run s .nothing v) : Gives s Z ((p >>= f) u) := by
  rw [bind_of_error hp]
  exact h

theorem bind {p : Parse α} {f : α → Parse β} (hok : ∀ a t, p u = .ok a t → Gives s Z (f a t))
    (herr : ∀ e t, p u = .error e t → Run s .nothing t) : Gives s Z ((p >>= f) u) := by
  cases hr : p u with
  | ok a t => exact .of_ok hr (hok a t hr)
  | error e t => exact .of_error hr (herr e t hr)

/-- A reader and what is made of its result. -/
theorem next {p : Parse α} {f : α → Parse β} (h : Gives v Y (p u)) (hv : Run s .nothing v)
    (hf : ∀ a t, p u = .ok a t → Y a t → Gives s Z (f a t)) : Gives s Z ((p >>= f) u) := by
  refine .bind (fun a t hr => ?_) fun e t hr => ?_
  · rw [hr] at h
    exact hf a t hr h
  · rw [hr] at h
    exact hv.trans h

/-- A reader behind what has been read before. -/
theorem behind {Z : α → State → Prop} {r : EStateM.Result Problem State α} (h : Gives v Y r)
    (hv : Run s .nothing v) (hZ : ∀ a t, Y a t → Z a t) : Gives s Z r := by
  cases r with
  | ok a t => exact hZ a t h
  | error p t => exact hv.trans h

theorem fail (hu : Run s .nothing u) (cause : Cause) (pos : Position) :
    Gives s Y ((Parse.fail cause pos : Parse α) u) :=
  hu

theorem failAtEnd (hu : Run s .nothing u) (expected : Expected) :
    Gives s Y ((Parse.failAtEnd expected : Parse α) u) :=
  hu

theorem tables {f : Tables → Parse β} (h : Gives s Z (f u.tables u)) :
    Gives s Z ((Parse.tables >>= f) u) :=
  h

/-- A step while some variables are declared. -/
theorem scope {Z : α → State → Prop} {bindings : List (Binding Expr)}
    {f : List (Entry (Binding Expr)) → Parse α}
    (h : Gives (u.openScope bindings) Y (f (u.entriesFor bindings) (u.openScope bindings)))
    (hok : ∀ a t, Y a t → Z a (t.closeScope (u.entriesFor bindings)))
    (herr : ∀ t, Run (u.openScope bindings) .nothing t →
      Run s .nothing (t.closeScope (u.entriesFor bindings))) :
    Gives s Z (withVariables bindings f u) := by
  unfold withVariables
  simp only
  cases hr : f (u.entriesFor bindings) (u.openScope bindings) with
  | ok a t =>
    rw [hr] at h
    exact hok a t h
  | error e t =>
    rw [hr] at h
    exact herr t h

section Behind

variable (hv : Run s .nothing v) (hu : Run v .nothing u)
include hv hu

theorem quiet {p : Parse α} {f : α → Parse β} (hp : p.Quiet)
    (hf : ∀ a t, Run v .nothing t → Gives s Z (f a t)) : Gives s Z ((p >>= f) u) :=
  (hp u).next (hv.trans hu) fun a t _ ht => hf a t (hu.trans ht)

theorem expect {k : TokenKind} {f : Token → Parse β}
    (hf : ∀ t rest, u.unread = t :: rest → t.kind = k → Run v .nothing (u.consume t rest) →
      Gives s Z (f t (u.consume t rest))) : Gives s Z ((Parse.expect k >>= f) u) := by
  refine .bind (fun t w hr => ?_) fun e w hr => ?_
  · obtain ⟨ht, rest, hunread, rfl⟩ := expect_eq_ok_iff.mp hr
    exact hf t rest hunread ht (hu.trans (.token hunread))
  · obtain ⟨rfl, _⟩ := expect_error hr
    exact hv.trans hu

theorem value {f : Expr → Parse β} (hawaits : u.Awaits)
    (hf : ∀ e t, u.ReadsValue e t → Gives s Z (f e t)) : Gives s Z ((Parse.expr >>= f) u) := by
  refine .bind (fun e t hr => hf e t ⟨hawaits, hr⟩) fun e t hr => ?_
  obtain ⟨ds, hds⟩ := course_of_expr_error hawaits hr
  exact hv.trans (hu.trans (.course hds))

end Behind
end Gives

section Simple

theorem quiet_of_after {p : Parse α} (h : ∀ u,
    (courseRules u).After u.unread.length ExprRules.Nothing (p u)) : p.Quiet := by
  intro u
  have hafter := h u
  unfold Gives
  cases hr : p u with
  | ok a t =>
    rw [hr] at hafter
    obtain ⟨ds, hds⟩ := hafter.2.holds.2
    exact .course hds
  | error e t =>
    rw [hr] at hafter
    obtain ⟨ds, hds⟩ := hafter
    exact .course hds

theorem quiet_optionalType : Parse.Quiet optionalType :=
  quiet_of_after fun u => ExprRules.after_optionalType (courseRules_fits u)

theorem quiet_parameters : Parse.Quiet parameters :=
  quiet_of_after fun u => ExprRules.after_parameters (courseRules_fits u)

theorem quiet_structFields (n : Nat) : Parse.Quiet (structFields n) :=
  quiet_of_after fun u => ExprRules.after_structFields n (courseRules_fits u)

theorem quiet_checkWrittenType (written : Option String) (value : Expr) :
    Parse.Quiet (checkWrittenType written value) := by
  intro u
  unfold checkWrittenType
  split
  · exact .stay u
  · split
    · exact .stay u
    · exact .report fun _ _ => nofun

/-- A declaration and its warning. -/
theorem warnIfShadowed_declareNext (s : State) (symbol : Nat → Symbol) (sort : String)
    (name : Token) (hsort : sort = (symbol s.nextId).kind.label)
    (hname : name.lexeme = (symbol s.nextId).name) :
    warnIfShadowed (s.tables.shadows (symbol s.nextId)) sort name (s.declareNext symbol) =
      .ok () (s.announce symbol name.pos) := by
  unfold warnIfShadowed State.announce
  rw [hsort, hname]
  split <;> rfl

/-- A condition is a value. -/
theorem gives_condition (hawaits : u.Awaits) : Gives u u.ReadsValue (condition u) := by
  refine .value (.stay u) (.stay u) hawaits fun test t htest => ?_
  obtain ⟨ds, hds⟩ := htest.course
  split
  · exact .fail (.course hds) _ _
  · exact htest

variable {keyword : Token} {rest : List Token} (hunread : s.unread = keyword :: rest)
include hunread

theorem gives_letStatement :
    Gives s (fun e => Run s (.statement e)) (letStatement keyword (s.consume keyword rest)) := by
  have hv := Run.token hunread
  refine .expect hv (.stay _) fun name rest₁ _ _ hname => ?_
  refine .quiet hv hname quiet_optionalType fun written t ht => ?_
  refine .expect hv ht fun eq rest₂ _ heq hassign => ?_
  refine .value hv hassign (State.awaits_consume (by rw [heq]; rfl)) fun value u hvalue => ?_
  obtain ⟨ds, hds⟩ := hvalue.course
  refine (quiet_checkWrittenType written value u).next ((hv.trans hassign).trans (.course hds))
    fun _ w _ hcheck => ?_
  exact .letStatement _ _ hunread hassign hvalue hcheck

theorem gives_returnStatement (hk : keyword.kind = .returnWord) :
    Gives s (fun e => Run s (.statement e))
      (returnStatement keyword (s.consume keyword rest)) := by
  unfold returnStatement
  cases rest with
  | nil => exact .bareReturn hunread
  | cons t others =>
    rw [bind_of_ok (peek_of_cons (t := t) rfl)]
    simp only
    split
    · exact .bareReturn hunread
    · refine .value (.token hunread) (.stay _) (State.awaits_consume (by rw [hk]; rfl))
        fun value u hvalue => ?_
      exact .returnStatement hunread hvalue

theorem gives_structStatement :
    Gives s (fun e => Run s (.statement e)) (structStatement keyword (s.consume keyword rest)) := by
  have hv := Run.token hunread
  refine .expect hv (.stay _) fun name rest₁ _ _ hname => ?_
  refine .expect hv hname fun opening rest₂ _ _ hopen => ?_
  refine .quiet hv hopen (fun u => quiet_structFields _ u) fun fields t ht => ?_
  refine .expect hv ht fun closing rest₃ _ _ hclose => ?_
  have hwarn := warnIfShadowed_declareNext (t.consume closing rest₃)
    (fun id => .struct ⟨id, ⟨name.lexeme, fields⟩⟩) "struct" name rfl rfl
  exact (congrArg (Gives s fun e => Run s (.statement e)) (bind_of_ok hwarn)).mpr
    (.structDef _ name.pos hunread hclose)

theorem gives_exprFrom (hstart : keyword.kind.startsValue) :
    Gives s (fun e => Run s (.statement e)) (exprFrom keyword (s.consume keyword rest)) := by
  obtain ⟨_, herr⟩ := course_of_exprFrom hunread hstart
  cases hr : exprFrom keyword (s.consume keyword rest) with
  | ok e t => exact Run.value hunread hstart hr
  | error p t =>
    obtain ⟨ds, hds⟩ := herr p t hr
    exact .course hds

end Simple

section Compounds

/-- A procedure that has been read and completed. -/
def GivesProc (s : State) (name : Token) (p : Proc Expr) (t : State) : Prop :=
  p.name = name.lexeme ∧ ∃ u, Run s (.proc p) u ∧ t = u.complete

variable {keyword : Token} {rest : List Token} {n : Nat}
  (hb : ∀ ofProc u, u.unread.length ≤ n → Gives u (fun es => Run u (.body es)) (block ofProc u))
include hb

theorem gives_procedure (hunread : s.unread = keyword :: rest) (hlength : rest.length ≤ n) :
    Gives s (fun np => GivesProc s np.1 np.2)
      (procedure block keyword (s.consume keyword rest)) := by
  have hv := Run.token hunread
  refine .expect hv (.stay _) fun name rest₁ _ _ hname => ?_
  refine .expect hv hname fun opening rest₂ _ _ hopen => ?_
  refine .quiet hv hopen quiet_parameters fun params t₁ h₁ => ?_
  refine .expect hv h₁ fun closing rest₃ _ _ hclose => ?_
  refine .quiet hv hclose quiet_optionalType fun returnType t ht => ?_
  have hbody := hb true (t.openScope (t.defaults params name.pos))
    (Nat.le_trans ht.later.length_le hlength)
  have hproc (body : List Expr) (w : State)
      (hw : Run (t.openScope (t.defaults params name.pos)) (.body body) w) :
      Run s (.proc ⟨w.completed, keyword.pos, name.lexeme, returnType, params, body⟩)
        (w.closeScope (t.entriesFor (t.defaults params name.pos))) :=
    .proc name.lexeme returnType params name.pos hunread ht hw
  have hscope := Gives.scope (f := fun _ => block true) hbody
    (Z := fun body w => Run s
      (.proc ⟨w.completed, keyword.pos, name.lexeme, returnType, params, body⟩) w)
    (fun body w hw => hproc body w hw) fun w hw => .dropProc (hproc [] w (.endBody hw))
  exact hscope.next (.stay s) fun body w _ hw => ⟨rfl, w, hw, rfl⟩

theorem gives_procStatement (hunread : s.unread = keyword :: rest) (hlength : rest.length ≤ n) :
    Gives s (fun e => Run s (.statement e))
      (procStatement block keyword (s.consume keyword rest)) := by
  refine (gives_procedure hb hunread hlength).next (.stay s) fun np t _ ⟨hname, u, hu, ht⟩ => ?_
  have hwarn := warnIfShadowed_declareNext t (fun id => .procedure ⟨id, np.2⟩) "procedure" np.1
    rfl hname.symm
  refine (congrArg (Gives s fun e => Run s (.statement e)) (bind_of_ok hwarn)).mpr ?_
  rw [ht]
  exact .procDef np.1.pos hu

/-- A procedure of an impl block, with its keyword. -/
theorem gives_implProc (hlength : s.unread.length ≤ n + 1) :
    Gives s (fun p t => ∃ u, Run s (.proc p) u ∧ t = u.complete) (implProc block s) := by
  refine .expect (.stay s) (.stay s) fun keyword rest hunread _ _ => ?_
  rw [hunread, List.length_cons] at hlength
  exact (gives_procedure hb hunread (Nat.le_of_succ_le_succ hlength)).next (.stay s)
    fun np t _ hproc => hproc.2

/-- The procedures of an impl block, up to a failure or to the brace that closes it. -/
theorem run_implProcs (entry : Entry (Impl Expr)) (m : Nat) (hlength : s.unread.length ≤ n + 1) :
    ∃ ps t, Run s (.procs entry ps) t ∧
      (implProcs block entry m s = .ok () t ∨ ∃ p, implProcs block entry m s = .error p t) := by
  induction m generalizing s with
  | zero => exact ⟨[], s, .endProcs (.stay s), .inr ⟨_, rfl⟩⟩
  | succ m ih =>
    unfold implProcs
    rcases accept_eq (k := .rightBrace) s with ⟨t, rest, hunread, _, haccept⟩ | ⟨_, haccept⟩
    · exact ⟨[], _, .endProcs (.token hunread), .inl (bind_of_ok haccept)⟩
    · rw [bind_of_ok haccept]
      simp only [Bool.false_eq_true, if_false]
      have hproc := gives_implProc hb hlength
      cases hr : implProc block s with
      | error p t =>
        rw [hr] at hproc
        exact ⟨[], t, .endProcs hproc, .inr ⟨p, bind_of_error hr⟩⟩
      | ok proc t =>
        rw [hr] at hproc
        obtain ⟨u, hu, rfl⟩ := hproc
        have hless : (u.complete.addProc entry proc).unread.length ≤ n + 1 :=
          Nat.le_trans hu.later.length_le hlength
        obtain ⟨ps, v, hv, hresult⟩ := ih hless
        refine ⟨proc :: ps, v, .consProcs hu hv, ?_⟩
        rw [bind_of_ok hr]
        exact hresult

/-- An impl block behind its opening brace, up to a failure or to its closing brace. -/
theorem run_implBody (struct : StructDef) (name : Token) (hname : name.lexeme = struct.name)
    (hlength : s.unread.length ≤ n + 1) :
    ∃ ps t, Run (s.announce (fun id => .impl ⟨id, ⟨struct, []⟩⟩) name.pos)
        (.procs ⟨s.nextId, ⟨struct, []⟩⟩ ps) t ∧
      (implBody block struct name s = .ok ⟨s.nextId, ⟨struct, []⟩⟩ t ∨
        ∃ p, implBody block struct name s = .error p t) := by
  have hwarn := warnIfShadowed_declareNext s (fun id => .impl ⟨id, ⟨struct, []⟩⟩) "impl" name
    rfl hname
  let entry : Entry (Impl Expr) := ⟨s.nextId, ⟨struct, []⟩⟩
  have hbody : implBody block struct name s =
      (do bounded (implProcs block entry); return entry)
        (s.announce (fun id => .impl ⟨id, ⟨struct, []⟩⟩) name.pos) := bind_of_ok hwarn
  have hannounced := s.later_announce (fun id => .impl ⟨id, ⟨struct, []⟩⟩) name.pos
  obtain ⟨ps, t, hprocs, hresult⟩ := run_implProcs hb entry _
    (Nat.le_trans hannounced.length_le hlength)
  refine ⟨ps, t, hprocs, ?_⟩
  rw [hbody]
  rcases hresult with hr | ⟨p, hr⟩
  · exact .inl (bind_of_ok hr)
  · exact .inr ⟨p, bind_of_error hr⟩

theorem gives_implStatement (hunread : s.unread = keyword :: rest) (hlength : rest.length ≤ n) :
    Gives s (fun e => Run s (.statement e))
      (implStatement block keyword (s.consume keyword rest)) := by
  have hv := Run.token hunread
  refine .expect hv (.stay _) fun name rest₁ hunread₁ _ hname => ?_
  refine .tables ?_
  cases hstruct : ((s.consume keyword rest).consume name rest₁).tables.structs.lookup?
      name.lexeme with
  | none => exact .fail (hv.trans hname) _ _
  | some struct =>
    refine .expect hv hname fun opening rest₂ hunread₂ _ hopen => ?_
    obtain ⟨ps, u, hprocs, hresult⟩ := run_implBody hb
      (s := ((s.consume keyword rest).consume name rest₁).consume opening rest₂) struct.decl name
      (SymbolTable.name_of_lookup? hstruct).symm
      (Nat.le_succ_of_le (Nat.le_trans hopen.later.length_le hlength))
    have hblock : Run s (.statement _) u := .implBlock name.pos hunread hopen hprocs
    rcases hresult with hr | ⟨p, hr⟩
    · exact .of_ok hr hblock
    · exact .of_error hr (.dropStatement hblock)

theorem gives_forStatement (hunread : s.unread = keyword :: rest) (hlength : rest.length ≤ n) :
    Gives s (fun e => Run s (.statement e))
      (forStatement block keyword (s.consume keyword rest)) := by
  have hv := Run.token hunread
  refine .expect hv (.stay _) fun name rest₁ _ _ hname => ?_
  refine .expect hv hname fun inWord rest₂ _ hk hin => ?_
  refine .value hv hin (State.awaits_consume (by rw [hk]; rfl)) fun start t hstart => ?_
  obtain ⟨ds, hds⟩ := hstart.course
  have ht : Run (s.consume keyword rest) .nothing t := hin.trans (.course hds)
  refine .expect hv ht fun dots rest₃ hunread₃ hk' hdots => ?_
  refine .value hv hdots (State.awaits_consume (by rw [hk']; rfl)) fun stop u hstop => ?_
  obtain ⟨es, hes⟩ := hstop.course
  have hu : Run (s.consume keyword rest) .nothing u := hdots.trans (.course hes)
  have hbody := hb false (u.openScope [⟨name.lexeme, "i32", start⟩])
    (Nat.le_trans hu.later.length_le hlength)
  have hloop {body : List Expr} {w : State}
      (hw : Run (u.openScope [⟨name.lexeme, "i32", start⟩]) (.body body) w) :
      Run s (.statement (.forLoop keyword.pos (w.binding ⟨u.nextId, ⟨name.lexeme, "i32", start⟩⟩)
        (.range start.pos start stop) body))
        (w.closeScope (u.entriesFor [⟨name.lexeme, "i32", start⟩])) :=
    .forLoop name.lexeme hunread hin hstart hunread₃ hstop hw
  refine .scope (hbody.next (Z := fun e w => ∃ body, e = .forLoop keyword.pos
      (w.binding ⟨u.nextId, ⟨name.lexeme, "i32", start⟩⟩) (.range start.pos start stop) body ∧
      Run (u.openScope [⟨name.lexeme, "i32", start⟩]) (.body body) w)
    (.stay _) fun body w _ hw => ⟨body, rfl, hw⟩) ?_
    fun w hw => .dropStatement (hloop (.endBody hw))
  rintro e w ⟨body, rfl, hw⟩
  exact hloop hw

theorem gives_ifStatement (hunread : s.unread = keyword :: rest) (hlength : rest.length ≤ n)
    (hawaits : keyword.kind.awaitsValue) (make : Position → Expr → List Expr → Expr)
    (hmake : ∀ {t u test es}, (s.consume keyword rest).ReadsValue test t → Run t (.body es) u →
      Run s (.statement (make keyword.pos test es)) u) :
    Gives s (fun e => Run s (.statement e)) ((do
      let test ← condition
      return make keyword.pos test (← block false)) (s.consume keyword rest)) := by
  refine (gives_condition (State.awaits_consume hawaits)).next (.token hunread)
    fun test t _ htest => ?_
  obtain ⟨ds, hds⟩ := htest.course
  have ht : Run s .nothing t := (Run.token hunread).trans (.course hds)
  have hbody := hb false t (Nat.le_trans (Run.course hds).later.length_le hlength)
  exact hbody.next ht fun es u _ hes => hmake htest hes

/-- The statement behind its first token. -/
theorem gives_statementFrom (hunread : s.unread = keyword :: rest) (hlength : rest.length ≤ n) :
    Gives s (fun e => Run s (.statement e))
      (statementFrom block keyword (s.consume keyword rest)) := by
  unfold statementFrom
  cases hk : keyword.kind
  case letWord => exact gives_letStatement hunread
  case procWord => exact gives_procStatement hb hunread hlength
  case structWord => exact gives_structStatement hunread
  case implWord => exact gives_implStatement hb hunread hlength
  case ifWord =>
    exact gives_ifStatement hb hunread hlength (by rw [hk]; rfl) Expr.ifStatement
      fun htest hbody => .ifStatement hunread htest hbody
  case whileWord =>
    exact gives_ifStatement hb hunread hlength (by rw [hk]; rfl) Expr.whileStatement
      fun htest hbody => .whileStatement hunread htest hbody
  case forWord => exact gives_forStatement hb hunread hlength
  case returnWord => exact gives_returnStatement hunread hk
  case literal | identifier | not | minus | invalid =>
    exact gives_exprFrom hunread (by rw [hk]; rfl)
  all_goals exact .fail (.token hunread) _ _

end Compounds

/-- What a statement gives, if it gives something. -/
def Outcome.ofStatement : Option Expr → Outcome
  | none => .nothing
  | some e => .statement e

namespace Run

variable {t : State}

theorem drop {e : Option Expr} (h : Run s (.ofStatement e) t) : Run s .nothing t := by
  cases e with
  | none => exact h
  | some e => exact .dropStatement h

theorem precede {es : List Expr} (h : Run t (.body es) u) (hst : Run s .nothing t) :
    Run s (.body es) u := by
  cases h with
  | endBody h => exact .endBody (hst.trans h)
  | consBody h hstatement hrun hbody => exact .consBody (hst.trans h) hstatement hrun hbody

/-- The next statement of a block, which may give nothing. -/
theorem cons {es : List Expr} (h : Run s (.ofStatement (statement s).1) (statement s).2)
    (hbody : Run (statement s).2 (.body es) u) :
    Run s (.body ((statement s).1.toList ++ es)) u := by
  cases hr : (statement s).1 with
  | none =>
    rw [hr] at h
    exact hbody.precede h
  | some e =>
    rw [hr] at h
    have hstatement : statement s = (some e, (statement s).2) := by rw [← hr]
    exact .consBody (.stay s) hstatement h hbody

end Run

section Recovering

variable {n : Nat}

/-- A statement fails for some other reason than a name that is declared again, and then tokens are
skipped. -/
theorem run_recover {p : Problem} (h : optionalStatement block s = .error p u) :
    Run u .nothing (u.recover s.braceDepth p) := by
  have hstage := ((StepLaw.relates_optionalStatement
    fun o => (readingLaw_loose _).relates_block o).error (Nat.lt_succ_self _) h).1
  refine .recover (fun sort name hcause => hstage ?_) _
  rw [hcause]
  rfl

/-- A statement, whether it gives something or not. -/
theorem run_statement_of
    (hb : ∀ ofProc u, u.unread.length ≤ n → Gives u (fun es => Run u (.body es)) (block ofProc u))
    (hlength : s.unread.length ≤ n + 1) :
    Run s (.ofStatement (statement s).1) (statement s).2 := by
  have hstatement : Gives s (fun e => Run s (.ofStatement e)) (optionalStatement block s) := by
    cases hunread : s.unread with
    | nil =>
      unfold optionalStatement
      rw [bind_of_ok (accept_of_nil hunread)]
      exact .of_error (advance_of_nil hunread) (.stay s)
    | cons t rest =>
      rw [hunread] at hlength
      rw [optionalStatement_of_cons block hunread]
      split
      · exact .token hunread
      · exact (gives_statementFrom hb hunread (Nat.le_of_succ_le_succ hlength)).next (.stay s)
          fun e u _ he => he
  unfold statement statementWith
  cases hr : optionalStatement block s with
  | ok e u =>
    rw [hr] at hstatement
    exact hstatement
  | error p u =>
    rw [hr] at hstatement
    exact hstatement.trans (run_recover hr)

theorem quiet_leaveClosedBlock (u : State) :
    ∃ left v, leaveClosedBlock u = .ok left v ∧ Run u .nothing v := by
  unfold leaveClosedBlock
  split
  · exact ⟨false, u, rfl, .stay u⟩
  · exact ⟨true, _, rfl, .leave _⟩

theorem quiet_skipToClose : Parse.Quiet skipToClose := by
  intro u
  have happend := splitAtClose_append 0 u.unread
  unfold skipToClose
  cases hsplit : splitAtClose 0 u.unread with
  | mk skipped rest? =>
    rw [hsplit] at happend
    cases rest? with
    | none => exact .tokens happend.symm
    | some rest => exact .tokens happend.symm

/-- What follows a statement of a block, given that what is left is read from fewer tokens. -/
theorem gives_bodyRest (ofProc : Bool)
    (h : Run s (.ofStatement (statement s).1) (statement s).2)
    (hothers : ∀ v, v.unread.length ≤ (statement s).2.unread.length →
      Gives v (fun es => Run v (.body es)) (body ofProc v)) :
    Gives s (fun es => Run s (.body es))
      (bodyRest body ofProc (statement s).1 (statement s).2) := by
  obtain ⟨left, v, hleave, hv⟩ := quiet_leaveClosedBlock (statement s).2
  have hlast {t : State} (ht : Run (statement s).2 .nothing t) :
      Run s (.body (statement s).1.toList) t := by
    rw [← List.append_nil (statement s).1.toList]
    exact h.cons (.endBody ht)
  unfold bodyRest
  rw [bind_of_ok hleave]
  split
  · exact hlast hv
  · split
    · refine (quiet_skipToClose v).next (h.drop.trans hv) fun _ t _ ht => ?_
      exact hlast (hv.trans ht)
    · refine (hothers v hv.later.length_le).next (h.drop.trans hv) fun es t _ ht => ?_
      exact h.cons (ht.precede hv)

theorem gives_braced {ofProc : Bool} (h : ∀ t rest, s.unread = t :: rest →
      Gives (s.consume t rest) (fun es => Run (s.consume t rest) (.body es))
        (body ofProc (s.consume t rest))) :
    Gives s (fun es => Run s (.body es)) (block ofProc s) := by
  refine .expect (.stay s) (.stay s) fun t rest hunread _ hopen => ?_
  exact (h t rest hunread).behind hopen fun es u hes => hes.precede hopen

/-- The statements of a block behind its opening brace. -/
theorem gives_body (ofProc : Bool) (s : State) :
    Gives s (fun es => Run s (.body es)) (body ofProc s) := by
  -- The blocks inside of a statement, and what follows it, are read from fewer tokens.
  induction hn : s.unread.length using Nat.strongRecOn generalizing s ofProc with
  | ind n ih =>
    rw [body_eq]
    cases hunread : s.unread with
    | nil =>
      exact .of_ok (peek_of_nil hunread) (.failAtEnd (.stay s) _)
    | cons t rest =>
      refine .of_ok (peek_of_cons hunread) ?_
      simp only
      split
      · rw [bind_of_ok (advance_of_cons hunread)]
        exact .endBody (.token hunread)
      · have hless : rest.length < n := by
          rw [← hn, hunread]
          exact Nat.lt_succ_self _
        have hb : ∀ o u, u.unread.length ≤ rest.length →
            Gives u (fun es => Run u (.body es)) (block o u) := by
          intro o u hu
          refine gives_braced fun opening others hopening => ih _ ?_ o _ rfl
          have hlater := State.Later.consume hopening
          exact Nat.lt_of_le_of_lt (Nat.le_trans hlater.length_le hu) hless
        have hstatement := run_statement_of hb (Nat.le_of_eq (congrArg List.length hunread))
        refine gives_bodyRest ofProc hstatement fun v hv => ih _ ?_ ofProc v rfl
        have hlater := (later_statement_of_cons hunread).length_le
        exact Nat.lt_of_le_of_lt (Nat.le_trans hv hlater) hless

theorem gives_block (ofProc : Bool) (s : State) :
    Gives s (fun es => Run s (.body es)) (block ofProc s) :=
  gives_braced fun _ _ _ => gives_body ofProc _

/-- Every statement has a run, with what it gives. -/
theorem run_statement (s : State) : Run s (.ofStatement (statement s).1) (statement s).2 :=
  run_statement_of (fun ofProc u _ => gives_block ofProc u) (Nat.le_succ s.unread.length)

/-- A program is read like the body of a block, up to the last token. -/
theorem run_finish (session : Session) : ∃ es, session.finish.program = session.program ++ es ∧
    Run session.state (.body es) session.finish.state := by
  obtain ⟨program, s⟩ := session
  induction s using statement_induction generalizing program with
  | nil s hunread =>
    rw [Session.finish_of_nil hunread]
    exact ⟨[], (List.append_nil _).symm, .endBody (.stay s)⟩
  | cons s t rest hunread ih =>
    rw [Session.finish_of_cons hunread]
    obtain ⟨es, hprogram, hrun⟩ := ih (program ++ (statement s).1.toList)
    refine ⟨(statement s).1.toList ++ es, ?_, (run_statement s).cons hrun⟩
    rw [hprogram, List.append_assoc]

theorem onward_statement (s : State) (os : List Nat) :
    Onward ⟨s, os⟩ ⟨(statement s).2, os⟩ :=
  (run_statement s).drop.onward os

/-- A program is read moment by moment to its end. -/
theorem onward_finish (session : Session) :
    Onward ⟨session.state, []⟩ ⟨session.finish.state, []⟩ := by
  obtain ⟨es, _, hrun⟩ := run_finish session
  exact hrun.onward []

end Recovering
end ScriptFront
