import ScriptFront.Proofs.Moments.Readers
import ScriptFront.Proofs.Reading.Braces

/-!
# The statements inside of a statement

Statements stand in the bodies of conditional statements, of loops and of procedures, and there are
procedures in impl blocks.  A statement that holds others is read up to a block, and the block is
read statement by statement; each of these may hold others again.  Reading goes on from the
beginning of a statement to those of the statements inside of it, and from the end of each of them
to the end of the statement around it.

**Approach.** The head of a statement with a body is taken as a reader of its own, behind which
stands the block (`Moment.Opens`).  A block comes to the same end from each of its statements on,
whether reading succeeds or fails (`Continues.finalState_body`), and there a statement inside is
joined to the rest of the statement around it.

**Results.**

* `Moment.Opens.onward`, `Moment.Opens.onward_end`: what stands around a block.
* `Moment.Begins.onward`: a statement inside begins behind the beginning of the one around it.
* `Moment.Begins.onward_end`: and ends in front of its end.
-/

namespace ScriptFront

open Parse Relation

namespace Parse

section Heads

/-- What stands in front of the body of a loop. -/
structure LoopHead where
  name : Token
  start : Expr
  stop : Expr

/-- The counter in front of the body. -/
def LoopHead.counter (h : LoopHead) : Binding Expr :=
  ⟨h.name.lexeme, "i32", h.start⟩

/-- The head of a loop after its keyword. -/
def loopHead : Parse LoopHead := do
  let name ← expect .identifier
  let _ ← expect .inWord
  let start ← expr
  let _ ← expect .range
  let stop ← expr
  return ⟨name, start, stop⟩

/-- What stands in front of the body of a procedure. -/
structure Heading where
  name : Token
  params : List TypedName
  returnType : Option String

/-- The heading of a procedure after its keyword. -/
def heading : Parse Heading := do
  let name ← expect .identifier
  let _ ← expect .leftParen
  let params ← parameters
  let _ ← expect .rightParen
  let returnType ← optionalType
  return ⟨name, params, returnType⟩

/-- The variables that the parameters are while the body is read. -/
def Heading.variables (h : Heading) (t : State) : List (Binding Expr) :=
  t.defaults h.params h.name.pos

/-- The procedure with a heading and a body that is completed in a state. -/
def Heading.proc (h : Heading) (keyword : Token) (body : List Expr) (u : State) : Proc Expr :=
  ⟨u.completed, keyword.pos, h.name.lexeme, h.returnType, h.params, body⟩

/-- The head of an impl block after its keyword, up to its opening brace: the token of its name and
the struct. -/
def implHead : Parse (Token × StructDef) := do
  let name ← expect .identifier
  match (← tables).structs.lookup? name.lexeme with
  | none => fail (.undeclaredStruct name.lexeme) name.pos
  | some struct =>
    let _ ← expect .leftBrace
    return (name, struct.decl)

variable {block : Bool → Parse (List Expr)} {keyword : Token} {s t : State}

/-- A loop is its head and its body. -/
theorem forStatement_of_head {h : LoopHead} (hhead : loopHead s = .ok h t) :
    forStatement block keyword s = withVariables [h.counter] (fun entries => do
      let body ← block false
      let counter ← firstBinding h.counter entries
      return .forLoop keyword.pos counter (.range h.start.pos h.start h.stop) body) t := by
  have heq : forStatement block keyword = (do
      let h ← loopHead
      withVariables [h.counter] fun entries => do
        let body ← block false
        let counter ← firstBinding h.counter entries
        return .forLoop keyword.pos counter (.range h.start.pos h.start h.stop) body) := by
    unfold forStatement loopHead LoopHead.counter
    simp only [bind_assoc, pure_bind]
  rw [heq, bind_of_ok hhead]

/-- A procedure is its heading and its body. -/
theorem procedure_of_heading {h : Heading} (hhead : heading s = .ok h t) :
    procedure block keyword s = (do
      let body ← withVariables (h.variables t) fun _ => block true
      let number ← completeProc
      return (h.name,
        (⟨number, keyword.pos, h.name.lexeme, h.returnType, h.params, body⟩ : Proc Expr))) t := by
  have heq : procedure block keyword = (do
      let h ← heading
      let structs := (← tables).structs
      let body ← withVariables (h.params.map (·.defaultBinding structs h.name.pos))
        fun _ => block true
      let number ← completeProc
      return (h.name, ⟨number, keyword.pos, h.name.lexeme, h.returnType, h.params, body⟩)) := by
    unfold procedure heading
    simp only [bind_assoc, pure_bind]
  have htables : tables t = .ok t.tables t := rfl
  rw [heq, bind_of_ok hhead, bind_of_ok htables]
  rfl

/-- An impl block is its head and its procedures. -/
theorem implStatement_of_head {name : Token} {struct : StructDef}
    (hhead : implHead s = .ok (name, struct) t) :
    implStatement block keyword s = (do
      let entry ← implBody block struct name
      return Expr.implBlock keyword.pos entry.id (← currentImpl entry)) t := by
  have heq : implStatement block keyword = (do
      let (name, struct) ← implHead
      let entry ← implBody block struct name
      return .implBlock keyword.pos entry.id (← currentImpl entry)) := by
    unfold implStatement implHead
    simp only [bind_assoc]
    refine bind_congr fun name => bind_congr fun tables => ?_
    cases tables.structs.lookup? name.lexeme with
    | none => rfl
    | some struct => simp only [bind_assoc, pure_bind]
  rw [heq, bind_of_ok hhead]

section Bodies

variable {h : Heading} {es : List Expr} {u : State} {p : Problem}
  (hhead : heading s = .ok h t)
include hhead

theorem procedure_of_block (hblock : block true (t.openScope (h.variables t)) = .ok es u) :
    procedure block keyword s = .ok (h.name, h.proc keyword es u)
      (u.closeScope (t.entriesFor (h.variables t))).complete := by
  rw [procedure_of_heading hhead]
  exact bind_of_ok (withVariables_of_ok hblock)

theorem procedure_of_block_error
    (hblock : block true (t.openScope (h.variables t)) = .error p u) :
    procedure block keyword s = .error p (u.closeScope (t.entriesFor (h.variables t))) := by
  rw [procedure_of_heading hhead]
  exact bind_of_error (withVariables_of_error hblock)

end Bodies

theorem name_of_implHead {name : Token} {struct : StructDef}
    (hhead : implHead s = .ok (name, struct) t) : name.lexeme = struct.name := by
  obtain ⟨first, u, _, hhead⟩ := bind_eq_ok_iff.mp hhead
  obtain ⟨ts, v, htables, hhead⟩ := bind_eq_ok_iff.mp hhead
  cases hstruct : ts.structs.lookup? first.lexeme with
  | none =>
    rw [hstruct] at hhead
    cases hhead
  | some found =>
    rw [hstruct] at hhead
    obtain ⟨_, _, _, hhead⟩ := bind_eq_ok_iff.mp hhead
    cases hhead
    exact (SymbolTable.name_of_lookup? hstruct).symm

theorem quiet_loopHead : Parse.Quiet loopHead := by
  intro u
  have hu := Run.stay u
  refine .expect hu hu fun name rest₁ _ _ hname => ?_
  refine .expect hu hname fun inWord rest₂ _ hk hin => ?_
  refine .value hu hin (State.awaits_consume (by rw [hk]; rfl)) fun start t hstart => ?_
  obtain ⟨ds, hds⟩ := hstart.course
  refine .expect hu (hin.trans (.course hds)) fun dots rest₃ _ hk' hdots => ?_
  refine .value hu hdots (State.awaits_consume (by rw [hk']; rfl)) fun stop v hstop => ?_
  obtain ⟨es, hes⟩ := hstop.course
  exact hdots.trans (.course hes)

theorem quiet_heading : Parse.Quiet heading := by
  intro u
  have hu := Run.stay u
  refine .expect hu hu fun name rest₁ _ _ hname => ?_
  refine .expect hu hname fun opening rest₂ _ _ hopen => ?_
  refine .quiet hu hopen quiet_parameters fun params t₁ h₁ => ?_
  refine .expect hu h₁ fun closing rest₃ _ _ hclose => ?_
  exact .quiet hu hclose quiet_optionalType fun returnType t ht => ht

theorem quiet_implHead : Parse.Quiet implHead := by
  intro u
  have hu := Run.stay u
  refine .expect hu hu fun name rest₁ _ _ hname => ?_
  refine .tables ?_
  cases (u.consume name rest₁).tables.structs.lookup? name.lexeme with
  | none => exact .fail hname _ _
  | some struct => exact .expect hu hname fun opening rest₂ _ _ hopen => hopen

end Heads
end Parse

/-- Procedures of an impl block have been read between two states, and added to it. -/
inductive Members (entry : Entry (Impl Expr)) : State → State → Prop where
  | refl (s : State) : Members entry s s
  | tail {s t u : State} {proc : Proc Expr} : Members entry s t → implProc block t = .ok proc u →
    Members entry s (u.addProc entry proc)

/-- Statements of a block have been read between two states, and none of them has ended it. -/
inductive Continues (ofProc : Bool) : State → State → Prop where
  | refl (s : State) : Continues ofProc s s
  | tail {s t : State} {next : Token} {rest : List Token} : Continues ofProc s t →
    t.unread = next :: rest → next.kind ≠ .rightBrace → (statement t).2.closedBlocks = 0 →
    (ofProc && isBareReturn (statement t).1) = false → Continues ofProc s (statement t).2

/--
The statement at the first moment holds a block, of a procedure or of another statement, and at the
second moment this block comes next.
-/
inductive Moment.Opens : Moment → Bool → Moment → Prop where
  | test {s t : State} {os : List Nat} {keyword : Token} {rest : List Token} {test : Expr} :
    s.unread = keyword :: rest → keyword.kind = .ifWord ∨ keyword.kind = .whileWord →
    condition (s.consume keyword rest) = .ok test t → Opens ⟨s, os⟩ false ⟨t, os⟩
  | loop {s t : State} {os : List Nat} {keyword : Token} {rest : List Token} {h : LoopHead} :
    s.unread = keyword :: rest → keyword.kind = .forWord →
    loopHead (s.consume keyword rest) = .ok h t →
    Opens ⟨s, os⟩ false ⟨t.openScope [h.counter], os⟩
  | proc {s t : State} {os : List Nat} {keyword : Token} {rest : List Token} {h : Heading} :
    s.unread = keyword :: rest → keyword.kind = .procWord →
    heading (s.consume keyword rest) = .ok h t →
    Opens ⟨s, os⟩ true ⟨t.openScope (h.variables t), os⟩
  /-- Behind some procedures of an impl block there is another one. -/
  | method {s t u v : State} {os : List Nat} {keyword procWord : Token} {rest rest' : List Token}
    {name : Token} {struct : StructDef} {h : Heading} :
    s.unread = keyword :: rest → keyword.kind = .implWord →
    implHead (s.consume keyword rest) = .ok (name, struct) t →
    Members ⟨t.nextId, ⟨struct, []⟩⟩
      (t.announce (fun id => .impl ⟨id, ⟨struct, []⟩⟩) name.pos) u →
    u.unread = procWord :: rest' → procWord.kind = .procWord →
    heading (u.consume procWord rest') = .ok h v →
    Opens ⟨s, os⟩ true ⟨v.openScope (h.variables v), t.nextId :: os⟩

/-- While the statement at the first moment is read, a statement inside of it begins at the second
one. -/
inductive Moment.Begins : Moment → Moment → Prop where
  | block {m : Moment} {ofProc : Bool} {s t : State} {os : List Nat} {opening next : Token}
    {inner rest : List Token} : Opens m ofProc ⟨s, os⟩ →
    s.unread = opening :: inner → opening.kind = .leftBrace →
    Continues ofProc (s.consume opening inner) t → t.unread = next :: rest →
    next.kind ≠ .rightBrace → Begins m ⟨t, os⟩
  | trans {m m' m'' : Moment} : Begins m m' → Begins m' m'' → Begins m m''

section Beginnings

variable {s t : State} {m m' : Moment} {ofProc : Bool}

theorem Parse.Quiet.run {α : Type} {p : Parse α} {a : α} (hp : p.Quiet) (h : p s = .ok a t) :
    Run s .nothing t := by
  have hquiet := hp s
  rw [h] at hquiet
  exact hquiet

theorem run_condition {keyword : Token} {rest : List Token} {test : Expr}
    (hk : keyword.kind = .ifWord ∨ keyword.kind = .whileWord)
    (h : condition (s.consume keyword rest) = .ok test t) :
    Run (s.consume keyword rest) .nothing t := by
  have hawaits : keyword.kind.awaitsValue := by
    rcases hk with hk | hk <;> rw [hk] <;> rfl
  have hgives : Gives _ _ (condition (s.consume keyword rest)) :=
    gives_condition (State.awaits_consume hawaits)
  rw [h] at hgives
  obtain ⟨ds, hcourse⟩ := hgives.course
  exact .course hcourse

theorem run_implProc {proc : Proc Expr} (h : implProc block s = .ok proc t) :
    ∃ u, Run s (.proc proc) u ∧ t = u.complete := by
  have hgives := gives_implProc (fun o u _ => gives_block o u) (Nat.le_succ s.unread.length)
  rw [h] at hgives
  exact hgives

theorem Members.onward {entry : Entry (Impl Expr)} (h : Members entry s t) (os : List Nat) :
    Onward ⟨s, entry.id :: os⟩ ⟨t, entry.id :: os⟩ := by
  induction h with
  | refl => exact .refl
  | @tail t u proc _ hproc ih =>
    obtain ⟨w, hw, rfl⟩ := run_implProc hproc
    exact (ih.trans (hw.onward _)).tail (.addProc hw.number_eq)

theorem Continues.onward (h : Continues ofProc s t) (os : List Nat) : Onward ⟨s, os⟩ ⟨t, os⟩ := by
  induction h with
  | refl => exact .refl
  | tail _ _ _ _ _ ih => exact ih.trans (onward_statement _ os)

/-- The block inside of a statement comes behind the beginning of the statement. -/
theorem Moment.Opens.onward (h : m.Opens ofProc m') : Onward m m' := by
  cases h with
  | test hunread hk htest => exact .head (.token hunread) ((run_condition hk htest).onward _)
  | loop hunread _ hhead =>
    have hrun := quiet_loopHead.run hhead
    exact (ReflTransGen.head (.token hunread) (hrun.onward _)).tail (.openScope _)
  | proc hunread _ hhead =>
    have hrun := quiet_heading.run hhead
    exact (ReflTransGen.head (.token hunread) (hrun.onward _)).tail (.openScope _)
  | @method s t u v os keyword procWord rest rest' name struct h hunread _ hhead hmembers hunread'
      _ hhead' =>
    have hrun := quiet_implHead.run hhead
    have hrun' := quiet_heading.run hhead'
    have hopen := (ReflTransGen.head (.token hunread) (hrun.onward os)).tail
      (.openImpl struct name.pos)
    exact ((hopen.trans (hmembers.onward os)).trans
      (.head (.token hunread') (hrun'.onward _))).tail (.openScope _)

/-- A statement inside of another one begins behind the beginning of that one. -/
theorem Moment.Begins.onward (h : m.Begins m') : Onward m m' := by
  induction h with
  | @block _ _ _ _ os _ _ _ _ hopens hunread _ hcontinues _ _ =>
    exact (hopens.onward.tail (.token hunread)).trans (hcontinues.onward os)
  | trans _ _ ih ih' => exact ih.trans ih'

end Beginnings

section Ends

variable {s t : State} {m m' : Moment} {ofProc : Bool}

theorem Gives.run_finalState {α : Type} {reads : α → State → Prop}
    {r : EStateM.Result Problem State α} (h : Gives s reads r)
    (hreads : ∀ a t, reads a t → Run s .nothing t) : Run s .nothing (finalState r) := by
  cases r with
  | ok a t => exact hreads a t h
  | error p t => exact h

/-- What follows a statement of a block leads to the end of the block. -/
theorem run_bodyRest (ofProc : Bool) (e : Option Expr) (s : State) :
    Run s .nothing (finalState (bodyRest body ofProc e s)) := by
  obtain ⟨left, v, hleave, hv⟩ := quiet_leaveClosedBlock s
  unfold bodyRest
  rw [bind_of_ok hleave]
  split
  · exact hv
  · split
    · rw [finalState_bind fun _ _ => rfl]
      exact hv.trans ((quiet_skipToClose v).run_finalState fun _ _ ht => ht)
    · rw [finalState_bind fun _ _ => rfl]
      exact hv.trans ((gives_body ofProc v).run_finalState fun _ _ ht => .dropBody ht)

/-- A block comes to the same end from each of its statements on. -/
theorem Continues.finalState_body (h : Continues ofProc s t) :
    finalState (body ofProc s) = finalState (body ofProc t) := by
  induction h with
  | refl => rfl
  | @tail t next rest _ hunread hk hzero hbare ih =>
    rw [ih, body_of_open ofProc hunread hk hzero, if_neg (by rw [hbare]; exact Bool.false_ne_true)]
    exact finalState_bind (fun _ _ => rfl) _

theorem finalState_block {opening : Token} {inner : List Token}
    (hunread : s.unread = opening :: inner) (hk : opening.kind = .leftBrace) (ofProc : Bool) :
    finalState (block ofProc s) = finalState (body ofProc (s.consume opening inner)) := by
  unfold block braced
  rw [bind_of_ok (expect_of_cons hunread hk)]

/-- A statement of a block leads to the end of the block. -/
theorem Continues.run_block {opening next : Token} {inner rest : List Token}
    (h : Continues ofProc (s.consume opening inner) t) (hopen : s.unread = opening :: inner)
    (hk : opening.kind = .leftBrace) (hunread : t.unread = next :: rest)
    (hnext : next.kind ≠ .rightBrace) :
    Run (statement t).2 .nothing (finalState (block ofProc s)) := by
  rw [finalState_block hopen hk, h.finalState_body, body_of_cons ofProc hunread hnext]
  exact run_bodyRest ofProc _ _

/-- Behind its last token a statement may be aborted, and then tokens are skipped. -/
theorem run_statement_end (s : State) :
    Run (finalState (optionalStatement block s)) .nothing (statement s).2 := by
  unfold statement statementWith
  cases hr : optionalStatement block s with
  | ok e u => exact .stay u
  | error p u => exact run_recover hr

theorem run_statementFrom_end {keyword : Token} {rest : List Token}
    (hunread : s.unread = keyword :: rest) (hk : keyword.kind ≠ .semicolon) :
    Run (finalState (statementFrom block keyword (s.consume keyword rest))) .nothing
      (statement s).2 := by
  have hend := run_statement_end s
  rw [optionalStatement_of_cons block hunread, if_neg hk, finalState_bind fun _ _ => rfl] at hend
  exact hend

section Procedures

variable {u : State} {proc : Proc Expr} {p : Problem} (entry : Entry (Impl Expr))

/-- An impl block is read procedure by procedure. -/
theorem implProcs_of_ok (hproc : implProc block t = .ok proc u) :
    bounded (implProcs block entry) t = bounded (implProcs block entry) (u.addProc entry proc) := by
  obtain ⟨procWord, v, hword, _⟩ := bind_eq_ok_iff.mp hproc
  obtain ⟨hk, rest, hunread, _⟩ := expect_eq_ok_iff.mp hword
  have haccept : accept .rightBrace t = .ok false t := accept_of_ne hunread (by rw [hk]; decide)
  have heq := congrFun (implProcs_eq entry) t
  rw [bind_of_ok haccept, if_neg Bool.false_ne_true, bind_of_ok hproc] at heq
  exact heq

theorem implProcs_of_error {procWord : Token} {rest : List Token}
    (hunread : t.unread = procWord :: rest) (hk : procWord.kind = .procWord)
    (hproc : implProc block t = .error p u) :
    bounded (implProcs block entry) t = .error p u := by
  have haccept : accept .rightBrace t = .ok false t := accept_of_ne hunread (by rw [hk]; decide)
  have heq := congrFun (implProcs_eq entry) t
  rw [bind_of_ok haccept, if_neg Bool.false_ne_true, bind_of_error hproc] at heq
  exact heq

theorem Members.implProcs_eq {entry : Entry (Impl Expr)} (h : Members entry s t) :
    bounded (implProcs block entry) s = bounded (implProcs block entry) t := by
  induction h with
  | refl => rfl
  | tail _ hproc ih => rw [ih, implProcs_of_ok entry hproc]

/-- The procedures that are left of an impl block lead to its end. -/
theorem onward_implProcs (s : State) (os : List Nat) :
    Onward ⟨s, entry.id :: os⟩
      ⟨finalState (bounded (implProcs block entry) s), entry.id :: os⟩ := by
  obtain ⟨ps, t, hprocs, hresult⟩ := run_implProcs (fun o u _ => gives_block o u) entry
    s.unread.length (Nat.le_succ s.unread.length)
  have hfinal : finalState (bounded (implProcs block entry) s) = t := by
    unfold bounded
    rcases hresult with hr | ⟨p, hr⟩ <;> rw [hr, finalState]
  rw [hfinal]
  exact hprocs.onward os

/-- The body of a procedure of an impl block leads to the end of the impl block. -/
theorem onward_implProcs_of_heading {procWord : Token} {rest : List Token} {h : Heading}
    (hunread : s.unread = procWord :: rest) (hk : procWord.kind = .procWord)
    (hhead : heading (s.consume procWord rest) = .ok h t) (os : List Nat) :
    Onward ⟨finalState (block true (t.openScope (h.variables t))), entry.id :: os⟩
      ⟨finalState (bounded (implProcs block entry) s), entry.id :: os⟩ := by
  have hword := expect_of_cons hunread hk
  cases hblock : block true (t.openScope (h.variables t)) with
  | error p u =>
    have hproc : implProc block s = .error p _ :=
      (bind_of_ok hword).trans (bind_of_error (procedure_of_block_error hhead hblock))
    rw [implProcs_of_error entry hunread hk hproc]
    exact .single (.closeScope _)
  | ok es u =>
    have hproc : implProc block s = .ok (h.proc procWord es u) _ :=
      (bind_of_ok hword).trans (bind_of_ok (procedure_of_block hhead hblock))
    rw [implProcs_of_ok entry hproc]
    exact .head (.closeScope _) (.head (.addProc rfl) (onward_implProcs entry _ os))

theorem finalState_implStatement {keyword name : Token} {struct : StructDef}
    (hhead : implHead s = .ok (name, struct) t) :
    finalState (implStatement block keyword s) =
      finalState (bounded (implProcs block ⟨t.nextId, ⟨struct, []⟩⟩)
        (t.announce (fun id => .impl ⟨id, ⟨struct, []⟩⟩) name.pos)) := by
  have hwarn := warnIfShadowed_declareNext t (fun id => .impl ⟨id, ⟨struct, []⟩⟩) "impl" name
    rfl (name_of_implHead hhead)
  let entry : Entry (Impl Expr) := ⟨t.nextId, ⟨struct, []⟩⟩
  have hbody : implBody block struct name t = (do bounded (implProcs block entry); return entry)
      (t.announce (fun id => .impl ⟨id, ⟨struct, []⟩⟩) name.pos) := bind_of_ok hwarn
  rw [implStatement_of_head hhead, finalState_bind fun _ _ => rfl, hbody,
    finalState_bind fun _ _ => rfl]

end Procedures

/-- Behind the block inside of a statement reading goes on to the end of the statement. -/
theorem Moment.Opens.onward_end (h : m.Opens ofProc m') :
    Onward ⟨finalState (block ofProc m'.state), m'.growing⟩
      ⟨(statement m.state).2, m.growing⟩ := by
  cases h with
  | @test s t os keyword rest test hunread hk htest =>
    have hend := run_statementFrom_end hunread (by rcases hk with hk | hk <;> rw [hk] <;> decide)
    have hblock : finalState (statementFrom block keyword (s.consume keyword rest)) =
        finalState (block false t) := by
      unfold statementFrom
      rcases hk with hk | hk <;>
      · simp only [hk]
        rw [bind_of_ok htest, finalState_bind fun _ _ => rfl]
    rw [hblock] at hend
    exact hend.onward os
  | @loop s t os keyword rest h hunread hk hhead =>
    have hend := run_statementFrom_end hunread (by rw [hk]; decide)
    unfold statementFrom at hend
    simp only [hk] at hend
    rw [forStatement_of_head hhead, finalState_withVariables, finalState_bind fun _ _ => rfl]
      at hend
    exact .head (.closeScope _) (hend.onward os)
  | @proc s t os keyword rest h hunread hk hhead =>
    have hend := run_statementFrom_end hunread (by rw [hk]; decide)
    unfold statementFrom at hend
    simp only [hk] at hend
    cases hblock : block true (t.openScope (h.variables t)) with
    | error p u =>
      have hproc : procStatement block keyword (s.consume keyword rest) = .error p _ :=
        bind_of_error (procedure_of_block_error hhead hblock)
      rw [hproc] at hend
      exact .head (.closeScope _) (hend.onward os)
    | ok es u =>
      have hwarn := warnIfShadowed_declareNext
        (u.closeScope (t.entriesFor (h.variables t))).complete
        (fun id => .procedure ⟨id, h.proc keyword es u⟩) "procedure" h.name rfl rfl
      have hproc : procStatement block keyword (s.consume keyword rest) = .ok _ _ :=
        (bind_of_ok (procedure_of_block hhead hblock)).trans (bind_of_ok hwarn)
      rw [hproc] at hend
      exact .head (.closeScope _) (.head (.declareProcedure h.name.pos rfl) (hend.onward os))
  | @method s t u v os keyword procWord rest rest' name struct h hunread hk hhead hmembers hunread'
      hk' hhead' =>
    have hend := run_statementFrom_end hunread (by rw [hk]; decide)
    unfold statementFrom at hend
    simp only [hk] at hend
    rw [finalState_implStatement hhead, hmembers.implProcs_eq] at hend
    have hproc := onward_implProcs_of_heading ⟨t.nextId, ⟨struct, []⟩⟩ hunread' hk' hhead' os
    exact (hproc.trans (hend.onward (t.nextId :: os))).tail .closeImpl

/-- A statement inside of another one ends in front of the end of that one. -/
theorem Moment.Begins.onward_end (h : m.Begins m') :
    Onward ⟨(statement m'.state).2, m'.growing⟩ ⟨(statement m.state).2, m.growing⟩ := by
  induction h with
  | @block _ _ _ _ os _ _ _ _ hopens hopen hk hcontinues hunread hnext =>
    have hblock := hcontinues.run_block hopen hk hunread hnext
    exact (hblock.onward os).trans hopens.onward_end
  | trans _ _ ih ih' => exact ih'.trans ih

end Ends

end ScriptFront
