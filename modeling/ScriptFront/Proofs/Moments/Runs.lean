import ScriptFront.Proofs.Moments.Steps

/-!
# Runs of the readers of statements

A run is an account of what happens between two states while statements are read, and of what is
read: a statement, the statements of a block, a procedure, the procedures of an impl block, or
nothing, when tokens are skipped or a reader fails.  Whatever has been read in front of a failure is
part of the run, so the account of a failure is that of what has been read with its result left out.

**Results.**

* `Run.onward`: a run goes through moments.
* `Run.later`, `Run.numbered`: so it leads to a later state, in which identities are used once.
-/

namespace ScriptFront

/-- What is read between two states. -/
inductive Outcome where
  | nothing
  | statement (e : Expr)
  | body (es : List Expr)
  | proc (p : Proc Expr)
  /-- Procedures of an impl block that has been declared. -/
  | procs (e : Entry (Impl Expr)) (ps : List (Proc Expr))

/-- The impl block that is being read. -/
def Outcome.growing : Outcome → List Nat
  | procs e _ => [e.id]
  | _ => []

namespace State

/-- A value is read between two states. -/
structure ReadsValue (s : State) (e : Expr) (t : State) : Prop where
  awaits : s.Awaits
  expr : Parse.expr s = .ok e t

theorem ReadsValue.course {s t : State} {e : Expr} (h : s.ReadsValue e t) :
    ∃ ds, Course s ds t :=
  course_of_expr h.awaits h.expr

/-- The parameters of a procedure with their default values. -/
def defaults (s : State) (params : List TypedName) (pos : Position) : List (Binding Expr) :=
  params.map (·.defaultBinding s.tables.structs pos)

end State

/-- Between the states the outcome is read. -/
inductive Run : State → Outcome → State → Prop where
  | course {s t : State} {ds : List (Nat × String)} : Course s ds t → Run s .nothing t
  | report {s : State} {p : Problem} : (∀ sort name, p.cause ≠ .redeclared sort name) →
    Run s .nothing (s.report p)
  | leave {s : State} (n : Nat) : Run s .nothing { s with closedBlocks := n }
  | trans {s t u : State} : Run s .nothing t → Run t .nothing u → Run s .nothing u
  | dropStatement {s t : State} {e : Expr} : Run s (.statement e) t → Run s .nothing t
  | dropBody {s t : State} {es : List Expr} : Run s (.body es) t → Run s .nothing t
  | dropProc {s t : State} {p : Proc Expr} : Run s (.proc p) t → Run s .nothing t
  | value {s t : State} {first : Token} {rest : List Token} {e : Expr} :
    s.unread = first :: rest → first.kind.startsValue →
    Parse.exprFrom first (s.consume first rest) = .ok e t → Run s (.statement e) t
  | letStatement {s t u v : State} {keyword : Token} {rest : List Token} {value : Expr}
    (name typeName : String) : s.unread = keyword :: rest →
    Run (s.consume keyword rest) .nothing t → t.ReadsValue value u → Run u .nothing v →
    Run s (.statement (.letStatement keyword.pos name typeName value))
      (v.declareNext fun id => .variable ⟨id, ⟨name, typeName, value.boundValue⟩⟩)
  | bareReturn {s : State} {keyword : Token} {rest : List Token} : s.unread = keyword :: rest →
    Run s (.statement (.returnStatement keyword.pos none)) (s.consume keyword rest)
  | returnStatement {s t : State} {keyword : Token} {rest : List Token} {value : Expr} :
    s.unread = keyword :: rest → (s.consume keyword rest).ReadsValue value t →
    Run s (.statement (.returnStatement keyword.pos (some value))) t
  | ifStatement {s t u : State} {keyword : Token} {rest : List Token} {test : Expr}
    {es : List Expr} : s.unread = keyword :: rest →
    (s.consume keyword rest).ReadsValue test t → Run t (.body es) u →
    Run s (.statement (.ifStatement keyword.pos test es)) u
  | whileStatement {s t u : State} {keyword : Token} {rest : List Token} {test : Expr}
    {es : List Expr} : s.unread = keyword :: rest →
    (s.consume keyword rest).ReadsValue test t → Run t (.body es) u →
    Run s (.statement (.whileStatement keyword.pos test es)) u
  /-- The loop holds the binding that its counter has at the end of the body. -/
  | forLoop {s t u v w : State} {keyword dots : Token} {rest rest' : List Token}
    {start stop : Expr} {es : List Expr} (name : String) : s.unread = keyword :: rest →
    Run (s.consume keyword rest) .nothing t → t.ReadsValue start u → u.unread = dots :: rest' →
    (u.consume dots rest').ReadsValue stop v →
    Run (v.openScope [⟨name, "i32", start⟩]) (.body es) w →
    Run s (.statement (.forLoop keyword.pos (w.binding ⟨v.nextId, ⟨name, "i32", start⟩⟩)
      (.range start.pos start stop) es)) (w.closeScope (v.entriesFor [⟨name, "i32", start⟩]))
  | structDef {s t : State} {keyword : Token} {rest : List Token} (struct : StructDef)
    (pos : Position) : s.unread = keyword :: rest → Run (s.consume keyword rest) .nothing t →
    Run s (.statement (.structDef keyword.pos struct))
      (t.announce (fun id => .struct ⟨id, struct⟩) pos)
  /-- The procedure is complete when its body has been read. -/
  | proc {s t u : State} {keyword : Token} {rest : List Token} {es : List Expr} (name : String)
    (returnType : Option String) (params : List TypedName) (pos : Position) :
    s.unread = keyword :: rest → Run (s.consume keyword rest) .nothing t →
    Run (t.openScope (t.defaults params pos)) (.body es) u →
    Run s (.proc ⟨u.completed, keyword.pos, name, returnType, params, es⟩)
      (u.closeScope (t.entriesFor (t.defaults params pos)))
  | procDef {s t : State} {p : Proc Expr} (pos : Position) : Run s (.proc p) t →
    Run s (.statement (.procDef p)) (t.complete.announce (fun id => .procedure ⟨id, p⟩) pos)
  | implBlock {s t u : State} {keyword : Token} {rest : List Token} {struct : StructDef}
    {ps : List (Proc Expr)} (pos : Position) : s.unread = keyword :: rest →
    Run (s.consume keyword rest) .nothing t →
    Run (t.announce (fun id => .impl ⟨id, ⟨struct, []⟩⟩) pos)
      (.procs ⟨t.nextId, ⟨struct, []⟩⟩ ps) u →
    Run s (.statement (.implBlock keyword.pos t.nextId (u.block ⟨t.nextId, ⟨struct, []⟩⟩))) u
  | endBody {s t : State} : Run s .nothing t → Run s (.body []) t
  /-- The next statement of a block that gives something. -/
  | consBody {s t u v : State} {e : Expr} {es : List Expr} : Run s .nothing t →
    Parse.statement t = (some e, u) → Run t (.statement e) u → Run u (.body es) v →
    Run s (.body (e :: es)) v
  | endProcs {s t : State} {e : Entry (Impl Expr)} : Run s .nothing t → Run s (.procs e []) t
  | consProcs {s t u : State} {e : Entry (Impl Expr)} {p : Proc Expr} {ps : List (Proc Expr)} :
    Run s (.proc p) t → Run (t.complete.addProc e p) (.procs e ps) u → Run s (.procs e (p :: ps)) u

section Steps

open Relation

variable {s t : State} {y : Outcome}

/-- A course reads tokens and binds variables. -/
theorem Course.onward {ds : List (Nat × String)} (h : Course s ds t) (os : List Nat) :
    Onward ⟨s, os⟩ ⟨t, os⟩ := by
  induction h with
  | refl s => exact .refl
  | token hunread => exact .single (.token hunread)
  | trans _ _ ih ih' => exact ih.trans ih'
  | @assign s t u name field e v b value ds htarget _ _ ih =>
    obtain ⟨dot, eq, rest, hunread, _, _, rfl⟩ := htarget.tokens
    have hname : Onward ⟨s, os⟩ ⟨s.consume name (dot :: field :: eq :: rest), os⟩ :=
      .single (.token hunread)
    have htarget := ((hname.tail (.token rfl)).tail (.token rfl)).tail (.token rfl)
    exact (htarget.trans ih).tail (.rebind e _)

theorem State.ReadsValue.onward {e : Expr} (h : s.ReadsValue e t) (os : List Nat) :
    Onward ⟨s, os⟩ ⟨t, os⟩ :=
  let ⟨_, hcourse⟩ := h.course
  hcourse.onward os

/-- An expression statement takes a course, and so does the beginning of one that fails. -/
theorem course_of_exprFrom {first : Token} {rest : List Token}
    (hunread : s.unread = first :: rest) (hstart : first.kind.startsValue) :
    (∀ e t, Parse.exprFrom first (s.consume first rest) = .ok e t → ∃ ds, Course s ds t) ∧
      ∀ p t, Parse.exprFrom first (s.consume first rest) = .error p t → ∃ ds, Course s ds t := by
  have hafter := ExprRules.after_exprFrom (n := rest.length) (courseRules_fits s).holds hunread
    (Nat.le_refl _) hstart
  refine ⟨fun e t h => ?_, fun p t h => ?_⟩
  · rw [h] at hafter
    exact hafter.2.holds.2
  · rw [h] at hafter
    exact hafter

namespace Run

/-- A procedure has the number of the procedures that are complete when its body has been read. -/
theorem number_eq {p : Proc Expr} (h : Run s (.proc p) t) : p.number = t.completed := by
  cases h
  rfl

/-- A run goes through moments. -/
theorem onward (h : Run s y t) (os : List Nat) :
    Onward ⟨s, y.growing ++ os⟩ ⟨t, y.growing ++ os⟩ := by
  induction h generalizing os with
  | course h => exact h.onward os
  | report h => exact .single (.report h)
  | leave n => exact .single (.leave n)
  | trans _ _ ih ih' => exact (ih os).trans (ih' os)
  | dropStatement _ ih | dropBody _ ih | dropProc _ ih | endBody _ ih => exact ih os
  | value hunread hstart hvalue =>
    obtain ⟨ds, hcourse⟩ := (course_of_exprFrom hunread hstart).1 _ _ hvalue
    exact hcourse.onward os
  | letStatement _ _ hunread _ hvalue _ ih ih' =>
    exact ((ReflTransGen.head (.token hunread) (ih os)).trans (hvalue.onward os)).trans
      ((ih' os).tail (.declareVariable _))
  | bareReturn hunread => exact .single (.token hunread)
  | returnStatement hunread hvalue => exact .head (.token hunread) (hvalue.onward os)
  | ifStatement hunread htest _ ih | whileStatement hunread htest _ ih =>
    exact .head (.token hunread) ((htest.onward os).trans (ih os))
  | forLoop _ hunread _ hstart hdots hstop _ ih ih' =>
    have hfirst := (ReflTransGen.head (.token hunread) (ih os)).trans (hstart.onward os)
    have hlast := (hfirst.tail (.token hdots)).trans (hstop.onward os)
    exact ((hlast.tail (.openScope _)).trans (ih' os)).tail (.closeScope _)
  | structDef struct pos hunread _ ih =>
    exact (ReflTransGen.head (.token hunread) (ih os)).tail (.declareStruct struct pos)
  | proc _ _ _ _ hunread _ _ ih ih' =>
    have hhead := ReflTransGen.head (.token hunread) (ih os)
    exact ((hhead.tail (.openScope _)).trans (ih' os)).tail (.closeScope _)
  | procDef pos hproc ih => exact (ih os).tail (.declareProcedure pos hproc.number_eq)
  | implBlock pos hunread _ _ ih ih' =>
    have hhead := ReflTransGen.head (.token hunread) (ih os)
    exact ((hhead.tail (.openImpl _ pos)).trans (ih' os)).tail .closeImpl
  | consBody _ _ _ _ ih ih' ih'' => exact ((ih os).trans (ih' os)).trans (ih'' os)
  | endProcs _ ih => exact ih _
  | @consProcs _ _ _ e _ _ hproc _ ih ih' =>
    exact ((ih (e.id :: os)).tail (.addProc hproc.number_eq)).trans (ih' os)

theorem later (h : Run s y t) : s.Later t :=
  (h.onward []).later

theorem numbered (h : Run s y t) (hs : s.Numbered) : t.Numbered :=
  (h.onward []).numbered hs

theorem definitions_subset (h : Run s y t) (hs : s.Numbered) :
    s.tables.definitions ⊆ t.tables.definitions :=
  (h.onward []).definitions_subset hs

theorem stay (s : State) : Run s .nothing s :=
  .course (.refl s)

theorem token {first : Token} {rest : List Token} (h : s.unread = first :: rest) :
    Run s .nothing (s.consume first rest) :=
  .course (.token h)

theorem tokens {ts rest : List Token} (h : s.unread = ts ++ rest) :
    Run s .nothing (s.consumeAll ts rest) := by
  induction ts generalizing s with
  | nil =>
    obtain rfl : s.unread = rest := h
    exact .stay s
  | cons first ts ih =>
    have hrest := ih (s := s.consume first (ts ++ rest)) rfl
    rw [show s.consumeAll (first :: ts) rest = (s.consume first (ts ++ rest)).consumeAll ts rest by
      simp [State.consumeAll, State.consume]]
    exact (token h).trans hrest

/-- Going on after a failed statement skips tokens. -/
theorem recover {p : Problem} (hp : ∀ sort name, p.cause ≠ .redeclared sort name) (depth : Nat) :
    Run s .nothing (s.recover depth p) := by
  have hreport : Run s .nothing (s.report p) := .report hp
  unfold State.recover
  simp only
  split
  · exact hreport.trans (.leave _)
  · exact hreport.trans (.tokens (splitAtBoundary_append _ _).symm)

end Run
end Steps
end ScriptFront
