import ScriptFront.Proofs.Rules.Statements

/-!
# Every program keeps the rules

A property that is also kept where tokens are skipped and where a failed statement is left holds at
the end of every statement, of every block and of the whole program.  It holds of every state that
reading comes to on the way, too.

**Results.**

* `ExprRules.after_statements`: an induction on what stands between braces.
* `ProgramRules.after_block`, `ProgramRules.leads_statement`: blocks and statements.
* `ProgramRules.after_finish`: whole programs.
* `Reached`: the states that reading comes to, and `ProgramRules.holds_of_reached`.
-/

namespace ScriptFront

namespace ExprRules

open Parse

variable {I : ExprRules} {V : List Expr → Prop} {n : Nat}

/-- A block is read like what stands between its braces. -/
theorem after_braces (hbody : ∀ ofProc s, I.Fits n s → I.After n V (body ofProc s))
    (ofProc : Bool) (s : State) (hs : I.Fits n s) : I.After n V (Parse.block ofProc s) :=
  .expect hs (by decide) fun _ _ _ _ hopen => hbody ofProc _ hopen

/-- An induction on what stands between braces: a statement reads a token at least, so that its
blocks and what follows it are read from fewer tokens. -/
theorem after_statements (hnil : V [])
    (hnext : ∀ {n : Nat} {s : State} {t : Token} {rest : List Token} (ofProc : Bool), I.holds s →
      s.unread = t :: rest → rest.length ≤ n →
      (∀ ofProc u, I.Fits n u → I.After n V (body ofProc u)) →
      I.After n V (bodyRest body ofProc (Parse.statement s).1 (Parse.statement s).2))
    (ofProc : Bool) (s : State) (hs : I.Fits n s) : I.After n V (body ofProc s) := by
  induction n generalizing s ofProc with
  | zero =>
    have hend : s.unread = [] := List.length_eq_zero_iff.mp (Nat.le_zero.mp hs.length_le)
    rw [body_of_nil ofProc hend]
    exact .failAtEnd hs hend _
  | succ n ih =>
    cases hunread : s.unread with
    | nil =>
      rw [body_of_nil ofProc hunread]
      exact .failAtEnd hs hunread _
    | cons t rest =>
      by_cases hk : t.kind = .rightBrace
      · rw [body_of_close ofProc hunread hk]
        exact .pure (hs.consume hunread (by rw [hk]; decide)) hnil
      · have hlength := hs.length_le
        rw [hunread, List.length_cons] at hlength
        rw [body_of_cons ofProc hunread hk]
        exact (hnext ofProc hs.holds hunread (Nat.le_of_succ_le_succ hlength) ih).weaken
          (Nat.le_succ n)

end ExprRules

/-- A property that is also kept where tokens are skipped and where a failed statement is left. -/
structure ProgramRules extends StatementRules where
  skip {s : State} {rest : List Token} (ts : List Token) :
    holds s → s.unread = ts ++ rest → holds (s.consumeAll ts rest)
  recover {s : State} {p : Problem} (depth : Nat) : failed p s → holds (s.recover depth p)
  reportAny {s : State} (p : Problem) : holds s → holds (s.report p)
  leave {s : State} : holds s → holds { s with closedBlocks := s.closedBlocks - 1 }

namespace ProgramRules

open Parse ExprRules StatementRules

variable {I : ProgramRules} {n : Nat} {s : State}

/-- A statement leads on to a state in which the property holds, and its result is good. -/
def Leads (I : ProgramRules) (n : Nat) (r : Option Expr × State) : Prop :=
  (∀ e ∈ r.1, I.statement e) ∧ I.Fits n r.2

theorem after_leaveClosedBlock (hs : I.Fits n s) : I.After n Nothing (leaveClosedBlock s) := by
  unfold leaveClosedBlock
  split
  · exact .pure hs trivial
  · exact ⟨trivial, hs.stay (I.leave hs.holds) rfl⟩

/-- A statement in front of a token, whose blocks keep the rules. -/
theorem leads_statement_of_cons
    (hb : ∀ ofProc s, I.Fits n s → I.After n (fun es => ∀ e ∈ es, I.statement e) (block ofProc s))
    (hs : I.holds s) {t : Token} {rest : List Token} (hunread : s.unread = t :: rest)
    (hlength : rest.length ≤ n) : I.Leads n (Parse.statement s) := by
  have hfewer := Nat.le_trans (later_statement_of_cons hunread).length_le hlength
  by_cases hk : t.kind = .semicolon
  · rw [statement_of_semicolon hunread hk] at hfewer ⊢
    exact ⟨nofun, I.skip [t] hs hunread, hfewer⟩
  · have hafter := after_statementFrom hb hs hunread hlength hk
    cases hr : statementFrom block t (s.consume t rest) with
    | ok e u =>
      rw [hr] at hafter
      rw [statement_of_ok hunread hk hr]
      exact ⟨by rintro _ ⟨⟩; exact hafter.1, hafter.2⟩
    | error p u =>
      rw [hr] at hafter
      rw [statement_eq_of_error (optionalStatement_of_error hunread hk hr)] at hfewer ⊢
      exact ⟨nofun, I.recover _ hafter, hfewer⟩

variable (hs : I.Fits n s)
include hs

theorem after_bodyRest {others : Bool → Parse (List Expr)} {e : Option Expr} (ofProc : Bool)
    (he : ∀ x ∈ e, I.statement x)
    (hothers : ∀ s, I.Fits n s → I.After n (fun es => ∀ e ∈ es, I.statement e) (others ofProc s)) :
    I.After n (fun es => ∀ e ∈ es, I.statement e) (bodyRest others ofProc e s) := by
  have hfirst : ∀ x ∈ e.toList, I.statement x := fun x hx => he x (Option.mem_toList.mp hx)
  refine (after_leaveClosedBlock hs).bind fun left u _ _ hu => ?_
  split
  · exact .pure hu hfirst
  · split
    · exact (after_skipToClose hu fun ts _ => I.skip ts hu.holds).bind
        fun _ v _ _ hv => .pure hv hfirst
    · refine (hothers u hu).bind fun es v _ hes hv => .pure hv fun x hx => ?_
      exact (List.mem_append.mp hx).elim (hfirst x) (hes x)

/-- The statements of a block and its closing brace keep the rules. -/
theorem after_body (ofProc : Bool) :
    I.After n (fun es => ∀ e ∈ es, I.statement e) (body ofProc s) := by
  refine after_statements (List.forall_mem_nil _) (fun ofProc hs hunread hlength ih => ?_) ofProc
    s hs
  have hleads := leads_statement_of_cons (after_braces ih) hs hunread hlength
  exact after_bodyRest hleads.2 ofProc hleads.1 fun _ hv => ih ofProc _ hv

theorem after_block (ofProc : Bool) :
    I.After n (fun es => ∀ e ∈ es, I.statement e) (Parse.block ofProc s) :=
  after_braces (fun ofProc _ hu => after_body hu ofProc) ofProc s hs

theorem leads_statement : I.Leads n (Parse.statement s) := by
  cases hunread : s.unread with
  | nil =>
    have hfail : optionalStatement block s = failAtEnd (.words "more input") s := by
      unfold optionalStatement
      rw [bind_of_ok (accept_of_nil hunread)]
      simp only [Bool.false_eq_true, if_false]
      rw [bind_of_error (advance_of_nil hunread)]
      rfl
    have hlength := Nat.le_trans (later_statement s).length_le hs.length_le
    rw [statement_eq_of_error hfail] at hlength ⊢
    exact ⟨nofun, I.recover _ (I.failAtEnd _ hs.holds hunread), hlength⟩
  | cons t rest =>
    have hlength := hs.length_le
    rw [hunread, List.length_cons] at hlength
    exact leads_statement_of_cons (fun ofProc _ hu => after_block hu ofProc) hs.holds hunread
      (Nat.le_of_succ_le hlength)

omit hs

/-- Reading a program to its end keeps the rules. -/
theorem after_finish (session : Session) (hstate : I.holds session.state)
    (hprogram : ∀ e ∈ session.program, I.statement e) :
    I.holds session.finish.state ∧ ∀ e ∈ session.finish.program, I.statement e := by
  obtain ⟨program, s⟩ := session
  induction s using statement_induction generalizing program with
  | nil s hunread =>
    rw [Session.finish_of_nil hunread]
    exact ⟨hstate, hprogram⟩
  | cons s t rest hunread ih =>
    obtain ⟨hresult, hnext⟩ := leads_statement (I := I) ⟨hstate, Nat.le_refl _⟩
    rw [Session.finish_of_cons hunread]
    refine ih _ hnext.holds fun e he => ?_
    exact (List.mem_append.mp he).elim (hprogram e) fun he =>
      hresult e (Option.mem_toList.mp he)

end ProgramRules

/--
The states that reading comes to, at every statement, expression and token.  Tokens are not asked
for their place in the grammar, so not only the states that reading comes to in fact are among them.
-/
inductive Reached : State → Prop where
  /-- In front of a source text. -/
  | start (file : String) (source : List Char) : Reached (.ofSource file source)
  /-- Behind a token. -/
  | token {s : State} {t : Token} {rest : List Token} :
    Reached s → s.unread = t :: rest → Reached (s.consume t rest)
  /-- Behind an expression. -/
  | value {s u : State} {e : Expr} :
    Reached s → s.Awaits → Parse.expr s = .ok e u → Reached u
  /-- Behind a statement that has not used up the brace of the block around it. -/
  | statement {s : State} :
    Reached s → (Parse.statement s).2.closedBlocks = 0 → Reached (Parse.statement s).2
  /-- In front of the body of a loop. -/
  | counter {s t u : State} {start stop : Expr} {dots : Token} {rest : List Token}
    (name : String) : Reached s → s.Awaits → Parse.expr s = .ok start t →
    t.unread = dots :: rest → dots.kind = .range → Parse.expr (t.consume dots rest) = .ok stop u →
    Reached (u.openScope [⟨name, "i32", start⟩])
  /-- In front of the body of a procedure. -/
  | parameters {s : State} (params : List TypedName) (pos : Position) :
    Reached s → Reached (s.openScope (params.map (·.defaultBinding s.tables.structs pos)))
  /-- In front of the procedures of an impl block. -/
  | impl {s : State} (struct : StructDef) :
    Reached s → Reached (s.declareNext fun id => .impl ⟨id, ⟨struct, []⟩⟩)
  /-- Behind a procedure of an impl block. -/
  | method {s u : State} {proc : Proc Expr} (entry : Entry (Impl Expr)) :
    Reached s → Parse.implProc Parse.block s = .ok proc u → Reached (u.addProc entry proc)
  /-- Behind a warning. -/
  | report {s : State} (p : Problem) : Reached s → Reached (s.report p)

theorem Reached.tokens {s : State} {ts rest : List Token} (h : Reached s)
    (hunread : s.unread = ts ++ rest) : Reached (s.consumeAll ts rest) := by
  induction ts generalizing s with
  | nil =>
    obtain rfl : s.unread = rest := hunread
    exact h
  | cons t ts ih =>
    have hrest := ih (h.token hunread) rfl
    rw [show s.consumeAll (t :: ts) rest = (s.consume t (ts ++ rest)).consumeAll ts rest by
      simp [State.consumeAll, State.consume]]
    exact hrest

/-- A property that the rules keep holds wherever the reading of some tokens comes to, if it holds
in front of them. -/
theorem ProgramRules.holds_of_reached_of_tokens {I : ProgramRules} {ts : List Token}
    (hstart : ∀ file source, (State.ofSource file source).tokens = ts →
      I.holds (.ofSource file source)) {s : State} (h : Reached s) (hts : s.tokens = ts) :
    I.holds s := by
  have hvalue {s u : State} {e : Expr} (hs : I.holds s) (hawaits : s.Awaits)
      (he : Parse.expr s = .ok e u) : I.value e ∧ I.holds u := by
    have hafter := ExprRules.after_expr ⟨hs, Nat.le_refl _⟩ hawaits
    rw [he] at hafter
    exact ⟨hafter.1, hafter.2.holds⟩
  -- Reading keeps the tokens, so the property holds in front of each step.
  induction h with
  | start file source => exact hstart file source hts
  | @token _ t _ _ hunread ih =>
    exact I.skip [t] (ih ((State.tokens_consume hunread).symm.trans hts)) hunread
  | value _ hawaits he ih =>
    exact (hvalue (ih ((Parse.later_of_expr he).tokens_eq ▸ hts)) hawaits he).2
  | @statement s _ _ ih =>
    exact (leads_statement ⟨ih ((Parse.later_statement s).tokens_eq ▸ hts), Nat.le_refl _⟩).2.holds
  | @counter s t u start stop dots rest name _ hawaits hfirst hunread hdots hlast ih =>
    have hlater := ((Parse.later_of_expr hfirst).trans (.consume hunread)).trans
      (Parse.later_of_expr hlast)
    have hs := ih (hlater.tokens_eq ▸ hts)
    obtain ⟨hcounter, ht⟩ := hvalue hs hawaits hfirst
    have hread : I.holds (t.consume dots rest) := I.skip [dots] ht hunread
    have hstop := hvalue hread (State.awaits_consume (by rw [hdots]; rfl)) hlast
    exact I.openCounter name hs ⟨hawaits, t, dots, rest, hfirst, hunread, hdots, hlast⟩ hcounter
      hstop.2
  | parameters params pos _ ih => exact I.openParameters params pos (ih hts)
  | impl struct _ ih => exact I.declareImpl struct (ih hts)
  | method entry _ hproc ih =>
    have hlater := Parse.later_of_ok
      (fun n => StepLaw.relates_implProc fun o => (readingLaw_loose n).relates_block o) hproc
    have hafter := StatementRules.after_implProc (I := I.toStatementRules)
      (fun ofProc _ hs => after_block hs ofProc) ⟨ih (hlater.tokens_eq ▸ hts), Nat.le_refl _⟩
    rw [hproc] at hafter
    exact I.addProc entry hafter.2.holds hafter.1
  | @report s p _ ih => exact I.reportAny p (ih ((State.Later.report s p).tokens_eq ▸ hts))

/-- A property that the rules keep holds wherever reading comes to, if it holds of every source. -/
theorem ProgramRules.holds_of_reached {I : ProgramRules}
    (hstart : ∀ file source, I.holds (.ofSource file source)) {s : State} (h : Reached s) :
    I.holds s :=
  holds_of_reached_of_tokens (fun file source _ => hstart file source) h rfl

end ScriptFront
