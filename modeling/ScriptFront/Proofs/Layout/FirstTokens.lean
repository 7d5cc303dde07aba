import ScriptFront.Proofs.Moments.Trees

/-!
# Statements start at their first tokens

The position of an expression is handed on from its first token through all steps that put it
together; operators keep the position of what stands on their left.  A statement that starts with a
keyword has the position of that keyword.  So what is read one after the other stands one after the
other.

**Results.**

* `startsAt_exprStep`: expressions start at their first tokens.
* `Run.starts_statement`, `Run.starts_proc`: so do statements and procedures, which end behind them.
* `exists_first_of_statement`: what a statement gives, from any state, starts at its first token.
* `Run.passes_body`, `Run.passes_procs`: what is read stands in the order of the tokens.
-/

namespace ScriptFront

open Parse

/-- Whatever a step gives has the position. -/
abbrev Parse.StartsAt (pos : Position) (p : Parse Expr) : Prop :=
  Yields (fun e => e.pos = pos) p

section Expressions

variable {pos : Position}

theorem startsAt_foldUpTo (n : Nat) (lhs : Expr) : StartsAt lhs.pos (foldUpTo n lhs) := by
  induction n generalizing lhs with
  | zero => exact yields_pure rfl
  | succ n ih =>
    refine .bind fun next => ?_
    cases next with
    | none => exact yields_pure rfl
    | some t =>
      simp only
      split
      · exact yields_pure rfl
      · exact .bind fun _ => .bind fun rhs => ih _

theorem startsAt_foldOperators {lhs : Expr} (h : lhs.pos = pos) :
    StartsAt pos (foldOperators lhs) :=
  fun s e t hr => (startsAt_foldUpTo _ lhs s e t hr).trans h

theorem startsAt_negativeLiteral : StartsAt pos (negativeLiteral pos) := by
  refine .bind fun t => ?_
  split
  · exact yields_pure rfl
  · exact yields_fail _ _

variable (expr : Parse Expr)

theorem startsAt_structLiteral (struct : StructDef) :
    StartsAt pos (structLiteral expr pos struct) := by
  refine .bind fun _ => .bind fun fields => .bind fun _ => ?_
  split
  · exact yields_fail _ _
  · exact yields_pure rfl

theorem startsAt_structUse (struct : StructDef) : StartsAt pos (structUse expr pos struct) := by
  refine .bind fun colons => ?_
  split
  · refine .bind fun method => .bind fun known => ?_
    split
    · exact yields_fail _ _
    · split
      · exact yields_fail _ _
      · exact .bind fun args => startsAt_foldOperators rfl
  · exact startsAt_structLiteral expr struct

theorem startsAt_fieldUse (e : Entry (Binding Expr)) : StartsAt pos (fieldUse expr pos e) := by
  refine .bind fun name => ?_
  split
  · exact yields_fail _ _
  · split
    · exact yields_fail _ _
    · refine .bind fun assigned => ?_
      split
      · exact .bind fun _ => .bind fun _ => .bind fun _ => .bind fun _ => yields_pure rfl
      · exact startsAt_foldOperators rfl

theorem startsAt_variableUse (e : Entry (Binding Expr)) :
    StartsAt pos (variableUse expr pos e) := by
  refine .bind fun assigned => ?_
  split
  · exact .bind fun _ => .bind fun _ => yields_pure rfl
  · refine .bind fun dotted => ?_
    split
    · exact startsAt_fieldUse expr e
    · exact startsAt_foldOperators rfl

theorem startsAt_nameUse (t : Token) : StartsAt t.pos (nameUse expr t) := by
  refine .bind fun known => ?_
  split
  · exact startsAt_variableUse expr _
  · exact .bind fun args => startsAt_foldOperators rfl
  · exact startsAt_structUse expr _
  · exact yields_fail _ _

/-- An expression starts at its first token. -/
theorem startsAt_exprStep (t : Token) : StartsAt t.pos (exprStep expr t) := by
  unfold exprStep
  split
  · exact startsAt_foldOperators rfl
  · exact startsAt_nameUse expr t
  · exact .bind fun _ => yields_pure rfl
  · intro s e u hr
    obtain ⟨lhs, v, hlhs, hfold⟩ := bind_eq_ok_iff.mp hr
    exact startsAt_foldOperators (startsAt_negativeLiteral s lhs v hlhs) v e u hfold
  · exact yields_fail _ _
  · exact yields_fail _ _

end Expressions

/-- Between two states tokens are read, and the positions are those of some of them, in order. -/
def State.Passes (s : State) (places : List Position) (t : State) : Prop :=
  ∃ ts, s.unread = ts ++ t.unread ∧ places.Sublist (ts.map Token.pos)

section Passes

variable {s t u : State} {places others : List Position}

theorem State.Later.passes (h : s.Later t) : s.Passes [] t := by
  obtain ⟨ts, hts⟩ := h.reads
  exact ⟨ts, hts.unread, List.nil_sublist _⟩

namespace State.Passes

theorem trans (hst : s.Passes places t) (htu : t.Passes others u) :
    s.Passes (places ++ others) u := by
  obtain ⟨ts, hts, hplaces⟩ := hst
  obtain ⟨us, hus, hothers⟩ := htu
  refine ⟨ts ++ us, by rw [hts, hus, List.append_assoc], ?_⟩
  rw [List.map_append]
  exact hplaces.append hothers

/-- The next token is among those that are read. -/
theorem token {first : Token} {rest : List Token} (hunread : s.unread = first :: rest)
    (h : (s.consume first rest).Later t) : s.Passes [first.pos] t := by
  obtain ⟨ts, hts⟩ := h.reads
  refine ⟨first :: ts, ?_, List.Sublist.cons_cons _ (List.nil_sublist _)⟩
  rw [hunread, show rest = ts ++ t.unread from hts.unread]
  rfl

/-- In a text, tokens that are read in order stand in order. -/
theorem pairwise (h : s.Passes places t)
    (hs : s.unread.Pairwise fun x y => x.pos.Before y.pos) :
    places.Pairwise Position.Before := by
  obtain ⟨ts, hts, hplaces⟩ := h
  rw [hts] at hs
  exact (List.pairwise_map.mpr (List.pairwise_append.mp hs).1).sublist hplaces

end State.Passes
end Passes

theorem State.ReadsValue.later {s t : State} {e : Expr} (h : s.ReadsValue e t) : s.Later t :=
  (h.onward []).later

namespace Run

variable {s t : State} {e : Expr} {p : Proc Expr}

/-- A procedure starts at its keyword, and ends behind it. -/
theorem starts_proc (h : Run s (.proc p) t) : ∃ first rest, s.unread = first :: rest ∧
    p.pos = first.pos ∧ (s.consume first rest).Later t := by
  cases h with
  | proc name returnType params pos hunread hhead hbody =>
    have hinside := (State.Later.openScope _ _).trans hbody.later
    exact ⟨_, _, hunread, rfl, (hhead.later.trans hinside).trans (.closeScope _ _)⟩

/-- A statement starts at its first token, and ends behind it. -/
theorem starts_statement (h : Run s (.statement e) t) : ∃ first rest, s.unread = first :: rest ∧
    e.pos = first.pos ∧ (s.consume first rest).Later t := by
  cases h with
  | @value _ _ first rest _ hunread hstart hvalue =>
    have hlater := later_of_ok (fun n => StepLaw.relates_exprFrom (L := readingLaw n) first) hvalue
    exact ⟨_, _, hunread, startsAt_exprStep _ first _ _ _ hvalue, hlater⟩
  | letStatement name typeName hunread hhead hvalue hcheck =>
    have hread := (hhead.later.trans hvalue.later).trans hcheck.later
    exact ⟨_, _, hunread, rfl, hread.trans (.of_same rfl rfl rfl rfl List.prefix_rfl)⟩
  | bareReturn hunread => exact ⟨_, _, hunread, rfl, .refl _⟩
  | returnStatement hunread hvalue => exact ⟨_, _, hunread, rfl, hvalue.later⟩
  | ifStatement hunread htest hbody | whileStatement hunread htest hbody =>
    exact ⟨_, _, hunread, rfl, htest.later.trans hbody.later⟩
  | forLoop name hunread hhead hstart hdots hstop hbody =>
    have hfirst := (hhead.later.trans hstart.later).trans (.consume hdots)
    have hinside := (State.Later.openScope _ _).trans hbody.later
    exact ⟨_, _, hunread, rfl,
      ((hfirst.trans hstop.later).trans hinside).trans (.closeScope _ _)⟩
  | structDef struct pos hunread hhead =>
    exact ⟨_, _, hunread, rfl, hhead.later.trans (State.later_announce _ _ pos)⟩
  | procDef pos hproc =>
    obtain ⟨first, rest, hunread, hfirst, hlater⟩ := hproc.starts_proc
    exact ⟨first, rest, hunread, hfirst,
      (hlater.trans (State.later_complete _)).trans (State.later_announce _ _ pos)⟩
  | implBlock pos hunread hhead hprocs =>
    exact ⟨_, _, hunread, rfl,
      (hhead.later.trans (State.later_announce _ _ pos)).trans hprocs.later⟩

/-- The statements of a block stand in the order in which they are read. -/
theorem passes_body {es : List Expr} (h : Run s (.body es) t) :
    s.Passes (es.map Expr.pos) t := by
  induction es generalizing s with
  | nil => exact h.later.passes
  | cons e es ih =>
    cases h with
    | consBody hskip _ hfirst hothers =>
      obtain ⟨first, rest, hunread, hpos, hlater⟩ := hfirst.starts_statement
      have htoken := State.Passes.token hunread hlater
      rw [← hpos] at htoken
      exact hskip.later.passes.trans (htoken.trans (ih hothers))

/-- The procedures of an impl block stand in the order in which they are read. -/
theorem passes_procs {entry : Entry (Impl Expr)} {ps : List (Proc Expr)}
    (h : Run s (.procs entry ps) t) : s.Passes (ps.map Proc.pos) t := by
  induction ps generalizing s with
  | nil => exact h.later.passes
  | cons p ps ih =>
    cases h with
    | @consProcs _ u _ _ _ _ hproc hothers =>
      obtain ⟨first, rest, hunread, hpos, hlater⟩ := hproc.starts_proc
      have hadd : u.Later (u.complete.addProc entry p) :=
        .of_same rfl rfl rfl rfl List.prefix_rfl
      have htoken := State.Passes.token hunread (hlater.trans hadd)
      rw [← hpos] at htoken
      exact htoken.trans (ih hothers)

end Run

/-- What a statement gives starts at its first token. -/
theorem exists_first_of_statement {s : State} {e : Expr} (h : (statement s).1 = some e) :
    ∃ first rest, s.unread = first :: rest ∧ e.pos = first.pos := by
  have hrun := run_statement s
  rw [h] at hrun
  obtain ⟨first, rest, hunread, hpos, _⟩ := hrun.starts_statement
  exact ⟨first, rest, hunread, hpos⟩

end ScriptFront
