import ScriptFront.Proofs.Reading.Literals
import ScriptFront.Proofs.Rules.Programs
import ScriptFront.Proofs.Values.Assignments

/-!
# Every expression is well-formed

An expression is sound if it is put together in the way of its form, and all expressions that it
holds are sound, those in bindings and in the bodies of callees included.  Everything that is read
of a source text, with or without errors, is sound, and so is everything in the tables while it is
read.

**Algorithm.** Soundness is a property that the rules of reading keep, `soundRules`.

**Results.**

* `Expr.Sound.of_instance?`: the instance that a sound expression stands for is complete.
* `State.Sound` and what keeps it: declarations, new values and scopes.
* `parseProgram_sound`: programs and tables are sound.
-/

namespace ScriptFront

namespace Expr

/-- The expressions that an expression holds, in bindings and in the bodies of callees as well. -/
def parts : Expr → List Expr
  | reference _ binding => [binding.value]
  | letStatement _ _ _ value => [value]
  | assign _ target value => [target.value, value]
  | returnStatement _ value => value.toList
  | ifStatement _ test body | whileStatement _ test body => test :: body
  | range _ start stop => [start, stop]
  | forLoop _ counter bounds body => counter.value :: bounds :: body
  | procDef proc => proc.body
  | call _ callee args | implCall _ _ _ callee args => callee.body ++ args.map Binding.value
  | structInstance _ value => value.fields.map Binding.value
  | implBlock _ _ block => block.procs.flatMap Proc.body
  | fieldAssign _ owner field value => [owner.value, field.value, value]
  | fieldAccess _ owner field => [owner.value, field.value]
  | binary _ lhs _ rhs => [lhs, rhs]
  | literal .. | structDef .. => []

/-- What stands behind an operator: a literal with a type, or a variable. -/
def IsOperand : Expr → Prop
  | literal _ _ lit => lit ≠ .none
  | reference .. => True
  | _ => False

/-- What stands in front of an operator. -/
def IsPrimary : Expr → Prop
  | literal .. | reference .. | call .. | implCall .. | fieldAccess .. => True
  | binary _ _ op _ => op ≠ .neg
  | _ => False

theorem IsOperand.isPrimary {e : Expr} (h : e.IsOperand) : e.IsPrimary := by
  cases e <;> trivial

/--
An expression is put together in the way of its form.  An access to a field has the binding that the
field has in the instance of its owner; after an assignment of a field the owner is bound to an
instance in which the field has the value that was assigned.
-/
def Formed : Expr → Prop
  | structInstance _ value => value.Complete
  | call _ callee args | implCall _ _ _ callee args => args.map Binding.typed = callee.params
  | ifStatement _ test _ | whileStatement _ test _ => test.kind = .binary ∨ test.valueType = "bool"
  | binary _ lhs op rhs =>
    (op = .neg ∧ ∃ pos, rhs = literal pos "" .none) ∨
      (op ≠ .neg ∧ lhs.IsPrimary ∧ rhs.IsOperand)
  | fieldAccess _ owner field =>
    ∃ v, owner.value.instance? = some v ∧ v.field? field.name = some field
  | fieldAssign _ owner field value =>
    ∃ pos v, owner.value = structInstance pos v ∧ v.field? field.name = some field ∧
      field.value = value
  | _ => True

/-- An expression is put together in the way of its form, and so is all that it holds. -/
inductive Sound : Expr → Prop where
  | intro {e : Expr} : e.Formed → (∀ x ∈ e.parts, Sound x) → Sound e

namespace Sound

variable {e : Expr}

theorem part (h : e.Sound) {x : Expr} (hx : x ∈ e.parts) : x.Sound := by
  cases h with
  | intro _ hparts => exact hparts x hx

theorem literal (pos : Position) (text : String) (lit : LiteralType) :
    (Expr.literal pos text lit).Sound :=
  .intro trivial (List.forall_mem_nil _)

theorem reference {b : Binding Expr} (h : b.value.Sound) (pos : Position) :
    (Expr.reference pos b).Sound :=
  .intro trivial (List.forall_mem_singleton.mpr h)

theorem structInstance {v : Instance Expr} (hcomplete : v.Complete)
    (hfields : ∀ b ∈ v.fields, b.value.Sound) (pos : Position) :
    (Expr.structInstance pos v).Sound :=
  .intro hcomplete (List.forall_mem_map.mpr hfields)

/-- The arguments of a call and the body of its callee are sound. -/
theorem forall_callee {callee : Proc Expr} {args : List (Binding Expr)}
    (hbody : ∀ x ∈ callee.body, x.Sound) (hargs : ∀ b ∈ args, b.value.Sound) :
    ∀ x ∈ callee.body ++ args.map Binding.value, x.Sound := by
  intro x hx
  exact (List.mem_append.mp hx).elim (hbody x) (List.forall_mem_map.mpr hargs x)

theorem boundValue (h : e.Sound) : e.boundValue.Sound := by
  cases e with
  | reference _ b => exact h.part List.mem_cons_self
  | _ => exact h

/-- The instance that a sound expression stands for is complete, with sound fields. -/
theorem of_instance? (h : e.Sound) {v : Instance Expr} (hv : e.instance? = some v) :
    v.Complete ∧ ∀ b ∈ v.fields, b.value.Sound := by
  induction h with
  | @intro e hformed hparts ih =>
    cases e with
    | reference pos b =>
      rw [instance?] at hv
      exact ih b.value List.mem_cons_self hv
    | structInstance pos w =>
      rw [instance?, Option.some.injEq] at hv
      rw [← hv]
      exact ⟨hformed, List.forall_mem_map.mp hparts⟩
    | _ => cases hv

theorem field? (h : e.Sound) {v : Instance Expr} (hv : e.instance? = some v) {name : String}
    {b : Binding Expr} (hb : v.field? name = some b) : b.name = name ∧ b.value.Sound := by
  obtain ⟨hcomplete, hfields⟩ := h.of_instance? hv
  obtain ⟨i, _, hget⟩ := Option.bind_eq_some_iff.mp hb
  exact ⟨hcomplete.name_of_field? hb, hfields b (List.mem_of_getElem? hget)⟩

end Sound
end Expr

/-- Default values are made of literals and of instances with all their fields. -/
theorem defaultValue_induction {P : Expr → Prop} (structs : SymbolTable StructDef) (pos : Position)
    (literal : ∀ text lit, P (.literal pos text lit))
    (structInstance : ∀ v : Instance Expr, v.Complete → (∀ b ∈ v.fields, P b.value) →
      P (.structInstance pos v)) (path : List String) (typeName : String) :
    P (defaultValue structs pos path typeName) := by
  induction path, typeName using defaultValue.induct structs with
  | case1 path typeName text htext =>
    rw [defaultValue_of_builtin pos htext]
    exact literal _ _
  | case2 path typeName hbuiltin hlookup =>
    rw [defaultValue_of_other pos hbuiltin (.inl hlookup)]
    exact literal _ _
  | case3 path typeName hbuiltin e hlookup hpath =>
    rw [defaultValue_of_other pos hbuiltin (.inr hpath)]
    exact literal _ _
  | case4 path typeName hbuiltin e hlookup hpath ih =>
    rw [defaultValue_of_struct pos hbuiltin hlookup hpath]
    refine structInstance _ ?_ fun b hb => ?_
    · unfold Instance.Complete
      rw [List.map_map]
      exact List.map_id _
    · obtain ⟨field, _, rfl⟩ := List.mem_map.mp hb
      exact ih field

theorem sound_defaultValue (structs : SymbolTable StructDef) (pos : Position) (path : List String)
    (typeName : String) : (defaultValue structs pos path typeName).Sound :=
  defaultValue_induction structs pos (fun _ _ => .literal _ _ _)
    (fun _ hcomplete hfields => .structInstance hcomplete hfields _) path typeName

/-- The values of variables are sound, and so are the bodies of procedures. -/
structure Tables.Sound (t : Tables) : Prop where
  vars : ∀ e ∈ t.vars.entries, e.decl.value.Sound
  procedures : ∀ e ∈ t.procedures.entries, ∀ x ∈ e.decl.body, x.Sound
  impls : ∀ e ∈ t.impls.entries, ∀ p ∈ e.decl.procs, ∀ x ∈ p.body, x.Sound

namespace State

/-- What holds of every state while a source text is read. -/
structure Sound (s : State) : Prop where
  tables : s.tables.Sound
  numbered : s.Numbered
  typed : ∀ t ∈ s.unread, t.kind = .literal → t.lit ≠ .none

theorem sound_ofSource (file : String) (source : List Char) : (ofSource file source).Sound where
  tables := ⟨nofun, nofun, nofun⟩
  numbered := ⟨.empty _, .empty _⟩
  typed _ ht := lit_ne_none_of_mem_tokenize ht

namespace Sound

variable {s t : State} (h : s.Sound)
include h

/-- Some tokens have been read. -/
theorem of_suffix (htables : t.tables = s.tables) (hid : t.nextId = s.nextId)
    (hunread : t.unread <:+ s.unread) : t.Sound where
  tables := htables ▸ h.tables
  numbered := (Extends.of_same h.numbered htables hid).numbered
  typed x hx := h.typed x (hunread.subset hx)

theorem consume {x : Token} {rest : List Token} (hunread : s.unread = x :: rest) :
    (s.consume x rest).Sound :=
  h.of_suffix rfl rfl (hunread ▸ List.suffix_cons x rest)

theorem consumeAll {ts rest : List Token} (hunread : s.unread = ts ++ rest) :
    (s.consumeAll ts rest).Sound :=
  h.of_suffix rfl rfl (hunread ▸ List.suffix_append ts rest)

theorem report (p : Problem) : (s.report p).Sound := by
  unfold State.report
  split
  · exact h
  · exact h.of_suffix rfl rfl List.suffix_rfl

theorem recover (depth : Nat) (p : Problem) : (s.recover depth p).Sound := by
  unfold State.recover
  simp only
  split
  · exact (h.report p).of_suffix rfl rfl List.suffix_rfl
  · exact (h.report p).consumeAll (splitAtBoundary_append _ _).symm

/-- A declaration appends to one table, and numbers the entry. -/
theorem declareNext {symbol : Nat → Symbol} (hid : (symbol s.nextId).id = s.nextId)
    (htables : (s.tables.declare (symbol s.nextId)).Sound) : (s.declareNext symbol).Sound :=
  ⟨htables, (Extends.declare h.numbered _ hid).numbered, h.typed⟩

theorem rebind (e : Entry (Binding Expr)) {value : Expr} (hvalue : value.Sound) :
    (s.rebind e value).Sound where
  tables := ⟨forall_rebind h.tables.vars e hvalue, h.tables.procedures, h.tables.impls⟩
  numbered := (Extends.rebind h.numbered e value).numbered
  typed := h.typed

theorem openScope {bindings : List (Binding Expr)} (hbindings : ∀ b ∈ bindings, b.value.Sound) :
    (s.openScope bindings).Sound where
  tables := ⟨forall_openScope h.tables.vars hbindings, h.tables.procedures, h.tables.impls⟩
  numbered := (Extends.openScope h.numbered bindings).numbered
  typed := h.typed

theorem closeScope (entries : List (Entry (Binding Expr))) : (s.closeScope entries).Sound where
  tables := ⟨forall_closeScope h.tables.vars entries, h.tables.procedures, h.tables.impls⟩
  numbered := h.numbered.closeScope entries
  typed := h.typed

theorem addProc (e : Entry (Impl Expr)) {proc : Proc Expr} (hbody : ∀ x ∈ proc.body, x.Sound) :
    (s.addProc e proc).Sound where
  tables := by
    refine ⟨h.tables.vars, h.tables.procedures, fun f hf p hp => ?_⟩
    obtain ⟨g, hg, rfl⟩ := List.mem_map.mp hf
    split at hp
    · rcases List.mem_append.mp hp with hp | hp
      · exact h.tables.impls g hg p hp
      · rw [List.mem_singleton.mp hp]
        exact hbody
    · exact h.tables.impls g hg p hp
  numbered := h.numbered.addProc e proc
  typed := h.typed

theorem lookup? {name : String} {e : Entry (Binding Expr)}
    (hlookup : s.tables.vars.lookup? name = some e) : e.decl.value.Sound :=
  h.tables.vars e (SymbolTable.mem_of_lookup? hlookup)

theorem binding (e : Entry (Binding Expr)) (he : e.decl.value.Sound) :
    (s.binding e).value.Sound := by
  unfold State.binding SymbolTable.get?
  cases hfind : s.tables.vars.entries.find? fun f => f.id == e.id with
  | none => exact he
  | some f => exact h.tables.vars f (List.mem_of_find?_eq_some hfind)

theorem block {e : Entry (Impl Expr)} (he : e.decl.procs = []) :
    ∀ x ∈ (s.block e).procs.flatMap Proc.body, x.Sound := by
  intro x hx
  obtain ⟨p, hp, hx⟩ := List.mem_flatMap.mp hx
  unfold State.block SymbolTable.get? at hp
  cases hfind : s.tables.impls.entries.find? fun f => f.id == e.id with
  | none =>
    rw [hfind, Option.map_none, Option.getD_none, he] at hp
    cases hp
  | some f =>
    rw [hfind] at hp
    exact h.tables.impls f (List.mem_of_find?_eq_some hfind) p hp x hx

/-- An assignment of a field binds its variable to the instance with the field bound anew. -/
theorem assignField {u : State} {name field : Token} {e : Entry (Binding Expr)} {v : Instance Expr}
    {b : Binding Expr} {value : Expr} (htarget : s.ReadsTarget name field e v b t)
    (hvalue : Parse.expr t = .ok value u) (hu : u.Sound) (hsound : value.Sound) :
    (u.assignField e v field.lexeme value).Sound ∧
      (Expr.fieldAssign name.pos ((u.assignField e v field.lexeme value).binding e)
        (b.rebind value) value).Sound := by
  have howner := h.lookup? htarget.lookup
  obtain ⟨hcomplete, hfields⟩ := howner.of_instance? htarget.value
  obtain ⟨_, f, _, _, _, hget⟩ := htarget.exists_entry h.numbered hvalue
  have hinstance : (Expr.structInstance (u.binding e).value.pos
      ((v.withField? field.lexeme value).getD v)).Sound := by
    refine .structInstance (hcomplete.withField? _ _).1 (fun c hc => ?_) _
    rcases Instance.mem_fields_withField? hc with hc | hc
    · exact hfields c hc
    · rw [hc]
      exact hsound
  have hbinding := State.binding_assignField (Option.isSome_iff_exists.mpr ⟨_, hget⟩) v
    field.lexeme value
  refine ⟨hu.rebind e hinstance, .intro ?_ ?_⟩
  · refine ⟨_, _, congrArg Binding.value hbinding, ?_, rfl⟩
    rw [show (b.rebind value).name = field.lexeme from
      (howner.field? htarget.value htarget.field_eq).1]
    exact Instance.field?_withField?_self htarget.field_eq value
  · rw [hbinding]
    exact List.forall_mem_cons.mpr ⟨hinstance, List.forall_mem_cons.mpr
      ⟨hsound, List.forall_mem_singleton.mpr hsound⟩⟩

end Sound
end State

/-- Soundness is kept by all rules of reading. -/
def soundRules : ProgramRules where
  holds := State.Sound
  failed _ s := s.Sound
  operand e := e.Sound ∧ e.IsOperand
  primary e := e.Sound ∧ e.IsPrimary
  value := Expr.Sound
  statement := Expr.Sound
  read hs hunread _ := hs.consume hunread
  fail _ hs := hs
  failAtEnd _ hs _ := hs
  stop _ hs _ hunread := hs.consume hunread
  literal hs hunread hk :=
    ⟨.literal _ _ _, hs.typed _ (hunread ▸ List.mem_cons_self) hk⟩
  negative _ _ _ _ hlit := ⟨.literal _ _ _, by rintro hnone; rw [hnone] at hlit; simp at hlit⟩
  one _ _ := ⟨.literal _ _ _, nofun⟩
  reference hs _ hlookup := ⟨.reference (hs.lookup? hlookup) _, trivial⟩
  primary_of_operand he := ⟨he.1, he.2.isPrimary⟩
  fieldAccess hs _ hlookup hv hb := by
    have howner := hs.lookup? hlookup
    obtain ⟨hname, hvalue⟩ := howner.field? hv hb
    exact ⟨.intro ⟨_, hv, hname ▸ hb⟩ (List.forall_mem_cons.mpr
      ⟨howner, List.forall_mem_singleton.mpr hvalue⟩), trivial⟩
  call hs _ hlookup htyped hargs := by
    have hbody := hs.tables.procedures _ (SymbolTable.mem_of_lookup? hlookup)
    exact ⟨.intro htyped (Expr.Sound.forall_callee hbody hargs), trivial⟩
  implCall _ _ hu hlookup hproc htyped hargs := by
    have hbody := hu.tables.impls _ (SymbolTable.mem_of_lookup? hlookup) _
      (List.mem_of_find?_eq_some hproc)
    exact ⟨.intro htyped (Expr.Sound.forall_callee hbody hargs), trivial⟩
  binary hlhs hop hrhs :=
    ⟨.intro (.inr ⟨hop, hlhs.2, hrhs.2⟩) (List.forall_mem_cons.mpr
      ⟨hlhs.1, List.forall_mem_singleton.mpr hrhs.1⟩), hop⟩
  value_of_primary he := he.1
  negation _ _ hinner := .intro (.inl ⟨rfl, _, rfl⟩) (List.forall_mem_cons.mpr
    ⟨hinner, List.forall_mem_singleton.mpr (.literal _ _ _)⟩)
  structLiteral _ _ _ htyped hfields := .structInstance (v := ⟨_, _⟩) htyped hfields _
  assign hs _ _ hlookup _ hu hvalue := .intro trivial (List.forall_mem_cons.mpr
    ⟨hu.binding _ (hs.lookup? hlookup), List.forall_mem_singleton.mpr hvalue⟩)
  fieldAssign hs htarget _ hvalue hu hsound := hs.assignField htarget hvalue hu hsound
  report _ hs := hs.report _
  declareVariable _ _ hs hv := hs.declareNext rfl
    ⟨List.forall_mem_append.mpr ⟨hs.tables.vars, List.forall_mem_singleton.mpr hv.boundValue⟩,
      hs.tables.procedures, hs.tables.impls⟩
  declareStruct _ hs := hs.declareNext rfl
    ⟨hs.tables.vars, hs.tables.procedures, hs.tables.impls⟩
  declareProcedure hs hbody := hs.declareNext rfl
    ⟨hs.tables.vars, List.forall_mem_append.mpr
      ⟨hs.tables.procedures, List.forall_mem_singleton.mpr hbody⟩, hs.tables.impls⟩
  declareImpl _ hs := hs.declareNext rfl
    ⟨hs.tables.vars, hs.tables.procedures, List.forall_mem_append.mpr
      ⟨hs.tables.impls, List.forall_mem_singleton.mpr nofun⟩⟩
  addProc e hs hbody := hs.addProc e hbody
  complete hs := hs.of_suffix rfl rfl List.suffix_rfl
  openParameters params pos hs := hs.openScope (by
    rintro _ hb
    obtain ⟨param, _, rfl⟩ := List.mem_map.mp hb
    exact sound_defaultValue _ _ _ _)
  openCounter _ _ _ hstart ht := ht.openScope (List.forall_mem_singleton.mpr hstart)
  close entries hs := hs.closeScope entries
  failed_close entries hs := hs.closeScope entries
  statement_of_value he := he
  letStatement _ _ _ hv := .intro trivial (List.forall_mem_singleton.mpr hv)
  bareReturn _ := .intro trivial (List.forall_mem_nil _)
  returnStatement _ hv := .intro trivial (List.forall_mem_singleton.mpr hv)
  ifStatement _ htest hkind hbody := .intro hkind (List.forall_mem_cons.mpr ⟨htest, hbody⟩)
  whileStatement _ htest hkind hbody := .intro hkind (List.forall_mem_cons.mpr ⟨htest, hbody⟩)
  forLoop {_ start stop _ counter} _ _ hs hdecl hstart hstop hbody := by
    have hcounter := hs.binding counter (by rw [hdecl]; exact hstart)
    have hrange : (Expr.range start.pos start stop).Sound := .intro trivial
      (List.forall_mem_cons.mpr ⟨hstart, List.forall_mem_singleton.mpr hstop⟩)
    exact .intro trivial (List.forall_mem_cons.mpr
      ⟨hcounter, List.forall_mem_cons.mpr ⟨hrange, hbody⟩⟩)
  structDef _ _ := .intro trivial (List.forall_mem_nil _)
  procDef hbody := .intro trivial hbody
  implBlock _ hs he := .intro trivial (hs.block he)
  skip _ hs hunread := hs.consumeAll hunread
  recover depth hs := hs.recover depth _
  reportAny p hs := hs.report p
  leave hs := hs.of_suffix rfl rfl List.suffix_rfl

/-- Wherever reading comes to, the tables are sound. -/
theorem Reached.sound {s : State} (h : Reached s) : s.Sound :=
  ProgramRules.holds_of_reached (I := soundRules) State.sound_ofSource h

/--
Whatever the source text is, with or without errors, all expressions of its program are sound, and
so is all that the tables hold at its end.  Wherever reading comes to on the way, the tables are
sound, and so are the statement and the expression that are read there.
-/
theorem parseProgram_sound :
    (∀ file source, (∀ e ∈ (parseProgram file source).program, e.Sound) ∧
      (parseProgram file source).state.tables.Sound) ∧
    (∀ s, Reached s → s.tables.Sound ∧ (∀ e ∈ (Parse.statement s).1, e.Sound) ∧
      ∀ e u, s.Awaits → Parse.expr s = .ok e u → e.Sound ∧ u.tables.Sound) := by
  refine ⟨fun file source => ?_, fun s hs => ⟨hs.sound.tables, ?_, fun e u hawaits he => ?_⟩⟩
  · have hstart := State.sound_ofSource file source
    obtain ⟨hstate, hprogram⟩ := ProgramRules.after_finish (I := soundRules)
      (.ofSource file source) hstart (List.forall_mem_nil _)
    exact ⟨hprogram, hstate.tables⟩
  · exact (ProgramRules.leads_statement (I := soundRules) ⟨hs.sound, Nat.le_refl _⟩).1
  · have hafter := ExprRules.after_expr (I := soundRules.toExprRules) ⟨hs.sound, Nat.le_refl _⟩
      hawaits
    rw [he] at hafter
    exact ⟨hafter.1, hafter.2.holds.tables⟩

/-- The value of a new variable is read behind three tokens, and it is sound. -/
theorem parseProgram_sound_sum :
    ∃ s e u, Reached s ∧ s.Awaits ∧ Parse.expr s = .ok e u ∧ e.kind = .binary ∧ e.Sound ∧
      u.tables.Sound ∧ ∀ e ∈ (parseProgram "p" "let x = 1 + 2".toList).program, e.Sound := by
  have hunread : (State.ofSource "p" "let x = 1 + 2".toList).unread =
      [⟨.letWord, "let", ⟨"p", 0, 0⟩, .none⟩, ⟨.identifier, "x", ⟨"p", 0, 4⟩, .none⟩,
        ⟨.assign, "=", ⟨"p", 0, 6⟩, .none⟩] ++ [⟨.literal, "1", ⟨"p", 0, 8⟩, .number⟩,
        ⟨.plus, "+", ⟨"p", 0, 10⟩, .none⟩, ⟨.literal, "2", ⟨"p", 0, 12⟩, .number⟩] := by
    decide +kernel
  have hs := (Reached.start "p" "let x = 1 + 2".toList).tokens hunread
  obtain ⟨hprograms, hreached⟩ := parseProgram_sound
  obtain ⟨hsound, htables⟩ := (hreached _ hs).2.2 _ _ ⟨_, rfl, rfl⟩ rfl
  exact ⟨_, _, _, hs, ⟨_, rfl, rfl⟩, rfl, rfl, hsound, htables, (hprograms _ _).1⟩

end ScriptFront
