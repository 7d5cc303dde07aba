import ScriptFront.Proofs.Moments.Runs
import ScriptFront.Proofs.Values.Sound

/-!
# What expressions hold

An expression holds the expressions inside of it: its parts, the values of its bindings, and the
procedures that it calls, each with all that it holds itself.  What is true of all that is held by
the tables stays true of all that an expression holds which is read with these tables, if it is true
of every plain expression: one that holds no statements of its own.

**Results.**

* `Expr.All.mono`, `Expr.All.of_instance?`: properties of all that an expression holds.
* `all_defaultValue`: default values are plain.
* `State.ReadsValue.all`: values and the tables behind them.
-/

namespace ScriptFront

namespace Expr

/-- The expressions that an expression holds; a call holds the definition of its procedure. -/
def held : Expr → List Expr
  | reference _ binding => [binding.value]
  | letStatement _ _ _ value => [value]
  | assign _ target value => [target.value, value]
  | returnStatement _ value => value.toList
  | ifStatement _ test body | whileStatement _ test body => test :: body
  | range _ start stop => [start, stop]
  | forLoop _ counter bounds body => counter.value :: bounds :: body
  | procDef proc => proc.body
  | call _ callee args | implCall _ _ _ callee args => procDef callee :: args.map Binding.value
  | structInstance _ value => value.fields.map Binding.value
  | implBlock _ _ block => block.procs.map procDef
  | fieldAssign _ owner field value => [owner.value, field.value, value]
  | fieldAccess _ owner field => [owner.value, field.value]
  | binary _ lhs _ rhs => [lhs, rhs]
  | literal .. | structDef .. => []

/-- An expression that holds no statements of its own. -/
def IsPlain : Expr → Prop
  | ifStatement .. | whileStatement .. | forLoop .. | procDef .. | implBlock .. => False
  | _ => True

/-- The second expression is the first one, or it stands somewhere in what that one holds. -/
inductive Contains : Expr → Expr → Prop where
  | self (e : Expr) : Contains e e
  | inside {e x y : Expr} : x ∈ e.held → Contains x y → Contains e y

/-- The property is true of an expression and of all that it holds. -/
inductive All (P : Expr → Prop) : Expr → Prop where
  | intro {e : Expr} : P e → (∀ x ∈ e.held, All P x) → All P e

namespace All

variable {P Q : Expr → Prop} {e : Expr}

theorem self (h : e.All P) : P e := by
  cases h with
  | intro he _ => exact he

theorem held (h : e.All P) {x : Expr} (hx : x ∈ e.held) : x.All P := by
  cases h with
  | intro _ hheld => exact hheld x hx

theorem mono (h : e.All P) (hPQ : ∀ x, P x → Q x) : e.All Q := by
  induction h with
  | intro he _ ih => exact .intro (hPQ _ he) ih

theorem contains (h : e.All P) {x : Expr} (hx : e.Contains x) : x.All P := by
  induction hx with
  | self _ => exact h
  | inside hheld _ ih => exact ih (h.held hheld)

theorem boundValue (h : e.All P) : e.boundValue.All P := by
  cases e with
  | reference _ b => exact h.held List.mem_cons_self
  | _ => exact h

/-- The fields of the instance that an expression stands for. -/
theorem of_instance? (h : e.All P) {v : Instance Expr} (hv : e.instance? = some v) :
    ∀ b ∈ v.fields, b.value.All P := by
  induction h with
  | @intro e _ hheld ih =>
    cases e with
    | reference pos b =>
      rw [instance?] at hv
      exact ih b.value List.mem_cons_self hv
    | structInstance pos w =>
      rw [instance?, Option.some.injEq] at hv
      rw [← hv]
      exact List.forall_mem_map.mp hheld
    | _ => cases hv

theorem field? (h : e.All P) {v : Instance Expr} (hv : e.instance? = some v) {name : String}
    {b : Binding Expr} (hb : v.field? name = some b) : b.value.All P := by
  obtain ⟨i, _, hget⟩ := Option.bind_eq_some_iff.mp hb
  exact h.of_instance? hv b (List.mem_of_getElem? hget)

end All
end Expr

/-- The property is true of all that the tables hold. -/
structure Tables.All (P : Expr → Prop) (t : Tables) : Prop where
  vars : ∀ e ∈ t.vars.entries, e.decl.value.All P
  definitions : ∀ p ∈ t.definitions, (Expr.procDef p).All P

theorem all_defaultValue {P : Expr → Prop} (hplain : ∀ e : Expr, e.IsPlain → P e)
    (structs : SymbolTable StructDef) (pos : Position) (path : List String) (typeName : String) :
    (defaultValue structs pos path typeName).All P :=
  defaultValue_induction structs pos
    (fun _ _ => .intro (hplain _ trivial) (List.forall_mem_nil _))
    (fun _ _ hfields => .intro (hplain _ trivial) (List.forall_mem_map.mpr hfields)) path typeName

namespace State

variable {P : Expr → Prop} {s t u : State}

/-- What is true of all that the tables of a state hold. -/
structure Holds (P : Expr → Prop) (s : State) : Prop where
  tables : s.tables.All P
  numbered : s.Numbered

namespace Holds

variable (h : s.Holds P)
include h

/-- The tables are the same. -/
theorem of_same (htables : t.tables = s.tables) (hid : t.nextId = s.nextId) : t.Holds P where
  tables := htables ▸ h.tables
  numbered := (Extends.of_same h.numbered htables hid).numbered

theorem lookup? {name : String} {e : Entry (Binding Expr)}
    (hlookup : s.tables.vars.lookup? name = some e) : e.decl.value.All P :=
  h.tables.vars e (SymbolTable.mem_of_lookup? hlookup)

theorem procedure {name : String} {e : Entry (Proc Expr)}
    (hlookup : s.tables.procedures.lookup? name = some e) : (Expr.procDef e.decl).All P :=
  h.tables.definitions e.decl
    (List.mem_append_left _ (List.mem_map_of_mem (SymbolTable.mem_of_lookup? hlookup)))

theorem method {name method : String} {e : Entry (Impl Expr)} {callee : Proc Expr}
    (hlookup : s.tables.impls.lookup? name = some e) (hproc : e.decl.proc? method = some callee) :
    (Expr.procDef callee).All P :=
  h.tables.definitions callee (List.mem_append_right _ (List.mem_flatMap.mpr
    ⟨e, SymbolTable.mem_of_lookup? hlookup, List.mem_of_find?_eq_some hproc⟩))

theorem binding (e : Entry (Binding Expr)) (he : e.decl.value.All P) :
    (s.binding e).value.All P := by
  unfold State.binding SymbolTable.get?
  cases hfind : s.tables.vars.entries.find? fun f => f.id == e.id with
  | none => exact he
  | some f => exact h.tables.vars f (List.mem_of_find?_eq_some hfind)

theorem rebind (e : Entry (Binding Expr)) {value : Expr} (hvalue : value.All P) :
    (s.rebind e value).Holds P where
  tables := ⟨forall_rebind h.tables.vars e hvalue, h.tables.definitions⟩
  numbered := (Extends.rebind h.numbered e value).numbered

theorem openScope {bindings : List (Binding Expr)} (hbindings : ∀ b ∈ bindings, b.value.All P) :
    (s.openScope bindings).Holds P where
  tables := ⟨forall_openScope h.tables.vars hbindings, h.tables.definitions⟩
  numbered := (Extends.openScope h.numbered bindings).numbered

theorem closeScope (entries : List (Entry (Binding Expr))) : (s.closeScope entries).Holds P where
  tables := ⟨forall_closeScope h.tables.vars entries, h.tables.definitions⟩
  numbered := h.numbered.closeScope entries

/-- An assignment of a field binds its variable to the instance with the field bound anew. -/
theorem assignField (hplain : ∀ e : Expr, e.IsPlain → P e) {name field : Token}
    {e : Entry (Binding Expr)} {v : Instance Expr} {b : Binding Expr} {value : Expr}
    (htarget : s.ReadsTarget name field e v b t) (hvalue : Parse.expr t = .ok value u)
    (hu : u.Holds P) (hall : value.All P) :
    (u.assignField e v field.lexeme value).Holds P ∧
      (Expr.fieldAssign name.pos ((u.assignField e v field.lexeme value).binding e)
        (b.rebind value) value).All P := by
  have hfields := (h.lookup? htarget.lookup).of_instance? htarget.value
  obtain ⟨_, f, _, _, _, hget⟩ := htarget.exists_entry h.numbered hvalue
  have hinstance : (Expr.structInstance (u.binding e).value.pos
      ((v.withField? field.lexeme value).getD v)).All P := by
    refine .intro (hplain _ trivial) (List.forall_mem_map.mpr fun c hc => ?_)
    rcases Instance.mem_fields_withField? hc with hc | hc
    · exact hfields c hc
    · rw [hc]
      exact hall
  have hbinding := State.binding_assignField (Option.isSome_iff_exists.mpr ⟨_, hget⟩) v
    field.lexeme value
  refine ⟨hu.rebind e hinstance, .intro (hplain _ trivial) ?_⟩
  rw [hbinding]
  exact List.forall_mem_cons.mpr ⟨hinstance, List.forall_mem_cons.mpr
    ⟨hall, List.forall_mem_singleton.mpr hall⟩⟩

end Holds
end State

/-- What is true of all plain expressions and of what the tables hold is kept by all rules of
expressions. -/
def heldRules (P : Expr → Prop) (hplain : ∀ e : Expr, e.IsPlain → P e) : ExprRules where
  holds := State.Holds P
  failed _ s := s.Holds P
  operand := Expr.All P
  primary := Expr.All P
  value := Expr.All P
  read hs _ _ := hs.of_same rfl rfl
  fail _ hs := hs
  failAtEnd _ hs _ := hs
  stop _ hs _ _ := hs.of_same rfl rfl
  literal _ _ _ := .intro (hplain _ trivial) (List.forall_mem_nil _)
  negative _ _ _ _ _ := .intro (hplain _ trivial) (List.forall_mem_nil _)
  one _ _ := .intro (hplain _ trivial) (List.forall_mem_nil _)
  reference hs _ hlookup :=
    .intro (hplain _ trivial) (List.forall_mem_singleton.mpr (hs.lookup? hlookup))
  primary_of_operand he := he
  fieldAccess hs _ hlookup hv hb := by
    have howner := hs.lookup? hlookup
    exact .intro (hplain _ trivial) (List.forall_mem_cons.mpr
      ⟨howner, List.forall_mem_singleton.mpr (howner.field? hv hb)⟩)
  call hs _ hlookup _ hargs := .intro (hplain _ trivial)
    (List.forall_mem_cons.mpr ⟨hs.procedure hlookup, List.forall_mem_map.mpr hargs⟩)
  implCall _ _ hu hlookup hproc _ hargs := .intro (hplain _ trivial)
    (List.forall_mem_cons.mpr ⟨hu.method hlookup hproc, List.forall_mem_map.mpr hargs⟩)
  binary hlhs _ hrhs := .intro (hplain _ trivial)
    (List.forall_mem_cons.mpr ⟨hlhs, List.forall_mem_singleton.mpr hrhs⟩)
  value_of_primary he := he
  negation _ _ hinner := .intro (hplain _ trivial) (List.forall_mem_cons.mpr ⟨hinner,
    List.forall_mem_singleton.mpr (.intro (hplain _ trivial) (List.forall_mem_nil _))⟩)
  structLiteral _ _ _ _ hfields := .intro (hplain _ trivial) (List.forall_mem_map.mpr hfields)
  assign hs _ _ hlookup _ hu hvalue := .intro (hplain _ trivial) (List.forall_mem_cons.mpr
    ⟨hu.binding _ (hs.lookup? hlookup), List.forall_mem_singleton.mpr hvalue⟩)
  fieldAssign hs htarget _ hvalue hu hall := hs.assignField hplain htarget hvalue hu hall

section Values

variable {P : Expr → Prop} (hplain : ∀ e : Expr, e.IsPlain → P e) {s t : State} (hs : s.Holds P)
include hplain hs

/-- A value holds what the tables hold, and the tables behind it as well. -/
theorem State.ReadsValue.all {e : Expr} (h : s.ReadsValue e t) : e.All P ∧ t.Holds P := by
  have hafter := ExprRules.after_expr (I := heldRules P hplain) ⟨hs, Nat.le_refl _⟩ h.awaits
  rw [h.expr] at hafter
  exact ⟨hafter.1, hafter.2.holds⟩

theorem all_of_exprFrom {first : Token} {rest : List Token} {e : Expr}
    (hunread : s.unread = first :: rest) (hstart : first.kind.startsValue)
    (h : Parse.exprFrom first (s.consume first rest) = .ok e t) : e.All P ∧ t.Holds P := by
  have hafter := ExprRules.after_exprFrom (I := heldRules P hplain) (n := rest.length) hs hunread
    (Nat.le_refl _) hstart
  rw [h] at hafter
  exact ⟨hafter.1, hafter.2.holds⟩

/-- What happens while tokens and expressions are read. -/
theorem Course.holds {ds : List (Nat × String)} (h : Course s ds t) : t.Holds P := by
  induction h with
  | refl _ => exact hs
  | token _ => exact hs.of_same rfl rfl
  | trans _ _ ih ih' => exact ih' (ih hs)
  | @assign s t u name field e v b value ds htarget hvalue _ ih =>
    have ht : t.Holds P := hs.of_same htarget.tables_eq htarget.nextId_eq
    have hreads : t.ReadsValue value u := ⟨htarget.awaits, hvalue⟩
    obtain ⟨hall, hu⟩ := hreads.all hplain ht
    exact (hs.assignField hplain htarget hvalue hu hall).1

end Values
end ScriptFront
