import ScriptFront.Proofs.Moments.Held
import ScriptFront.Proofs.Rules.States

/-!
# The names in trees and tables

The names in a tree are those of its variables, fields, parameters, procedures and structs, and of
their types.  An expression has names of its own and those of all that it holds; a table has the
names of its declarations.

**Results.**

* `Expr.NamedBy.valueType`: the type of a value is a name like the others.
* `namedBy_defaultValue`: default values have the names that their structs have.
* `State.NamedBy.consume`, `State.NamedBy.rebind`, `State.NamedBy.openScope` and the like: what is
  written down has no other names.
-/

namespace ScriptFront

section Names

/-- The names of the types that a program does not declare. -/
def builtinTypes : List String :=
  "range" :: LiteralType.all.map LiteralType.typeName

/-- The names of a parameter or field, and of its type. -/
def TypedName.names (f : TypedName) : List String :=
  [f.name, f.typeName]

/-- The names in the definition of a struct. -/
def StructDef.names (struct : StructDef) : List String :=
  struct.name :: struct.fields.flatMap TypedName.names

/-- The names in the head of a procedure. -/
def Proc.names {α : Type} (p : Proc α) : List String :=
  p.name :: p.returnType.toList ++ p.params.flatMap TypedName.names

/-- The names of a binding. -/
def Binding.names {α : Type} (b : Binding α) : List String :=
  [b.name, b.typeName]

/-- The names that an expression has itself, besides those of the expressions that it holds. -/
def Expr.names : Expr → List String
  | reference _ binding => binding.names
  | letStatement _ name typeName _ => [name, typeName]
  | assign _ target _ => target.names
  | forLoop _ counter _ _ => counter.names
  | procDef proc => proc.names
  | call _ _ args => args.flatMap Binding.names
  | structDef _ struct => struct.names
  | structInstance _ value => value.struct.names ++ value.fields.flatMap Binding.names
  | implBlock _ _ block => block.struct.names
  | implCall _ _ struct _ args => struct :: args.flatMap Binding.names
  | fieldAssign _ owner field _ | fieldAccess _ owner field => owner.names ++ field.names
  | literal .. | returnStatement .. | ifStatement .. | whileStatement .. | range ..
  | binary .. => []

variable {P : String → Prop}

/-- The property is true of all names in an expression and in what it holds. -/
def Expr.NamedBy (P : String → Prop) (e : Expr) : Prop :=
  e.All fun x => ∀ name ∈ x.names, P name

/-- The property is true of the names of a binding and of those in its value. -/
structure Binding.NamedBy (P : String → Prop) (b : Binding Expr) : Prop where
  name : P b.name
  typeName : P b.typeName
  value : b.value.NamedBy P

/-- The property is true of the name of a struct and of those of its fields. -/
def StructDef.NamedBy (P : String → Prop) (struct : StructDef) : Prop :=
  ∀ name ∈ struct.names, P name

/-- The property is true of the names in the head of a procedure and of those in its body. -/
def Proc.NamedBy (P : String → Prop) (p : Proc Expr) : Prop :=
  (Expr.procDef p).NamedBy P

/-- The property is true of the names of the struct and of those in the procedures. -/
structure Impl.NamedBy (P : String → Prop) (block : Impl Expr) : Prop where
  struct : block.struct.NamedBy P
  procs : ∀ p ∈ block.procs, p.NamedBy P

/-- The property is true of the names of a declaration. -/
def Symbol.NamedBy (P : String → Prop) : Symbol → Prop
  | .variable e => e.decl.NamedBy P
  | procedure e => e.decl.NamedBy P
  | struct e => e.decl.NamedBy P
  | impl e => e.decl.NamedBy P

/-- The property is true of all names that are declared. -/
structure Tables.NamedBy (P : String → Prop) (t : Tables) : Prop where
  vars : ∀ e ∈ t.vars.entries, e.decl.NamedBy P
  procedures : ∀ e ∈ t.procedures.entries, e.decl.NamedBy P
  structs : ∀ e ∈ t.structs.entries, e.decl.NamedBy P
  impls : ∀ e ∈ t.impls.entries, e.decl.NamedBy P

/-- The property is true of the identifiers still to be read and of all names that are declared. -/
structure State.NamedBy (P : String → Prop) (s : State) : Prop where
  unread : ∀ t ∈ s.unread, t.kind = .identifier → P t.lexeme
  tables : s.tables.NamedBy P

theorem Expr.namedBy_iff {e : Expr} :
    e.NamedBy P ↔ (∀ name ∈ e.names, P name) ∧ ∀ x ∈ e.held, x.NamedBy P :=
  ⟨fun h => ⟨h.self, fun _ => h.held⟩, fun h => .intro h.1 h.2⟩

theorem Expr.namedBy_literal (pos : Position) (text : String) (lit : LiteralType) :
    (literal pos text lit).NamedBy P :=
  namedBy_iff.mpr ⟨nofun, nofun⟩

theorem Expr.namedBy_reference {pos : Position} {b : Binding Expr} :
    (reference pos b).NamedBy P ↔ b.NamedBy P := by
  rw [namedBy_iff, names, Binding.names, held, List.forall_mem_cons, List.forall_mem_singleton,
    List.forall_mem_singleton]
  exact ⟨fun ⟨⟨hname, htype⟩, hvalue⟩ => ⟨hname, htype, hvalue⟩,
    fun h => ⟨⟨h.name, h.typeName⟩, h.value⟩⟩

/-- The names of several bindings are those of each. -/
theorem Binding.namedBy_iff {bs : List (Binding Expr)} :
    (∀ b ∈ bs, b.NamedBy P) ↔
      (∀ name ∈ bs.flatMap Binding.names, P name) ∧ ∀ x ∈ bs.map Binding.value, x.NamedBy P := by
  induction bs with
  | nil => simp
  | cons b bs ih =>
    rw [List.forall_mem_cons, ih, List.flatMap_cons, List.forall_mem_append, List.map_cons,
      List.forall_mem_cons, Binding.names, List.forall_mem_cons, List.forall_mem_singleton]
    exact ⟨fun ⟨hb, hnames, hvalues⟩ => ⟨⟨⟨hb.name, hb.typeName⟩, hnames⟩, hb.value, hvalues⟩,
      fun ⟨⟨⟨hname, htype⟩, hnames⟩, hvalue, hvalues⟩ => ⟨⟨hname, htype, hvalue⟩, hnames, hvalues⟩⟩

theorem Expr.namedBy_structInstance {pos : Position} {v : Instance Expr} :
    (structInstance pos v).NamedBy P ↔ v.struct.NamedBy P ∧ ∀ b ∈ v.fields, b.NamedBy P := by
  rw [namedBy_iff, Binding.namedBy_iff, names, List.forall_mem_append, and_assoc]
  rfl

theorem Expr.namedBy_call {pos : Position} {callee : Proc Expr} {args : List (Binding Expr)} :
    (call pos callee args).NamedBy P ↔ callee.NamedBy P ∧ ∀ b ∈ args, b.NamedBy P := by
  rw [namedBy_iff, Binding.namedBy_iff, held, List.forall_mem_cons, and_left_comm]
  rfl

theorem Expr.namedBy_implCall {pos : Position} {impl : Nat} {struct : String}
    {callee : Proc Expr} {args : List (Binding Expr)} :
    (implCall pos impl struct callee args).NamedBy P ↔
      P struct ∧ callee.NamedBy P ∧ ∀ b ∈ args, b.NamedBy P := by
  rw [namedBy_iff, Binding.namedBy_iff, names, held, List.forall_mem_cons, List.forall_mem_cons,
    and_assoc, and_left_comm (a := ∀ name ∈ args.flatMap Binding.names, P name)]
  rfl

theorem Expr.namedBy_assign {pos : Position} {target : Binding Expr} {value : Expr}
    (htarget : target.NamedBy P) (hvalue : value.NamedBy P) :
    (assign pos target value).NamedBy P :=
  namedBy_iff.mpr (by simp [names, Binding.names, held, htarget.name, htarget.typeName,
    htarget.value, hvalue])

theorem Expr.namedBy_fieldAccess {pos : Position} {owner field : Binding Expr}
    (howner : owner.NamedBy P) (hfield : field.NamedBy P) :
    (fieldAccess pos owner field).NamedBy P :=
  namedBy_iff.mpr (by simp [names, Binding.names, held, howner.name, howner.typeName, howner.value,
    hfield.name, hfield.typeName, hfield.value])

theorem Expr.namedBy_fieldAssign {pos : Position} {owner field : Binding Expr} {value : Expr}
    (howner : owner.NamedBy P) (hfield : field.NamedBy P) (hvalue : value.NamedBy P) :
    (fieldAssign pos owner field value).NamedBy P :=
  namedBy_iff.mpr (by simp [names, Binding.names, held, howner.name, howner.typeName, howner.value,
    hfield.name, hfield.typeName, hfield.value, hvalue])

theorem Expr.namedBy_binary {pos : Position} {lhs rhs : Expr} {op : Operator}
    (hlhs : lhs.NamedBy P) (hrhs : rhs.NamedBy P) : (binary pos lhs op rhs).NamedBy P :=
  namedBy_iff.mpr (by simp [names, held, hlhs, hrhs])

theorem Proc.namedBy_iff {p : Proc Expr} :
    p.NamedBy P ↔ (∀ name ∈ p.names, P name) ∧ ∀ e ∈ p.body, e.NamedBy P :=
  Expr.namedBy_iff

theorem Proc.NamedBy.name {p : Proc Expr} (h : p.NamedBy P) : P p.name :=
  (Proc.namedBy_iff.mp h).1 p.name List.mem_cons_self

theorem Expr.NamedBy.boundValue {e : Expr} (h : e.NamedBy P) : e.boundValue.NamedBy P :=
  All.boundValue h

/-- A field that is bound anew keeps its names. -/
theorem Binding.namedBy_withField? {v : Instance Expr} (hfields : ∀ b ∈ v.fields, b.NamedBy P)
    (name : String) {value : Expr} (hvalue : value.NamedBy P) :
    ((v.withField? name value).getD v).struct = v.struct ∧
      ∀ b ∈ ((v.withField? name value).getD v).fields, b.NamedBy P := by
  unfold Instance.withField?
  cases v.slot? name with
  | none => exact ⟨rfl, hfields⟩
  | some i =>
    refine ⟨rfl, fun b hb => ?_⟩
    obtain ⟨j, hj⟩ := List.mem_iff_getElem?.mp hb
    simp only [Option.map_some, Option.getD_some, List.getElem?_modify] at hj
    obtain ⟨c, hc, rfl⟩ := Option.map_eq_some_iff.mp hj
    have hold := hfields c (List.mem_of_getElem? hc)
    split
    · exact ⟨hold.name, hold.typeName, hvalue⟩
    · exact hold

/-- The instance that an expression stands for. -/
theorem Expr.NamedBy.instance? {e : Expr} (h : e.NamedBy P) {v : Instance Expr}
    (hv : e.instance? = some v) : v.struct.NamedBy P ∧ ∀ b ∈ v.fields, b.NamedBy P := by
  induction h with
  | @intro e hnames hheld ih =>
    cases e with
    | reference pos b => exact ih b.value List.mem_cons_self hv
    | structInstance pos w =>
      obtain rfl : w = v := Option.some.inj hv
      exact namedBy_structInstance.mp (.intro hnames hheld)
    | _ => cases hv

end Names

section Declared

variable {P : String → Prop} {s : State}

/-- The type of a value has the name of a builtin type, or one that has been declared. -/
theorem Expr.NamedBy.valueType (hbuiltin : ∀ name ∈ builtinTypes, P name) {e : Expr}
    (h : e.NamedBy P) : P e.valueType := by
  have hnone : P "none" := hbuiltin _ (by decide)
  have hcallee {callee : Proc Expr} (hproc : callee.NamedBy P) :
      P (callee.returnType.getD "none") := by
    have hnames := (Proc.namedBy_iff.mp hproc).1
    cases htype : callee.returnType with
    | none => exact hnone
    | some typeName => exact hnames _ (by simp [Proc.names, htype])
  induction h with
  | @intro e hnames hheld ih =>
    have hall : e.NamedBy P := .intro hnames hheld
    cases e with
    | literal _ _ lit =>
      exact hbuiltin _ (List.mem_cons_of_mem _ (List.mem_map_of_mem (by cases lit <;> decide)))
    | range => exact hbuiltin _ List.mem_cons_self
    | reference | structInstance | fieldAssign | fieldAccess =>
      exact hnames _ (by simp [names, StructDef.names, Binding.names, Expr.valueType])
    | call => exact hcallee (namedBy_call.mp hall).1
    | implCall => exact hcallee (namedBy_implCall.mp hall).2.1
    | binary _ lhs op _ =>
      rw [Expr.valueType]
      split
      · exact hbuiltin _ (by decide)
      · exact ih lhs List.mem_cons_self
    | _ => exact hnone

/-- A default value has the names of the structs that it goes into. -/
theorem namedBy_defaultValue {structs : SymbolTable StructDef}
    (hstructs : ∀ e ∈ structs.entries, e.decl.NamedBy P) (pos : Position) (path : List String)
    (typeName : String) : (defaultValue structs pos path typeName).NamedBy P := by
  induction path, typeName using defaultValue.induct structs with
  | case1 path typeName text htext =>
    rw [defaultValue_of_builtin pos htext]
    exact Expr.namedBy_literal ..
  | case2 path typeName hbuiltin hlookup =>
    rw [defaultValue_of_other pos hbuiltin (.inl hlookup)]
    exact Expr.namedBy_literal ..
  | case3 path typeName hbuiltin e hlookup hpath =>
    rw [defaultValue_of_other pos hbuiltin (.inr hpath)]
    exact Expr.namedBy_literal ..
  | case4 path typeName hbuiltin e hlookup hpath ih =>
    have hstruct := hstructs e (SymbolTable.mem_of_lookup? hlookup)
    rw [defaultValue_of_struct pos hbuiltin hlookup hpath]
    refine Expr.namedBy_structInstance.mpr ⟨hstruct, List.forall_mem_map.mpr fun f hf => ?_⟩
    have hfield (name : String) (hname : name ∈ f.names) : P name :=
      hstruct name (List.mem_cons_of_mem _ (List.mem_flatMap.mpr ⟨f, hf, hname⟩))
    exact ⟨hfield _ List.mem_cons_self, hfield _ (List.mem_cons_of_mem _ List.mem_cons_self),
      ih f⟩

theorem Tables.NamedBy.declare {t : Tables} (h : t.NamedBy P) {symbol : Symbol}
    (hsymbol : symbol.NamedBy P) : (t.declare symbol).NamedBy P := by
  have happend {α : Type} {Q : α → Prop} {es : List (Entry α)} (hes : ∀ e ∈ es, Q e.decl)
      {e : Entry α} (he : Q e.decl) : ∀ f ∈ es ++ [e], Q f.decl :=
    List.forall_mem_append.mpr ⟨hes, List.forall_mem_singleton.mpr he⟩
  cases symbol with
  | «variable» e => exact { h with vars := happend h.vars hsymbol }
  | procedure e => exact { h with procedures := happend h.procedures hsymbol }
  | struct e => exact { h with structs := happend h.structs hsymbol }
  | impl e => exact { h with impls := happend h.impls hsymbol }

namespace State.NamedBy

variable (h : s.NamedBy P)
include h

/-- The tables are the same, and no more tokens are unread than before. -/
theorem of_same {t : State} (hunread : t.unread ⊆ s.unread) (htables : t.tables = s.tables) :
    t.NamedBy P :=
  ⟨fun x hx => h.unread x (hunread hx), htables ▸ h.tables⟩

theorem consume {t : Token} {rest : List Token} (hunread : s.unread = t :: rest) :
    (t.kind = .identifier → P t.lexeme) ∧ (s.consume t rest).NamedBy P := by
  refine ⟨h.unread t ?_, h.of_same ?_ rfl⟩ <;> rw [hunread]
  · exact List.mem_cons_self
  · exact List.subset_cons_self ..

theorem consumeAll {ts rest : List Token} (hunread : s.unread = ts ++ rest) :
    (s.consumeAll ts rest).NamedBy P :=
  h.of_same (hunread ▸ List.subset_append_right ts rest) rfl

theorem report (p : Problem) : (s.report p).NamedBy P :=
  h.of_same (s.unread_report p ▸ List.Subset.refl _) (s.tables_report p).1

/-- Reading goes on after an error with the tables as they are. -/
theorem recover (depth : Nat) (p : Problem) : (s.recover depth p).NamedBy P := by
  have hreport := h.report p
  unfold State.recover
  simp only
  split
  · exact hreport.of_same (List.Subset.refl _) rfl
  · exact hreport.consumeAll (splitAtBoundary_append _ _).symm

theorem binding {e : Entry (Binding Expr)} (he : e.decl.NamedBy P) : (s.binding e).NamedBy P := by
  unfold State.binding SymbolTable.get?
  cases hfind : s.tables.vars.entries.find? fun f => f.id == e.id with
  | none => exact he
  | some f => exact h.tables.vars f (List.mem_of_find?_eq_some hfind)

theorem block {e : Entry (Impl Expr)} (he : e.decl.NamedBy P) : (s.block e).NamedBy P := by
  unfold State.block SymbolTable.get?
  cases hfind : s.tables.impls.entries.find? fun f => f.id == e.id with
  | none => exact he
  | some f => exact h.tables.impls f (List.mem_of_find?_eq_some hfind)

theorem rebind (e : Entry (Binding Expr)) {value : Expr} (hvalue : value.NamedBy P) :
    (s.rebind e value).NamedBy P := by
  refine ⟨h.unread, ⟨fun f hf => ?_, h.tables.procedures, h.tables.structs, h.tables.impls⟩⟩
  obtain ⟨g, hg, rfl⟩ := List.mem_map.mp hf
  have hold := h.tables.vars g hg
  split
  · exact ⟨hold.name, hold.typeName, hvalue⟩
  · exact hold

theorem addProc (e : Entry (Impl Expr)) {p : Proc Expr} (hp : p.NamedBy P) :
    (s.addProc e p).NamedBy P := by
  refine ⟨h.unread, ⟨h.tables.vars, h.tables.procedures, h.tables.structs, fun f hf => ?_⟩⟩
  obtain ⟨g, hg, rfl⟩ := List.mem_map.mp hf
  have hold := h.tables.impls g hg
  split
  · refine ⟨hold.struct, fun q hq => ?_⟩
    rcases List.mem_append.mp hq with hq | hq
    · exact hold.procs q hq
    · exact List.mem_singleton.mp hq ▸ hp
  · exact hold

theorem openScope {bindings : List (Binding Expr)} (hbindings : ∀ b ∈ bindings, b.NamedBy P) :
    (s.openScope bindings).NamedBy P := by
  refine ⟨h.unread, ⟨fun f hf => ?_, h.tables.procedures, h.tables.structs, h.tables.impls⟩⟩
  rw [show (s.openScope bindings).tables.vars.entries =
    s.tables.vars.entries ++ s.entriesFor bindings from SymbolTable.entries_declareAll _ _] at hf
  rcases List.mem_append.mp hf with hf | hf
  · exact h.tables.vars f hf
  · obtain ⟨⟨b, i⟩, hb, rfl⟩ := List.mem_map.mp hf
    exact hbindings b (List.fst_mem_of_mem_zipIdx hb)

theorem closeScope (entries : List (Entry (Binding Expr))) : (s.closeScope entries).NamedBy P :=
  ⟨h.unread, ⟨fun f hf => h.tables.vars f
    ((SymbolTable.entries_eraseAll_sublist _ entries).subset hf), h.tables.procedures,
    h.tables.structs, h.tables.impls⟩⟩

end State.NamedBy
end Declared

end ScriptFront
