import ScriptFront.Proofs.Reading.Declarations
import ScriptFront.Proofs.Surface.Instances
import ScriptFront.Proofs.Surface.Syntax

/-!
# Texts whose names resolve

What a text may use is known in front of it: the variables, procedures, structs and impl blocks that
have been declared, oldest first.  A name stands for the first variable of that name, else for the
first procedure, else for the first struct.  A variable also has a struct if it is bound to an
instance of that struct.

**Input.** A scope and a text.

**Results.**

* `Phrase.Fits`: all names of a phrase resolve, and calls and literals are complete.
* `Statement.Resolves`: so do those of a statement, with the scope behind it.
-/

namespace ScriptFront
namespace Surface

section Scopes

/-- A variable, and the struct of the instance to which it is bound, if it is. -/
structure Variable where
  name : String
  typeName : String
  struct? : Option StructDef
deriving DecidableEq

/-- What a call has to know of a procedure. -/
structure Signature where
  name : String
  arity : Nat
  returnType : Option String
deriving DecidableEq

/-- The procedures of an impl block. -/
structure Methods where
  struct : String
  procs : List Signature
deriving DecidableEq

/-- The declarations in front of a text, oldest first. -/
structure Scope where
  vars : List Variable := []
  procs : List Signature := []
  structs : List StructDef := []
  impls : List Methods := []
deriving DecidableEq

namespace Scope

def var? (sc : Scope) (name : String) : Option Variable :=
  sc.vars.find? fun v => v.name = name

def proc? (sc : Scope) (name : String) : Option Signature :=
  sc.procs.find? fun p => p.name = name

def struct? (sc : Scope) (name : String) : Option StructDef :=
  sc.structs.find? fun d => d.name = name

/-- A procedure in the first impl block of a struct. -/
def method? (sc : Scope) (struct name : String) : Option Signature :=
  (sc.impls.find? fun i => i.struct = struct).bind fun i => i.procs.find? fun p => p.name = name

/-- A field of the instance to which a variable is bound. -/
def field? (sc : Scope) (owner field : String) : Option TypedName :=
  ((sc.var? owner).bind Variable.struct?).bind fun d => d.fields.find? fun f => f.name = field

/-- The struct of the default value of a type. -/
def defaultStruct? (sc : Scope) (typeName : String) : Option StructDef :=
  match (LiteralType.ofTypeName typeName).defaultText? with
  | some _ => none
  | none => sc.struct? typeName

def addVars (sc : Scope) (vs : List Variable) : Scope :=
  { sc with vars := sc.vars ++ vs }

def addProc (sc : Scope) (p : Signature) : Scope :=
  { sc with procs := sc.procs ++ [p] }

def addStruct (sc : Scope) (d : StructDef) : Scope :=
  { sc with structs := sc.structs ++ [d] }

def addImpl (sc : Scope) (struct : String) : Scope :=
  { sc with impls := sc.impls ++ [⟨struct, []⟩] }

/-- One more procedure in the impl block at a place. -/
def addMethod (sc : Scope) (i : Nat) (p : Signature) : Scope :=
  { sc with impls := sc.impls.modify i fun block => { block with procs := block.procs ++ [p] } }

/-- The parameters of a procedure, as variables of its body. -/
def parameters (sc : Scope) (params : List TypedName) : List Variable :=
  params.map fun p => ⟨p.name, p.typeName, sc.defaultStruct? p.typeName⟩

/-- Without the variables of an inner scope, of which there are `count`, behind the first `size`. -/
def leave (sc : Scope) (size count : Nat) : Scope :=
  { sc with vars := sc.vars.take size ++ sc.vars.drop (size + count) }

end Scope
end Scopes

section Phrases

/-- The type of an operand. -/
def Operand.typeIn (sc : Scope) : Operand → String
  | .literal _ lit | .negative _ lit => lit.typeName
  | .reference name => ((sc.var? name).map Variable.typeName).getD "none"

/-- The type of the value that a phrase gives. -/
def Phrase.typeIn (sc : Scope) : Phrase → String
  | .operand x => x.typeIn sc
  | .call name _ => ((sc.proc? name).bind Signature.returnType).getD "none"
  | .implCall struct name _ => ((sc.method? struct name).bind Signature.returnType).getD "none"
  | .fieldAccess owner field | .fieldAssign owner field _ =>
    ((sc.field? owner field).map TypedName.typeName).getD "none"
  | .chain lhs op _ | .step lhs op => if op.isBoolean then "bool" else lhs.typeIn sc
  | .not _ => "bool"
  | .structLiteral name _ _ => name
  | .assign .. => "none"

/-- The struct of the instance that a phrase gives. -/
def Phrase.structIn (sc : Scope) : Phrase → Option StructDef
  | .operand (.reference name) => (sc.var? name).bind Variable.struct?
  | .structLiteral name _ _ => sc.struct? name
  | _ => none

/-- The name of an operand resolves, if it is one; only numbers stand behind a minus sign, and they
have no other sign. -/
inductive Operand.Fits (sc : Scope) : Operand → Prop
  | literal {text : String} {lit : LiteralType} : lit.Unsigned text → Fits sc (.literal text lit)
  | negative {text : String} {lit : LiteralType} : lit.isNumeric → lit.Unsigned text →
      Fits sc (.negative text lit)
  | reference {name : String} {v : Variable} : sc.var? name = some v → Fits sc (.reference name)

/--
The names of a phrase resolve as they are meant.  Calls have as many arguments as there are
parameters, and struct literals have all fields in the order of their declaration.
-/
inductive Phrase.Fits (sc : Scope) : Phrase → Prop
  | operand {x : Operand} : x.Fits sc → Fits sc (.operand x)
  | call {name : String} {args : List Phrase} {p : Signature} :
      sc.var? name = none → sc.proc? name = some p → args.length = p.arity →
      (∀ x ∈ args, Fits sc x) → Fits sc (.call name args)
  | implCall {struct name : String} {args : List Phrase} {d : StructDef} {p : Signature} :
      sc.var? struct = none → sc.proc? struct = none → sc.struct? struct = some d →
      sc.method? struct name = some p → args.length = p.arity → (∀ x ∈ args, Fits sc x) →
      Fits sc (.implCall struct name args)
  | fieldAccess {owner field : String} {f : TypedName} :
      sc.field? owner field = some f → Fits sc (.fieldAccess owner field)
  | chain {lhs : Phrase} {op : Operator} {rhs : Operand} :
      lhs.isOpen → Fits sc lhs → op ≠ .neg → op.isStep = false → rhs.Fits sc →
      Fits sc (.chain lhs op rhs)
  | step {lhs : Phrase} {op : Operator} :
      lhs.isOpen → Fits sc lhs → op.isStep → Fits sc (.step lhs op)
  | not {inner : Phrase} : Fits sc inner → Fits sc (.not inner)
  | structLiteral {name : String} {fields : List (String × Phrase)} {comma : Bool}
      {d : StructDef} :
      sc.var? name = none → sc.proc? name = none → sc.struct? name = some d →
      fields.map Prod.fst = d.fieldNames → (∀ x ∈ fields.map Prod.snd, Fits sc x) →
      Fits sc (.structLiteral name fields comma)
  | assign {name : String} {value : Phrase} {v : Variable} :
      sc.var? name = some v → Fits sc value → Fits sc (.assign name value)
  | fieldAssign {owner field : String} {value : Phrase} {f : TypedName} :
      sc.field? owner field = some f → Fits sc value → Fits sc (.fieldAssign owner field value)

/-- A phrase that may be a condition: an operator between operands, or a truth value. -/
def Phrase.isTest (sc : Scope) : Phrase → Prop
  | .chain .. | .step .. => True
  | x => x.typeIn sc = "bool"

end Phrases

section Statements

/-- What a call has to know of the procedure of a text. -/
def ProcText.signature {α : Type} (p : ProcText α) : Signature :=
  ⟨p.name, p.params.length, p.returnType⟩

mutual

/--
The names of a statement resolve in one scope, and the other one is the scope behind it.  Only the
parameters of a procedure and the counter of a loop are left behind; a procedure is declared behind
its body, and an impl block in front of its procedures.
-/
inductive Statement.Resolves : Scope → Statement → Scope → Prop
  | phrase {sc : Scope} {x : Phrase} : x.Fits sc → Statement.Resolves sc (.phrase x) sc
  | letStatement {sc : Scope} {name : String} {hint : Option String} {x : Phrase} : x.Fits sc →
      Statement.Resolves sc (.letStatement name hint x)
        (sc.addVars [⟨name, hint.getD (x.typeIn sc), x.structIn sc⟩])
  | returnStatement {sc : Scope} {x : Phrase} : x.Fits sc →
      Statement.Resolves sc (.returnStatement (some x)) sc
  | ifStatement {sc sc' : Scope} {x : Phrase} {items : Items} : x.Fits sc → x.isTest sc →
      ItemsResolve sc items sc' → Statement.Resolves sc (.ifStatement x items) sc'
  | whileStatement {sc sc' : Scope} {x : Phrase} {items : Items} : x.Fits sc → x.isTest sc →
      ItemsResolve sc items sc' → Statement.Resolves sc (.whileStatement x items) sc'
  | forLoop {sc sc' : Scope} {counter : String} {x y : Phrase} {items : Items} : x.Fits sc →
      y.Fits sc → ItemsResolve (sc.addVars [⟨counter, "i32", x.structIn sc⟩]) items sc' →
      Statement.Resolves sc (.forLoop counter x y items) (sc'.leave sc.vars.length 1)
  | procDef {sc sc' : Scope} {p : ProcText Statement} : ProcResolves sc p sc' →
      Statement.Resolves sc (.procDef p) (sc'.addProc p.signature)
  | structDef {sc : Scope} {name : String} {fields : List TypedName} {comma : Bool} :
      Statement.Resolves sc (.structDef name fields comma) (sc.addStruct ⟨name, fields⟩)
  | implBlock {sc sc' : Scope} {struct : String} {d : StructDef} {ps : List (ProcText Statement)} :
      sc.struct? struct = some d → ProcsResolve sc.impls.length (sc.addImpl struct) ps sc' →
      Statement.Resolves sc (.implBlock struct ps) sc'

/-- The statements of a list resolve one after the other, each with a semicolon behind it. -/
inductive ItemsResolve : Scope → Items → Scope → Prop
  | nil {sc : Scope} : ItemsResolve sc [] sc
  | semicolon {sc sc' : Scope} {items : Items} : ItemsResolve sc items sc' →
      ItemsResolve sc (none :: items) sc'
  | cons {sc sc₁ sc₂ : Scope} {x : Statement} {items : Items} : Statement.Resolves sc x sc₁ →
      ItemsResolve sc₁ (none :: items) sc₂ → ItemsResolve sc (some x :: none :: items) sc₂

/-- The body of a procedure resolves with its parameters. -/
inductive ProcResolves : Scope → ProcText Statement → Scope → Prop
  | mk {sc sc' : Scope} {name : String} {params : List TypedName} {returnType : Option String}
      {items : Items} : ItemsResolve (sc.addVars (sc.parameters params)) items sc' →
      ProcResolves sc ⟨name, params, returnType, items, []⟩
        (sc'.leave sc.vars.length params.length)

/-- The procedures of the impl block at a place resolve; each of them is known to those after it. -/
inductive ProcsResolve : Nat → Scope → List (ProcText Statement) → Scope → Prop
  | nil {i : Nat} {sc : Scope} : ProcsResolve i sc [] sc
  | cons {i : Nat} {sc sc₁ sc₂ : Scope} {p : ProcText Statement}
      {ps : List (ProcText Statement)} : ProcResolves sc p sc₁ →
      ProcsResolve i (sc₁.addMethod i p.signature) ps sc₂ → ProcsResolve i sc (p :: ps) sc₂

end

end Statements

section Numbers

/-- No number in the text has a sign of its own. -/
def Lexed (w : List Terminal) : Prop :=
  ∀ a ∈ w, a.Lexed

@[simp] theorem lexed_nil : Lexed [] := nofun

@[simp] theorem lexed_mark {k : TokenKind} {w : List Terminal} :
    Lexed (.mark k :: w) ↔ Lexed w := by
  simp [Lexed, Terminal.Lexed]

@[simp] theorem lexed_name {name : String} {w : List Terminal} :
    Lexed (.name name :: w) ↔ Lexed w := by
  simp [Lexed, Terminal.Lexed]

@[simp] theorem lexed_append {v w : List Terminal} : Lexed (v ++ w) ↔ Lexed v ∧ Lexed w := by
  simp [Lexed, or_imp, forall_and]

theorem lexed_joined {xs : List (List Terminal)} {trailing : Bool} (h : ∀ x ∈ xs, Lexed x) :
    Lexed (joined xs trailing) := by
  induction xs with
  | nil => exact lexed_nil
  | cons x xs ih =>
    have hx := h x List.mem_cons_self
    have hxs := ih fun y hy => h y (List.mem_cons_of_mem x hy)
    cases xs with
    | nil =>
      rw [joined]
      split <;> simp [hx]
    | cons y ys => simp [joined, hx, hxs]

theorem lexed_spellTyped (xs : List TypedName) (trailing : Bool) :
    Lexed (joined (xs.map spellTyped) trailing) := by
  refine lexed_joined fun x hx => ?_
  obtain ⟨y, _, rfl⟩ := List.mem_map.mp hx
  simp [spellTyped]

theorem lexed_spellType (typeName : Option String) : Lexed (spellType typeName) := by
  cases typeName <;> simp [spellType]

theorem mem_spellAll {x : List Terminal} {xs : List Phrase} (h : x ∈ Phrase.spellAll xs) :
    ∃ y ∈ xs, x = y.spell := by
  induction xs with
  | nil => cases h
  | cons y ys ih =>
    rcases List.mem_cons.mp h with rfl | h
    · exact ⟨y, List.mem_cons_self, rfl⟩
    · obtain ⟨z, hz, hx⟩ := ih h
      exact ⟨z, List.mem_cons_of_mem y hz, hx⟩

theorem mem_spellFields {x : List Terminal} {xs : List (String × Phrase)}
    (h : x ∈ Phrase.spellFields xs) :
    ∃ name, ∃ y ∈ xs.map Prod.snd, x = .name name :: .mark .colon :: y.spell := by
  induction xs with
  | nil => cases h
  | cons y ys ih =>
    obtain ⟨name, y⟩ := y
    rcases List.mem_cons.mp h with rfl | h
    · exact ⟨name, y, List.mem_cons_self, rfl⟩
    · obtain ⟨name', z, hz, hx⟩ := ih h
      exact ⟨name', z, List.mem_cons_of_mem y hz, hx⟩

theorem Operand.Fits.lexed {sc : Scope} {x : Operand} (h : x.Fits sc) : Lexed x.spell := by
  cases h with
  | literal hsign => simpa [Operand.spell, Lexed, Terminal.Lexed] using hsign
  | negative _ hsign => simpa [Operand.spell, Lexed, Terminal.Lexed] using hsign
  | reference => simp [Operand.spell]

theorem Phrase.Fits.lexed {sc : Scope} {x : Phrase} (h : x.Fits sc) : Lexed x.spell := by
  have args {xs : List Phrase} (hxs : ∀ x ∈ xs, Lexed x.spell) :
      Lexed (joined (Phrase.spellAll xs) false) := by
    refine lexed_joined fun y hy => ?_
    obtain ⟨x, hx, rfl⟩ := mem_spellAll hy
    exact hxs x hx
  induction h with
  | operand hx => exact hx.lexed
  | call _ _ _ _ ih => simp [Phrase.spell, args ih]
  | implCall _ _ _ _ _ _ ih => simp [Phrase.spell, args ih]
  | fieldAccess => simp [Phrase.spell]
  | chain _ _ _ _ hrhs ih => simp [Phrase.spell, ih, hrhs.lexed]
  | step _ _ _ ih => simp [Phrase.spell, ih]
  | not _ ih => simp [Phrase.spell, ih]
  | @structLiteral _ fields comma _ _ _ _ _ _ ih =>
    have hfields : Lexed (joined (Phrase.spellFields fields) comma) := by
      refine lexed_joined fun y hy => ?_
      obtain ⟨name, x, hx, rfl⟩ := mem_spellFields hy
      simpa using ih x hx
    simp [Phrase.spell, hfields]
  | assign _ _ ih => simp [Phrase.spell, ih]
  | fieldAssign _ _ ih => simp [Phrase.spell, ih]

mutual

theorem Statement.lexed (x : Statement) {sc sc' : Scope} (h : x.Resolves sc sc') :
    Lexed x.spell := by
  cases h with
  | phrase hx => exact hx.lexed
  | letStatement hx => simp [Statement.spell, lexed_spellType, hx.lexed]
  | returnStatement hx => simp [Statement.spell, hx.lexed]
  | ifStatement hx _ hitems => simp [Statement.spell, hx.lexed, lexed_items _ hitems]
  | whileStatement hx _ hitems => simp [Statement.spell, hx.lexed, lexed_items _ hitems]
  | forLoop hx hy hitems => simp [Statement.spell, hx.lexed, hy.lexed, lexed_items _ hitems]
  | procDef hp => simp [Statement.spell, lexed_proc _ hp]
  | structDef => simp [Statement.spell, lexed_spellTyped]
  | implBlock _ hps => simp [Statement.spell, lexed_procs _ hps]

theorem lexed_items (items : List (Option Statement)) {sc sc' : Scope}
    (h : ItemsResolve sc items sc') : Lexed (spellItems items) := by
  cases h with
  | nil => exact lexed_nil
  | semicolon hitems => simp [spellItems, lexed_items _ hitems]
  | cons hx hitems =>
    have hrest := lexed_items _ hitems
    rw [spellItems, lexed_append]
    exact ⟨Statement.lexed _ hx, hrest⟩

theorem lexed_proc (p : ProcText Statement) {sc sc' : Scope} (h : ProcResolves sc p sc') :
    Lexed (spellProc p) := by
  cases h with
  | mk hitems => simp [spellProc, lexed_spellTyped, lexed_spellType, lexed_items _ hitems]

theorem lexed_procs (ps : List (ProcText Statement)) {i : Nat} {sc sc' : Scope}
    (h : ProcsResolve i sc ps sc') : Lexed (spellProcs ps) := by
  cases h with
  | nil => exact lexed_nil
  | cons hp hps => simp [spellProcs, lexed_proc _ hp, lexed_procs _ hps]

end

end Numbers
end Surface

open Surface

def Binding.variable (b : Binding Expr) : Variable :=
  ⟨b.name, b.typeName, b.value.instance?.map Instance.struct⟩

def Proc.signature (p : Proc Expr) : Signature :=
  ⟨p.name, p.params.length, p.returnType⟩

def Impl.methods (block : Impl Expr) : Methods :=
  ⟨block.struct.name, block.procs.map Proc.signature⟩

namespace Tables

/-- The scope that the tables hold. -/
def scope (t : Tables) : Scope where
  vars := t.vars.entries.map fun e => e.decl.variable
  procs := t.procedures.entries.map fun e => e.decl.signature
  structs := t.structs.entries.map Entry.decl
  impls := t.impls.entries.map fun e => e.decl.methods

section Lookup

variable (t : Tables) (name : String)

theorem var?_scope :
    t.scope.var? name = (t.vars.lookup? name).map fun e => e.decl.variable :=
  List.find?_map ..

theorem proc?_scope :
    t.scope.proc? name = (t.procedures.lookup? name).map fun e => e.decl.signature :=
  List.find?_map ..

theorem struct?_scope : t.scope.struct? name = (t.structs.lookup? name).map Entry.decl :=
  List.find?_map ..

theorem method?_scope (struct : String) :
    t.scope.method? struct name =
      (t.impls.lookup? struct).bind fun e => (e.decl.proc? name).map Proc.signature := by
  have himpl : (t.scope.impls.find? fun i => i.struct = struct) =
      (t.impls.lookup? struct).map fun e => e.decl.methods := List.find?_map ..
  have hmethod (e : Entry (Impl Expr)) :
      (e.decl.methods.procs.find? fun p => p.name = name) =
        (e.decl.proc? name).map Proc.signature := List.find?_map ..
  unfold Scope.method?
  rw [himpl, Option.bind_map]
  simp only [Function.comp_def, hmethod]

theorem defaultStruct?_scope : t.scope.defaultStruct? name = defaultStruct? t.structs name := by
  unfold Scope.defaultStruct? ScriptFront.defaultStruct?
  cases (LiteralType.ofTypeName name).defaultText? with
  | some text => rfl
  | none => exact t.struct?_scope name

end Lookup

section Changes

theorem scope_declare_variable (t : Tables) (e : Entry (Binding Expr)) :
    (t.declare (.variable e)).scope = t.scope.addVars [e.decl.variable] := by
  simp [declare, scope, Scope.addVars]

theorem scope_declare_procedure (t : Tables) (e : Entry (Proc Expr)) :
    (t.declare (.procedure e)).scope = t.scope.addProc e.decl.signature := by
  simp [declare, scope, Scope.addProc]

theorem scope_declare_struct (t : Tables) (e : Entry StructDef) :
    (t.declare (.struct e)).scope = t.scope.addStruct e.decl := by
  simp [declare, scope, Scope.addStruct]

theorem scope_declare_impl (t : Tables) (id : Nat) (d : StructDef) :
    (t.declare (.impl ⟨id, ⟨d, []⟩⟩)).scope = t.scope.addImpl d.name := by
  simp [declare, scope, Scope.addImpl, Impl.methods]

end Changes
end Tables

namespace State

theorem scope_openScope (s : State) (bindings : List (Binding Expr)) :
    (s.openScope bindings).tables.scope =
      s.tables.scope.addVars (bindings.map Binding.variable) := by
  have hvars : (s.openScope bindings).tables.scope.vars =
      s.tables.scope.vars ++ bindings.map Binding.variable := by
    have hdecls : (s.entriesFor bindings).map (fun e => e.decl.variable) =
        bindings.map Binding.variable := by
      conv_rhs => rw [← map_decl_entriesFor s bindings]
      rw [List.map_map]
      rfl
    unfold Tables.scope
    simp only
    rw [entries_openScope, List.map_append, hdecls]
  unfold Scope.addVars
  rw [← hvars]
  rfl

/-- Behind an inner scope its variables are gone. -/
theorem scope_closeScope {s t : State} {bindings : List (Binding Expr)} (h : s.Numbered)
    (hst : (s.openScope bindings).Extends t) :
    (t.closeScope (s.entriesFor bindings)).tables.scope =
      t.tables.scope.leave s.tables.scope.vars.length bindings.length := by
  have hvars : (t.closeScope (s.entriesFor bindings)).tables.scope.vars =
      t.tables.scope.vars.take s.tables.scope.vars.length ++
        t.tables.scope.vars.drop (s.tables.scope.vars.length + bindings.length) := by
    unfold Tables.scope
    simp only
    rw [entries_closeScope h hst, List.map_append, List.map_take, List.map_drop, List.length_map]
  unfold Scope.leave
  rw [← hvars]
  rfl

/-- As long as nothing is declared, a variable stays what it is. -/
theorem Extends.variable_eq {s t : State} (hst : s.Extends t)
    (hscope : t.tables.scope = s.tables.scope) {e f : Entry (Binding Expr)}
    (he : e ∈ s.tables.vars.entries) (hf : f ∈ t.tables.vars.entries) (hid : f.id = e.id) :
    f.decl.variable = e.decl.variable := by
  obtain ⟨new, hkeys, _⟩ := hst.vars
  obtain ⟨i, hi⟩ := List.mem_iff_getElem?.mp he
  have hkey : t.varKeys[i]? = some (e.id, e.decl.name) := by
    have hlength : i < s.varKeys.length := by
      unfold varKeys
      rw [List.length_map]
      exact (List.getElem?_eq_some_iff.mp hi).1
    rw [hkeys, List.getElem?_append_left hlength]
    unfold varKeys
    rw [List.getElem?_map, hi]
    rfl
  unfold varKeys at hkey
  rw [List.getElem?_map] at hkey
  obtain ⟨g, hg, hgkey⟩ := Option.map_eq_some_iff.mp hkey
  obtain rfl : f = g := hst.numbered.vars.eq_of_id hf (List.mem_of_getElem? hg)
    (hid.trans (congrArg Prod.fst hgkey).symm)
  have hvars := congrArg (fun sc : Scope => sc.vars[i]?) hscope
  simp only [Tables.scope, List.getElem?_map, hi, hg, Option.map_some, Option.some.injEq] at hvars
  exact hvars

/-- A new value of the same struct changes nothing in scope. -/
theorem scope_rebind {s : State} {e : Entry (Binding Expr)} {value : Expr}
    (h : ∀ f ∈ s.tables.vars.entries, f.id = e.id →
      f.decl.variable.struct? = value.instance?.map Instance.struct) :
    (s.rebind e value).tables.scope = s.tables.scope := by
  have hvars : (s.rebind e value).tables.scope.vars = s.tables.scope.vars := by
    unfold Tables.scope State.rebind SymbolTable.update
    simp only
    rw [List.map_map]
    refine List.map_congr_left fun f hf => ?_
    by_cases hid : f.id = e.id
    · have hstruct := h f hf hid
      simp only [Function.comp_apply, if_pos hid]
      unfold Binding.variable Binding.rebind
      rw [← hstruct]
      rfl
    · simp only [Function.comp_apply, if_neg hid]
  show { s.tables.scope with vars := (s.rebind e value).tables.scope.vars } = s.tables.scope
  rw [hvars]

/-- The impl block with an identity is the one at its place. -/
theorem scope_addProc {s : State} (hs : s.Numbered) {e : Entry (Impl Expr)} {i : Nat}
    (hi : (s.tables.impls.entries.map Entry.id)[i]? = some e.id) (p : Proc Expr) :
    (s.addProc e p).tables.scope = s.tables.scope.addMethod i p.signature := by
  have himpls : (s.addProc e p).tables.scope.impls = s.tables.scope.impls.modify i
      fun block => { block with procs := block.procs ++ [p.signature] } := by
    unfold Tables.scope State.addProc SymbolTable.update
    refine List.ext_getElem? fun j => ?_
    simp only [List.getElem?_map, List.getElem?_modify]
    cases hj : s.tables.impls.entries[j]? with
    | none => rfl
    | some f =>
      have hfid : (s.tables.impls.entries.map Entry.id)[j]? = some f.id := by
        rw [List.getElem?_map, hj]
        rfl
      have hplace : f.id = e.id ↔ i = j := by
        constructor
        · intro hid
          refine (List.getElem?_inj (List.getElem?_eq_some_iff.mp hi).1 hs.impls.nodup).mp ?_
          rw [hi, hfid, hid]
        · rintro rfl
          exact Option.some.inj (hfid.symm.trans hi)
      by_cases hid : f.id = e.id
      · simp [hid, hplace.mp hid, Impl.methods]
      · have hne : i ≠ j := fun hij => hid (hplace.mpr hij)
        simp [hid, hne]
  unfold Scope.addMethod
  rw [← himpls]
  rfl

end State
end ScriptFront
