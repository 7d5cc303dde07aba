import ScriptFront.Parse.Default
import ScriptFront.Parse.State

/-!
# Trees and tables at other positions

Positions are carried along from the tokens into the tree, the tables and the problems.  Here they
are changed everywhere in the same way.  Nothing that decides how a text is read looks at a
position, so all of it is the same at other positions.

**Results.**

* `Expr.moved`: an expression with its positions changed, and its simplification rules.
* `SymbolTable.lookup?_map`, `Tables.resolve?_moved`: names stand for the same declarations.
* `defaultValue_moved`: default values have the position that they are given.
-/

namespace ScriptFront

section Maps

variable {α β : Type}

/-- A binding with another value. -/
def Binding.map (g : α → β) (b : Binding α) : Binding β :=
  ⟨b.name, b.typeName, g b.value⟩

/-- An instance with other values in its fields. -/
def Instance.map (g : α → β) (v : Instance α) : Instance β :=
  ⟨v.struct, v.fields.map (Binding.map g)⟩

/-- A procedure at another position, with other statements. -/
def Proc.map (f : Position → Position) (g : α → β) (p : Proc α) : Proc β :=
  ⟨p.number, f p.pos, p.name, p.returnType, p.params, p.body.map g⟩

/-- An impl block with procedures at other positions. -/
def Impl.map (f : Position → Position) (g : α → β) (block : Impl α) : Impl β :=
  ⟨block.struct, block.procs.map (Proc.map f g)⟩

/-- An entry of the same identity. -/
def Entry.map (g : α → β) (e : Entry α) : Entry β :=
  ⟨e.id, g e.decl⟩

/-- A table with entries of the same identities. -/
def SymbolTable.map (g : α → β) (t : SymbolTable α) : SymbolTable β :=
  ⟨t.entries.map (Entry.map g)⟩

end Maps

variable (f : Position → Position)

mutual

/-- An expression with its positions changed. -/
def Expr.moved : Expr → Expr
  | .literal pos text lit => .literal (f pos) text lit
  | .reference pos ⟨name, typeName, value⟩ => .reference (f pos) ⟨name, typeName, value.moved⟩
  | .letStatement pos name typeName value => .letStatement (f pos) name typeName value.moved
  | .assign pos ⟨name, typeName, target⟩ value =>
    .assign (f pos) ⟨name, typeName, target.moved⟩ value.moved
  | .returnStatement pos none => .returnStatement (f pos) none
  | .returnStatement pos (some value) => .returnStatement (f pos) (some value.moved)
  | .ifStatement pos condition body => .ifStatement (f pos) condition.moved (movedAll body)
  | .whileStatement pos condition body => .whileStatement (f pos) condition.moved (movedAll body)
  | .range pos start stop => .range (f pos) start.moved stop.moved
  | .forLoop pos ⟨name, typeName, value⟩ bounds body =>
    .forLoop (f pos) ⟨name, typeName, value.moved⟩ bounds.moved (movedAll body)
  | .procDef ⟨number, pos, name, returnType, params, body⟩ =>
    .procDef ⟨number, f pos, name, returnType, params, movedAll body⟩
  | .call pos ⟨number, pos', name, returnType, params, body⟩ args =>
    .call (f pos) ⟨number, f pos', name, returnType, params, movedAll body⟩ (movedBindings args)
  | .structDef pos struct => .structDef (f pos) struct
  | .structInstance pos ⟨struct, fields⟩ => .structInstance (f pos) ⟨struct, movedBindings fields⟩
  | .implBlock pos impl ⟨struct, procs⟩ => .implBlock (f pos) impl ⟨struct, movedProcs procs⟩
  | .implCall pos impl struct ⟨number, pos', name, returnType, params, body⟩ args =>
    .implCall (f pos) impl struct ⟨number, f pos', name, returnType, params, movedAll body⟩
      (movedBindings args)
  | .fieldAssign pos ⟨name, typeName, owner⟩ ⟨name', typeName', field⟩ value =>
    .fieldAssign (f pos) ⟨name, typeName, owner.moved⟩ ⟨name', typeName', field.moved⟩ value.moved
  | .fieldAccess pos ⟨name, typeName, owner⟩ ⟨name', typeName', field⟩ =>
    .fieldAccess (f pos) ⟨name, typeName, owner.moved⟩ ⟨name', typeName', field.moved⟩
  | .binary pos lhs op rhs => .binary (f pos) lhs.moved op rhs.moved

def movedAll : List Expr → List Expr
  | [] => []
  | e :: es => e.moved :: movedAll es

def movedBindings : List (Binding Expr) → List (Binding Expr)
  | [] => []
  | ⟨name, typeName, value⟩ :: bs => ⟨name, typeName, value.moved⟩ :: movedBindings bs

def movedProcs : List (Proc Expr) → List (Proc Expr)
  | [] => []
  | ⟨number, pos, name, returnType, params, body⟩ :: ps =>
    ⟨number, f pos, name, returnType, params, movedAll body⟩ :: movedProcs ps

end

/-- A token at another position. -/
def Token.moved (t : Token) : Token :=
  { t with pos := f t.pos }

theorem Token.kind_moved (t : Token) : (t.moved f).kind = t.kind := rfl

/-- A problem at another position. -/
def Problem.moved (p : Problem) : Problem :=
  { p with pos := f p.pos }

/-- A diagnostic at another position. -/
def Diagnostic.moved (d : Diagnostic) : Diagnostic :=
  { d with pos := f d.pos }

/-- Tables with all positions changed. -/
def Tables.moved (t : Tables) : Tables where
  vars := t.vars.map (Binding.map (Expr.moved f))
  procedures := t.procedures.map (Proc.map f (Expr.moved f))
  structs := t.structs
  impls := t.impls.map (Impl.map f (Expr.moved f))

/-- An entry of one of the tables with its positions changed. -/
def Symbol.moved : Symbol → Symbol
  | .variable e => .variable (e.map (Binding.map (Expr.moved f)))
  | .procedure e => .procedure (e.map (Proc.map f (Expr.moved f)))
  | .struct e => .struct e
  | .impl e => .impl (e.map (Impl.map f (Expr.moved f)))

section Parts

theorem movedAll_eq (es : List Expr) : movedAll f es = es.map (Expr.moved f) := by
  induction es with
  | nil => rfl
  | cons e es ih => rw [movedAll, ih, List.map_cons]

theorem movedBindings_eq (bs : List (Binding Expr)) :
    movedBindings f bs = bs.map (Binding.map (Expr.moved f)) := by
  induction bs with
  | nil => rfl
  | cons b bs ih =>
    rw [movedBindings, ih, List.map_cons]
    rfl

theorem movedProcs_eq (ps : List (Proc Expr)) :
    movedProcs f ps = ps.map (Proc.map f (Expr.moved f)) := by
  induction ps with
  | nil => rfl
  | cons p ps ih =>
    rw [movedProcs, ih, movedAll_eq, List.map_cons]
    rfl

namespace Expr

variable (pos : Position)

@[simp] theorem moved_literal (text : String) (lit : LiteralType) :
    (literal pos text lit).moved f = .literal (f pos) text lit := rfl

@[simp] theorem moved_reference (b : Binding Expr) :
    (reference pos b).moved f = .reference (f pos) (b.map (moved f)) := rfl

@[simp] theorem moved_letStatement (name typeName : String) (value : Expr) :
    (letStatement pos name typeName value).moved f =
      .letStatement (f pos) name typeName (value.moved f) := rfl

@[simp] theorem moved_assign (b : Binding Expr) (value : Expr) :
    (assign pos b value).moved f = .assign (f pos) (b.map (moved f)) (value.moved f) := rfl

@[simp] theorem moved_returnStatement (value : Option Expr) :
    (returnStatement pos value).moved f = .returnStatement (f pos) (value.map (moved f)) := by
  cases value <;> rfl

@[simp] theorem moved_ifStatement (condition : Expr) (body : List Expr) :
    (ifStatement pos condition body).moved f =
      .ifStatement (f pos) (condition.moved f) (body.map (moved f)) := by
  rw [moved, movedAll_eq]

@[simp] theorem moved_whileStatement (condition : Expr) (body : List Expr) :
    (whileStatement pos condition body).moved f =
      .whileStatement (f pos) (condition.moved f) (body.map (moved f)) := by
  rw [moved, movedAll_eq]

@[simp] theorem moved_range (start stop : Expr) :
    (range pos start stop).moved f = .range (f pos) (start.moved f) (stop.moved f) := rfl

@[simp] theorem moved_forLoop (counter : Binding Expr) (bounds : Expr) (body : List Expr) :
    (forLoop pos counter bounds body).moved f =
      .forLoop (f pos) (counter.map (moved f)) (bounds.moved f) (body.map (moved f)) := by
  rw [← movedAll_eq]
  rfl

@[simp] theorem moved_procDef (proc : Proc Expr) :
    (procDef proc).moved f = .procDef (proc.map f (moved f)) := by
  unfold Proc.map
  rw [← movedAll_eq]
  rfl

@[simp] theorem moved_call (callee : Proc Expr) (args : List (Binding Expr)) :
    (call pos callee args).moved f =
      .call (f pos) (callee.map f (moved f)) (args.map (Binding.map (moved f))) := by
  unfold Proc.map
  rw [← movedAll_eq, ← movedBindings_eq]
  rfl

@[simp] theorem moved_structDef (struct : StructDef) :
    (structDef pos struct).moved f = .structDef (f pos) struct := rfl

@[simp] theorem moved_structInstance (value : Instance Expr) :
    (structInstance pos value).moved f = .structInstance (f pos) (value.map (moved f)) := by
  unfold Instance.map
  rw [← movedBindings_eq]
  rfl

@[simp] theorem moved_implBlock (impl : Nat) (block : Impl Expr) :
    (implBlock pos impl block).moved f = .implBlock (f pos) impl (block.map f (moved f)) := by
  unfold Impl.map
  rw [← movedProcs_eq]
  rfl

@[simp] theorem moved_implCall (impl : Nat) (struct : String) (callee : Proc Expr)
    (args : List (Binding Expr)) :
    (implCall pos impl struct callee args).moved f =
      .implCall (f pos) impl struct (callee.map f (moved f))
        (args.map (Binding.map (moved f))) := by
  unfold Proc.map
  rw [← movedAll_eq, ← movedBindings_eq]
  rfl

@[simp] theorem moved_fieldAssign (owner field : Binding Expr) (value : Expr) :
    (fieldAssign pos owner field value).moved f =
      .fieldAssign (f pos) (owner.map (moved f)) (field.map (moved f)) (value.moved f) := rfl

@[simp] theorem moved_fieldAccess (owner field : Binding Expr) :
    (fieldAccess pos owner field).moved f =
      .fieldAccess (f pos) (owner.map (moved f)) (field.map (moved f)) := rfl

@[simp] theorem moved_binary (lhs : Expr) (op : Operator) (rhs : Expr) :
    (binary pos lhs op rhs).moved f = .binary (f pos) (lhs.moved f) op (rhs.moved f) := rfl

theorem moved_pos (e : Expr) : (e.moved f).pos = f e.pos := by
  cases e with
  | returnStatement pos value => cases value <;> rfl
  | _ => rfl

theorem moved_kind (e : Expr) : (e.moved f).kind = e.kind := by
  cases e with
  | returnStatement pos value => cases value <;> rfl
  | _ => rfl

theorem moved_valueType : ∀ e : Expr, (e.moved f).valueType = e.valueType
  | .binary _ lhs op _ => by
    rw [moved_binary, valueType, valueType, moved_valueType lhs]
  | .returnStatement _ none | .returnStatement _ (some _) => rfl
  | .literal .. | .reference .. | .letStatement .. | .assign .. | .ifStatement ..
  | .whileStatement .. | .range .. | .forLoop .. | .procDef .. | .call .. | .structDef ..
  | .structInstance .. | .implBlock .. | .implCall .. | .fieldAssign .. | .fieldAccess .. => rfl

theorem moved_instance? : ∀ e : Expr,
    (e.moved f).instance? = e.instance?.map (Instance.map (moved f))
  | .reference _ ⟨_, _, value⟩ => moved_instance? value
  | .structInstance _ value => by
    rw [moved_structInstance]
    rfl
  | .returnStatement _ none | .returnStatement _ (some _) => rfl
  | .literal .. | .letStatement .. | .assign .. | .ifStatement .. | .whileStatement ..
  | .range .. | .forLoop .. | .procDef .. | .call .. | .structDef .. | .binary ..
  | .implBlock .. | .implCall .. | .fieldAssign .. | .fieldAccess .. => rfl

theorem moved_boundValue (e : Expr) : (e.moved f).boundValue = e.boundValue.moved f := by
  cases e with
  | returnStatement pos value => cases value <;> rfl
  | _ => rfl

end Expr

section Fields

variable {α β : Type} (g : α → β) (v : Instance α) (name : String)

theorem Instance.slot?_map : (v.map g).slot? name = v.slot? name := by
  unfold slot? Instance.map
  simp only [List.length_map]

theorem Instance.field?_map : (v.map g).field? name = (v.field? name).map (Binding.map g) := by
  unfold field?
  rw [slot?_map]
  cases v.slot? name with
  | none => rfl
  | some i => exact List.getElem?_map ..

theorem Instance.withField?_map (value : α) :
    (v.map g).withField? name (g value) = (v.withField? name value).map (Instance.map g) := by
  unfold withField?
  rw [slot?_map]
  cases v.slot? name with
  | none => rfl
  | some i =>
    have hfields : (v.fields.map (Binding.map g)).modify i (·.rebind (g value)) =
        (v.fields.modify i (·.rebind value)).map (Binding.map g) := by
      refine List.ext_getElem? fun j => ?_
      rw [List.getElem?_modify, List.getElem?_map, List.getElem?_map, List.getElem?_modify]
      cases v.fields[j]? with
      | none => rfl
      | some b => by_cases hij : i = j <;> simp [hij, Binding.map, Binding.rebind]
    exact congrArg (fun fields => some (⟨v.struct, fields⟩ : Instance β)) hfields

theorem Impl.proc?_map (block : Impl α) :
    (block.map f g).proc? name = (block.proc? name).map (Proc.map f g) := by
  unfold proc? Impl.map
  rw [List.find?_map]
  rfl

end Fields

end Parts

section Identity

mutual

/-- At the same positions an expression is the same. -/
theorem Expr.moved_id : ∀ e : Expr, e.moved id = e
  | .literal .. | .structDef .. => rfl
  | .reference pos ⟨name, typeName, value⟩ => by
    rw [Expr.moved, value.moved_id]
    rfl
  | .letStatement pos name typeName value => by
    rw [Expr.moved, value.moved_id]
    rfl
  | .assign pos ⟨name, typeName, target⟩ value => by
    rw [Expr.moved, target.moved_id, value.moved_id]
    rfl
  | .returnStatement pos none => rfl
  | .returnStatement pos (some value) => by
    rw [Expr.moved, value.moved_id]
    rfl
  | .ifStatement pos condition body => by
    rw [Expr.moved, condition.moved_id, movedAll_id body]
    rfl
  | .whileStatement pos condition body => by
    rw [Expr.moved, condition.moved_id, movedAll_id body]
    rfl
  | .range pos start stop => by
    rw [Expr.moved, start.moved_id, stop.moved_id]
    rfl
  | .forLoop pos ⟨name, typeName, value⟩ bounds body => by
    rw [Expr.moved, value.moved_id, bounds.moved_id, movedAll_id body]
    rfl
  | .procDef ⟨number, pos, name, returnType, params, body⟩ => by
    rw [Expr.moved, movedAll_id body]
    rfl
  | .call pos ⟨number, place, name, returnType, params, body⟩ args => by
    rw [Expr.moved, movedAll_id body, movedBindings_id args]
    rfl
  | .structInstance pos ⟨struct, fields⟩ => by
    rw [Expr.moved, movedBindings_id fields]
    rfl
  | .implBlock pos impl ⟨struct, procs⟩ => by
    rw [Expr.moved, movedProcs_id procs]
    rfl
  | .implCall pos impl struct ⟨number, place, name, returnType, params, body⟩ args => by
    rw [Expr.moved, movedAll_id body, movedBindings_id args]
    rfl
  | .fieldAssign pos ⟨owner, ownerType, target⟩ ⟨field, fieldType, old⟩ value => by
    rw [Expr.moved, target.moved_id, old.moved_id, value.moved_id]
    rfl
  | .fieldAccess pos ⟨owner, ownerType, target⟩ ⟨field, fieldType, value⟩ => by
    rw [Expr.moved, target.moved_id, value.moved_id]
    rfl
  | .binary pos lhs op rhs => by
    rw [Expr.moved, lhs.moved_id, rhs.moved_id]
    rfl

theorem movedAll_id : ∀ es : List Expr, movedAll id es = es
  | [] => rfl
  | e :: es => by rw [movedAll, e.moved_id, movedAll_id es]

theorem movedBindings_id : ∀ bs : List (Binding Expr), movedBindings id bs = bs
  | [] => rfl
  | ⟨name, typeName, value⟩ :: bs => by rw [movedBindings, value.moved_id, movedBindings_id bs]

theorem movedProcs_id : ∀ ps : List (Proc Expr), movedProcs id ps = ps
  | [] => rfl
  | ⟨number, pos, name, returnType, params, body⟩ :: ps => by
    rw [movedProcs, movedAll_id body, movedProcs_id ps]
    rfl

end

theorem Tables.moved_id (t : Tables) : t.moved id = t := by
  have hexpr : Expr.moved id = id := funext Expr.moved_id
  have hproc : Proc.map id (Expr.moved id) = id := by
    funext p
    rw [hexpr, Proc.map, List.map_id]
    rfl
  have himpl : Impl.map id (Expr.moved id) = id := by
    funext block
    rw [Impl.map, hproc, List.map_id]
    rfl
  have htable {α : Type} (t : SymbolTable α) : t.map id = t := by
    rw [SymbolTable.map, show (Entry.map id : Entry α → Entry α) = id from rfl, List.map_id]
  unfold moved
  rw [hproc, himpl, hexpr, show Binding.map (id : Expr → Expr) = id from rfl, htable, htable,
    htable]

end Identity

section Tables

namespace SymbolTable

variable {α β : Type} (g : α → β) (t : SymbolTable α)

theorem map_declare (e : Entry α) : (t.declare e).map g = (t.map g).declare (e.map g) :=
  congrArg SymbolTable.mk List.map_append

theorem map_declareAll (es : List (Entry α)) :
    (t.declareAll es).map g = (t.map g).declareAll (es.map (Entry.map g)) := by
  induction es generalizing t with
  | nil => rfl
  | cons e es ih => exact (ih (t.declare e)).trans (by rw [map_declare]; rfl)

theorem map_erase (id : Nat) : (t.erase id).map g = (t.map g).erase id := by
  unfold erase map
  rw [List.eraseP_map]
  rfl

theorem map_eraseAll (es : List (Entry α)) :
    (t.eraseAll es).map g = (t.map g).eraseAll (es.map (Entry.map g)) := by
  induction es generalizing t with
  | nil => rfl
  | cons e es ih => exact (ih (t.erase e.id)).trans (by rw [map_erase]; rfl)

theorem get?_map (id : Nat) : (t.map g).get? id = (t.get? id).map g := by
  unfold get? map
  rw [List.find?_map, Option.map_map, Option.map_map]
  rfl

/-- An entry is changed in a way that goes with the change of all entries. -/
theorem update_map {h : α → α} {h' : β → β} (id : Nat) (hh : ∀ a, g (h a) = h' (g a)) :
    (t.update id h).map g = (t.map g).update id h' := by
  have hentry (e : Entry α) : Entry.map g (if e.id = id then { e with decl := h e.decl } else e) =
      if (e.map g).id = id then { e.map g with decl := h' (e.map g).decl } else e.map g := by
    by_cases hid : e.id = id
    · rw [if_pos hid, if_pos (show (e.map g).id = id from hid), Entry.map, hh]
      rfl
    · rw [if_neg hid, if_neg (show ¬ (e.map g).id = id from hid)]
  unfold update map
  rw [List.map_map, List.map_map]
  exact congrArg SymbolTable.mk (List.map_congr_left fun e _ => hentry e)

variable [Named α] [Named β] (hname : ∀ a, Named.name (g a) = Named.name a)
include hname

/-- A name stands for the same entry. -/
theorem lookup?_map (name : String) :
    (t.map g).lookup? name = (t.lookup? name).map (Entry.map g) := by
  unfold lookup? map
  rw [List.find?_map]
  congr 2
  funext e
  simp only [Function.comp_apply, Entry.map, hname]

theorem names_map : (t.map g).names = t.names := by
  unfold names map
  rw [List.map_map]
  congr 1
  funext e
  exact hname e.decl

end SymbolTable

namespace Tables

variable (t : Tables) (name : String)

theorem lookup?_vars_moved : (t.moved f).vars.lookup? name =
    (t.vars.lookup? name).map (Entry.map (Binding.map (Expr.moved f))) :=
  SymbolTable.lookup?_map (Binding.map (Expr.moved f)) t.vars (fun _ => rfl) name

theorem lookup?_procedures_moved : (t.moved f).procedures.lookup? name =
    (t.procedures.lookup? name).map (Entry.map (Proc.map f (Expr.moved f))) :=
  SymbolTable.lookup?_map (Proc.map f (Expr.moved f)) t.procedures (fun _ => rfl) name

theorem lookup?_impls_moved : (t.moved f).impls.lookup? name =
    (t.impls.lookup? name).map (Entry.map (Impl.map f (Expr.moved f))) :=
  SymbolTable.lookup?_map (Impl.map f (Expr.moved f)) t.impls (fun _ => rfl) name

theorem resolve?_moved : (t.moved f).resolve? name = (t.resolve? name).map (Symbol.moved f) := by
  unfold resolve?
  rw [lookup?_vars_moved, lookup?_procedures_moved]
  cases t.vars.lookup? name with
  | some e => rfl
  | none =>
    cases t.procedures.lookup? name with
    | some e => rfl
    | none =>
      show (t.structs.lookup? name).map Symbol.struct =
        ((t.structs.lookup? name).map Symbol.struct).map (Symbol.moved f)
      rw [Option.map_map]
      rfl

theorem names_vars_moved : (t.moved f).vars.names = t.vars.names :=
  SymbolTable.names_map _ t.vars fun _ => rfl

theorem visibleNames_moved : (t.moved f).visibleNames = t.visibleNames := by
  unfold visibleNames
  rw [names_vars_moved, show (t.moved f).procedures.names = t.procedures.names from
      SymbolTable.names_map _ t.procedures fun _ => rfl]
  rfl

theorem lookup?_moved (kind : SymbolKind) :
    (t.moved f).lookup? kind name = (t.lookup? kind name).map (Symbol.moved f) := by
  have hmap {α : Type} {x y : Option α} {g : α → α} {symbol : α → Symbol} (hxy : x = y.map g)
      (hg : ∀ a, symbol (g a) = (symbol a).moved f) :
      x.map symbol = (y.map symbol).map (Symbol.moved f) := by
    rw [hxy, Option.map_map, Option.map_map]
    exact congrArg (y.map ·) (funext hg)
  cases kind with
  | «variable» => exact hmap (t.lookup?_vars_moved f name) fun _ => rfl
  | procedure => exact hmap (t.lookup?_procedures_moved f name) fun _ => rfl
  | struct => exact hmap (g := id) (by rw [Option.map_id, id]; rfl) fun _ => rfl
  | impl => exact hmap (t.lookup?_impls_moved f name) fun _ => rfl

theorem shadows_moved (symbol : Symbol) :
    (t.moved f).shadows (symbol.moved f) = t.shadows symbol := by
  have hkind : (symbol.moved f).kind = symbol.kind := by cases symbol <;> rfl
  have hname : (symbol.moved f).name = symbol.name := by cases symbol <;> rfl
  unfold shadows
  rw [hkind, hname, lookup?_moved, Option.isSome_map]

theorem moved_declare (symbol : Symbol) :
    (t.declare symbol).moved f = (t.moved f).declare (symbol.moved f) := by
  cases symbol with
  | «variable» e => exact congrArg (fun vars => { t.moved f with vars }) (t.vars.map_declare _ e)
  | procedure e =>
    exact congrArg (fun procedures => { t.moved f with procedures }) (t.procedures.map_declare _ e)
  | struct e => rfl
  | impl e => exact congrArg (fun impls => { t.moved f with impls }) (t.impls.map_declare _ e)

end Tables

theorem defaultValue_moved (structs : SymbolTable StructDef) (pos : Position) (path : List String)
    (typeName : String) :
    (defaultValue structs pos path typeName).moved f =
      defaultValue structs (f pos) path typeName := by
  induction path, typeName using defaultValue.induct structs with
  | case1 path typeName text htext =>
    rw [defaultValue_of_builtin pos htext, defaultValue_of_builtin (f pos) htext]
    rfl
  | case2 path typeName hbuiltin hlookup =>
    rw [defaultValue_of_other pos hbuiltin (.inl hlookup),
      defaultValue_of_other (f pos) hbuiltin (.inl hlookup)]
    rfl
  | case3 path typeName hbuiltin e hlookup hpath =>
    rw [defaultValue_of_other pos hbuiltin (.inr hpath),
      defaultValue_of_other (f pos) hbuiltin (.inr hpath)]
    rfl
  | case4 path typeName hbuiltin e hlookup hpath ih =>
    rw [defaultValue_of_struct pos hbuiltin hlookup hpath,
      defaultValue_of_struct (f pos) hbuiltin hlookup hpath]
    simp only [Expr.moved_structInstance, Instance.map, List.map_map]
    congr 2
    refine List.map_congr_left fun field _ => ?_
    exact congrArg (Binding.mk field.name field.typeName) (ih field)

theorem TypedName.defaultBinding_moved (structs : SymbolTable StructDef) (pos : Position)
    (param : TypedName) :
    (param.defaultBinding structs pos).map (Expr.moved f) = param.defaultBinding structs (f pos) :=
  congrArg (Binding.mk param.name param.typeName) (defaultValue_moved f structs pos [] _)

end Tables
end ScriptFront
