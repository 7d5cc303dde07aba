import ScriptFront.Parse.Default
import ScriptFront.Parse.State

/-!
# Variables are bound to complete instances

An instance is complete if it has one binding for each field of its struct, in the same order and of
the same types.  Then a field is found exactly if the struct declares it.  The instances to which
the variables of a program are bound are all complete.

**Results.**

* `Instance.Complete.field?`: a field of a complete instance is the declared one.
* `Tables.Faithful` and what keeps it: declarations, new values and scopes.
-/

namespace ScriptFront

/-- The name and the type of a binding. -/
def Binding.typed {α : Type} (b : Binding α) : TypedName :=
  ⟨b.name, b.typeName⟩

namespace Instance

variable {α : Type}

/-- One binding for each field, in the order of their declaration. -/
def Complete (v : Instance α) : Prop :=
  v.fields.map Binding.typed = v.struct.fields

namespace Complete

theorem length_eq {v : Instance α} (h : v.Complete) : v.fields.length = v.struct.fields.length := by
  rw [← h, List.length_map]

/-- The field of a name is the first one that the struct declares. -/
theorem field? {v : Instance α} (h : v.Complete) (name : String) :
    (v.field? name).map Binding.typed = v.struct.fields.find? fun field => field.name = name := by
  have hslot : v.slot? name = v.struct.fieldIndex? name := by
    unfold slot?
    cases hindex : v.struct.fieldIndex? name with
    | none => rfl
    | some i =>
      have hi := (List.findIdx?_eq_some_iff_getElem.mp hindex).1
      rw [Option.filter_some, if_pos]
      rw [h.length_eq]
      simpa using hi
  unfold Instance.field?
  rw [hslot]
  unfold StructDef.fieldIndex?
  cases hindex : v.struct.fields.findIdx? fun field => field.name = name with
  | none =>
    rw [List.findIdx?_eq_none_iff] at hindex
    symm
    simpa using hindex
  | some i =>
    obtain ⟨hi, hname, hbefore⟩ := List.findIdx?_eq_some_iff_getElem.mp hindex
    have hi' : i < v.fields.length := by
      rw [h.length_eq]
      exact hi
    have htyped : v.fields[i].typed = v.struct.fields[i] := by
      have hget := congrArg (fun fields => fields[i]?) h
      simp only [List.getElem?_map, List.getElem?_eq_getElem hi', List.getElem?_eq_getElem hi,
        Option.map_some, Option.some.injEq] at hget
      exact hget
    rw [Option.bind_some, List.getElem?_eq_getElem hi', Option.map_some, htyped]
    symm
    rw [List.find?_eq_some_iff_getElem]
    exact ⟨hname, i, hi, rfl, fun j hj => by simpa using hbefore j hj⟩

theorem name_of_field? {v : Instance α} (h : v.Complete) {name : String} {b : Binding α}
    (hfield : v.field? name = some b) : b.name = name := by
  have hfind := h.field? name
  rw [hfield, Option.map_some] at hfind
  have hname : b.typed.name = name := by simpa using List.find?_some hfind.symm
  exact hname

/-- A complete instance stays complete when a field is bound to another value. -/
theorem withField? {v : Instance α} (h : v.Complete) (name : String) (value : α) :
    ((v.withField? name value).getD v).Complete ∧
      ((v.withField? name value).getD v).struct = v.struct := by
  unfold Instance.withField?
  cases v.slot? name with
  | none => exact ⟨h, rfl⟩
  | some i =>
    refine ⟨?_, rfl⟩
    have hmodify : (v.fields.modify i (·.rebind value)).map Binding.typed =
        v.fields.map Binding.typed := by
      refine List.ext_getElem? fun j => ?_
      rw [List.getElem?_map, List.getElem?_map, List.getElem?_modify]
      cases v.fields[j]? with
      | none => rfl
      | some b =>
        by_cases hij : i = j
        · simp [hij, Binding.rebind, Binding.typed]
        · simp [hij]
    unfold Complete
    simp only [Option.map_some, Option.getD_some]
    rw [hmodify]
    exact h

end Complete
end Instance

namespace Expr

/-- If the expression stands for an instance, it is complete. -/
def Faithful (e : Expr) : Prop :=
  ∀ v, e.instance? = some v → v.Complete

theorem faithful_of_none {e : Expr} (h : e.instance? = none) : e.Faithful := by
  intro v hv
  rw [h] at hv
  cases hv

theorem faithful_structInstance {pos : Position} {v : Instance Expr} (h : v.Complete) :
    (structInstance pos v).Faithful := by
  intro w hw
  rw [instance?, Option.some.injEq] at hw
  rw [← hw]
  exact h

theorem faithful_reference {pos : Position} {b : Binding Expr} (h : b.value.Faithful) :
    (reference pos b).Faithful := by
  intro w hw
  rw [instance?] at hw
  exact h w hw

/-- A new variable stands for the same instance as the expression that it is bound to. -/
theorem instance?_boundValue (e : Expr) : e.boundValue.instance? = e.instance? := by
  cases e <;> simp [boundValue, instance?]

theorem Faithful.boundValue {e : Expr} (h : e.Faithful) : e.boundValue.Faithful := by
  intro v hv
  rw [instance?_boundValue] at hv
  exact h v hv

end Expr

/-- The struct of the instance that a type has as its default value. -/
def defaultStruct? (structs : SymbolTable StructDef) (typeName : String) : Option StructDef :=
  match (LiteralType.ofTypeName typeName).defaultText? with
  | some _ => none
  | none => (structs.lookup? typeName).map Entry.decl

theorem defaultValue_instance? (structs : SymbolTable StructDef) (pos : Position)
    (typeName : String) :
    ((defaultValue structs pos [] typeName).instance?).map Instance.struct =
      defaultStruct? structs typeName := by
  unfold defaultValue defaultStruct?
  cases (LiteralType.ofTypeName typeName).defaultText? with
  | some text => rfl
  | none =>
    simp only
    split
    · rename_i hnone
      rw [hnone]
      rfl
    · rename_i e hsome
      rw [hsome, dif_neg List.not_mem_nil]
      rfl

theorem faithful_defaultValue (structs : SymbolTable StructDef) (pos : Position)
    (path : List String) (typeName : String) :
    (defaultValue structs pos path typeName).Faithful := by
  unfold defaultValue
  split
  · exact Expr.faithful_of_none rfl
  · split
    · exact Expr.faithful_of_none rfl
    · split
      · exact Expr.faithful_of_none rfl
      · refine Expr.faithful_structInstance ?_
        unfold Instance.Complete
        rw [List.map_map]
        exact List.map_id _

namespace Tables

/-- The variables are bound to complete instances, if to instances. -/
def Faithful (t : Tables) : Prop :=
  ∀ e ∈ t.vars.entries, e.decl.value.Faithful

theorem faithful_empty : ({} : Tables).Faithful :=
  nofun

namespace Faithful

/-- A new variable. -/
theorem declare {t : Tables} (h : t.Faithful) (symbol : Symbol)
    (hvalue : ∀ e, symbol = .variable e → e.decl.value.Faithful) : (t.declare symbol).Faithful := by
  cases symbol with
  | «variable» e =>
    intro f hf
    rcases List.mem_append.mp hf with hf | hf
    · exact h f hf
    · rw [List.mem_singleton.mp hf]
      exact hvalue e rfl
  | procedure e => exact h
  | struct e => exact h
  | impl e => exact h

end Faithful
end Tables

namespace State

section Bound

/-! What holds of the values of all variables, when one of them is bound anew or a scope is opened
or closed. -/

variable {P : Expr → Prop} {s : State} (h : ∀ e ∈ s.tables.vars.entries, P e.decl.value)
include h

theorem forall_rebind (e : Entry (Binding Expr)) {value : Expr} (hvalue : P value) :
    ∀ f ∈ (s.rebind e value).tables.vars.entries, P f.decl.value := by
  intro f hf
  obtain ⟨g, hg, rfl⟩ := List.mem_map.mp hf
  split
  · exact hvalue
  · exact h g hg

theorem forall_openScope {bindings : List (Binding Expr)} (hbindings : ∀ b ∈ bindings, P b.value) :
    ∀ f ∈ (s.openScope bindings).tables.vars.entries, P f.decl.value := by
  intro f hf
  rw [show (s.openScope bindings).tables.vars.entries =
    s.tables.vars.entries ++ s.entriesFor bindings from SymbolTable.entries_declareAll _ _] at hf
  rcases List.mem_append.mp hf with hf | hf
  · exact h f hf
  · obtain ⟨⟨b, i⟩, hb, rfl⟩ := List.mem_map.mp hf
    exact hbindings b (List.fst_mem_of_mem_zipIdx hb)

theorem forall_closeScope (entries : List (Entry (Binding Expr))) :
    ∀ f ∈ (s.closeScope entries).tables.vars.entries, P f.decl.value :=
  fun f hf => h f ((SymbolTable.entries_eraseAll_sublist _ entries).subset hf)

end Bound

theorem faithful_rebind {s : State} (h : s.tables.Faithful) (e : Entry (Binding Expr))
    {value : Expr} (hvalue : value.Faithful) : (s.rebind e value).tables.Faithful :=
  forall_rebind h e hvalue

theorem faithful_openScope {s : State} (h : s.tables.Faithful) {bindings : List (Binding Expr)}
    (hbindings : ∀ b ∈ bindings, b.value.Faithful) :
    (s.openScope bindings).tables.Faithful :=
  forall_openScope h hbindings

theorem faithful_closeScope {s : State} (h : s.tables.Faithful)
    (entries : List (Entry (Binding Expr))) : (s.closeScope entries).tables.Faithful :=
  forall_closeScope h entries

end State
end ScriptFront
