import ScriptFront.Tree.Basic

/-!
# Fields of struct instances

A field is found by the first place at which its name is declared; the binding of the field stands
at the same place of the instance.  An instance may hold fewer bindings than the struct has
fields, and then the last fields have none.  Instances never change: rebinding a field makes a new
instance.

**Results.**

* `fieldIndex?_eq_some_iff`: a name is found at its first place.
* `withField?_isSome`: a field can be rebound exactly if it has a binding.
* `length_fields_of_withField?`: rebinding keeps the number of bindings.
-/

namespace ScriptFront

namespace StructDef

/-- The first place at which a field is declared. -/
def fieldIndex? (s : StructDef) (name : String) : Option Nat :=
  s.fields.findIdx? fun field => field.name = name

/-- The names of the fields, in order. -/
def fieldNames (s : StructDef) : List String :=
  s.fields.map TypedName.name

/-- The field at a place has the name, and no field in front of it has. -/
def DeclaresFirst (s : StructDef) (name : String) (i : Nat) : Prop :=
  s.fieldNames[i]? = some name ∧ ∀ j < i, s.fieldNames[j]? ≠ some name

instance (s : StructDef) (name : String) (i : Nat) : Decidable (s.DeclaresFirst name i) :=
  inferInstanceAs (Decidable (_ ∧ _))

/-- A name is found at its first place. -/
theorem fieldIndex?_eq_some_iff {s : StructDef} {name : String} {i : Nat} :
    s.fieldIndex? name = some i ↔ s.DeclaresFirst name i := by
  have hname (j : Nat) (hj : j < s.fields.length) :
      s.fieldNames[j]? = some name ↔ s.fields[j].name = name := by
    rw [fieldNames, List.getElem?_map, List.getElem?_eq_getElem hj, Option.map_some,
      Option.some.injEq]
  unfold fieldIndex? DeclaresFirst
  rw [List.findIdx?_eq_some_iff_getElem]
  constructor
  · rintro ⟨hi, hat, hbefore⟩
    refine ⟨(hname i hi).mpr (of_decide_eq_true hat), fun j hj hjname => ?_⟩
    exact hbefore j hj (decide_eq_true ((hname j (Nat.lt_trans hj hi)).mp hjname))
  · rintro ⟨hat, hbefore⟩
    have hi : i < s.fields.length := by
      obtain ⟨hlt, -⟩ := List.getElem?_eq_some_iff.mp hat
      simpa [fieldNames] using hlt
    refine ⟨hi, decide_eq_true ((hname i hi).mp hat), fun j hj hjname => ?_⟩
    exact hbefore j hj ((hname j (Nat.lt_trans hj hi)).mpr (of_decide_eq_true hjname))

end StructDef

namespace Binding

/-- The same name and type with another value. -/
def rebind {α : Type} (b : Binding α) (value : α) : Binding α :=
  { b with value := value }

end Binding

namespace Instance

variable {α : Type}

/-- The place of the binding of a field. -/
def slot? (v : Instance α) (name : String) : Option Nat :=
  (v.struct.fieldIndex? name).filter (· < v.fields.length)

/-- The binding of a field. -/
def field? (v : Instance α) (name : String) : Option (Binding α) :=
  (v.slot? name).bind (v.fields[·]?)

/-- The instance with one field rebound. -/
def withField? (v : Instance α) (name : String) (value : α) : Option (Instance α) :=
  (v.slot? name).map fun i => { v with fields := v.fields.modify i (·.rebind value) }

theorem slot?_lt {v : Instance α} {name : String} {i : Nat} (h : v.slot? name = some i) :
    i < v.fields.length := by
  unfold slot? at h
  rw [Option.filter_eq_some_iff] at h
  simpa using h.2

/-- A field can be rebound exactly if it has a binding. -/
theorem withField?_isSome (v : Instance α) (name : String) (value : α) :
    (v.withField? name value).isSome = (v.field? name).isSome := by
  unfold withField? field?
  cases h : v.slot? name with
  | none => rfl
  | some i =>
    have hi := slot?_lt h
    simp [hi]

theorem length_fields_of_withField? {v w : Instance α} {name : String} {value : α}
    (h : v.withField? name value = some w) : w.fields.length = v.fields.length := by
  unfold withField? at h
  obtain ⟨i, _, rfl⟩ := Option.map_eq_some_iff.mp h
  simp

end Instance

namespace Expr

/-- The struct instance that an expression stands for, through any chain of variables. -/
def instance? : Expr → Option (Instance Expr)
  | reference _ binding => binding.value.instance?
  | structInstance _ value => some value
  | _ => none

/--
The value to which a new variable is bound.  A reference to another variable gives the value of
that variable.
-/
def boundValue : Expr → Expr
  | reference _ binding => binding.value
  | e => e

end Expr
end ScriptFront
