import ScriptFront.Symbol.Tables

/-!
# Default values

A parameter is bound to a default value while the body of its procedure is read.  A builtin type
has a literal of its own; a struct has the instance whose fields have their own default values.
A struct inside of itself, and a type that is not declared, have the literal without a value.

**Algorithm.** The struct names on the way from the root are kept; each is the name of a declared
struct and none comes twice, so the way is no longer than the table of structs.

**Results.**

* `freshNames_lt`: going into a struct leaves fewer names to go into.
* `defaultValue_of_builtin`, `defaultValue_of_struct`, `defaultValue_of_other`: the three cases.
-/

namespace ScriptFront

namespace LiteralType

/-- The text of the default literal of a builtin type. -/
def defaultText? : LiteralType → Option String
  | none => Option.none
  | char => some ""
  | bool => some "false"
  | number => some "0"
  | float => some "0.0"
  | string => some ""

end LiteralType

/-- The names of declared structs that are not yet on the way. -/
def freshNames (structs : SymbolTable StructDef) (path : List String) : List String :=
  structs.names.filter fun name => name ∉ path

theorem freshNames_lt {structs : SymbolTable StructDef} {path : List String} {name : String}
    {e : Entry StructDef} (hlookup : structs.lookup? name = some e) (hpath : name ∉ path) :
    (freshNames structs (name :: path)).length < (freshNames structs path).length := by
  have hmem : name ∈ freshNames structs path := by
    have hfound := List.find?_some hlookup
    have hin := List.mem_of_find?_eq_some hlookup
    simp only [decide_eq_true_eq] at hfound
    simp only [freshNames, List.mem_filter, decide_eq_true_eq]
    refine ⟨?_, hpath⟩
    rw [← hfound]
    exact List.mem_map.mpr ⟨e, hin, rfl⟩
  have hsplit : freshNames structs (name :: path) =
      (freshNames structs path).filter fun n => n ≠ name := by
    simp only [freshNames, List.filter_filter]
    congr 1
    funext n
    simp only [List.mem_cons, not_or, Bool.decide_and]
  rw [hsplit]
  refine Nat.lt_of_le_of_ne (List.length_filter_le _ _) ?_
  intro heq
  have hall := (List.length_filter_eq_length_iff.mp heq) name hmem
  simp at hall

/-- The default value of a type whose root stands at `pos`, inside of the structs in `path`. -/
def defaultValue (structs : SymbolTable StructDef) (pos : Position) (path : List String)
    (typeName : String) : Expr :=
  match (LiteralType.ofTypeName typeName).defaultText? with
  | some text => .literal pos text (LiteralType.ofTypeName typeName)
  | none =>
    match _h : structs.lookup? typeName with
    | none => .literal pos "" .none
    | some e =>
      if _hpath : typeName ∈ path then .literal pos "" .none
      else
        .structInstance pos ⟨e.decl, e.decl.fields.map fun field =>
          ⟨field.name, field.typeName,
            defaultValue structs pos (typeName :: path) field.typeName⟩⟩
termination_by (freshNames structs path).length
decreasing_by exact freshNames_lt (by assumption) (by assumption)

section Cases

variable {structs : SymbolTable StructDef} {path : List String} {typeName : String}
  (pos : Position)

theorem defaultValue_of_builtin {text : String}
    (htext : (LiteralType.ofTypeName typeName).defaultText? = some text) :
    defaultValue structs pos path typeName =
      .literal pos text (LiteralType.ofTypeName typeName) := by
  rw [defaultValue, htext]

theorem defaultValue_of_struct {e : Entry StructDef}
    (hbuiltin : (LiteralType.ofTypeName typeName).defaultText? = none)
    (hlookup : structs.lookup? typeName = some e) (hpath : typeName ∉ path) :
    defaultValue structs pos path typeName =
      .structInstance pos ⟨e.decl, e.decl.fields.map fun field =>
        ⟨field.name, field.typeName,
          defaultValue structs pos (typeName :: path) field.typeName⟩⟩ := by
  rw [defaultValue, hbuiltin, hlookup]
  simp only [dif_neg hpath]

/-- A type that is not declared, or whose struct is on the way. -/
theorem defaultValue_of_other
    (hbuiltin : (LiteralType.ofTypeName typeName).defaultText? = none)
    (hother : structs.lookup? typeName = none ∨ typeName ∈ path) :
    defaultValue structs pos path typeName = .literal pos "" .none := by
  rw [defaultValue, hbuiltin]
  cases hlookup : structs.lookup? typeName with
  | none => rfl
  | some e =>
    have hpath : typeName ∈ path := by
      simpa [hlookup] using hother
    simp only [dif_pos hpath]

end Cases

/-- The binding of a parameter while the body of its procedure is read. -/
def TypedName.defaultBinding (structs : SymbolTable StructDef) (pos : Position)
    (param : TypedName) : Binding Expr :=
  ⟨param.name, param.typeName, defaultValue structs pos [] param.typeName⟩

end ScriptFront
