import ScriptFront.Proofs.Surface.Instances
import Mathlib.Data.List.Dedup
import Mathlib.Data.List.Perm.Subperm

/-!
# What stands where in a default value

The default value of a struct has a default value in each field, so that structs may stand inside of
each other, but none of them inside of itself.  Each place in a default value has a type and a way
to it from the root, and these two decide what stands there.

**Algorithm.** Every place holds the default value of its type inside of the structs on the way
(`Sits`).  A step into a field goes from one such place to another one.

**Results.**

* `sits_of_placedIn`: what is placed in a default value is a default value itself.
* `defaultAt_defaultValue`: the three things that a default value can be.
* `defaultValue_placed`: what stands at each place, and the ways to the places.
-/

namespace ScriptFront

/-- The builtin types, each with the text and the type of the literal that is its default value. -/
def builtinLiterals : List (String × String × LiteralType) :=
  [("char", "", .char), ("bool", "false", .bool), ("i32", "0", .number), ("f32", "0.0", .float),
   ("String", "", .string)]

/-- The name of a builtin type. -/
def IsBuiltin (typeName : String) : Prop :=
  ∃ text lit, (typeName, text, lit) ∈ builtinLiterals

/--
An expression has a place in a value: the root, or a field of an instance that has a place in it.
A place has a type, and a way to it: the structs around it, from the inside.
-/
inductive Expr.PlacedIn (root : Expr) (rootType : String) : List String → String → Expr → Prop
  | root : PlacedIn root rootType [] rootType root
  | field {path : List String} {typeName : String} {pos : Position} {v : Instance Expr}
      {b : Binding Expr} (hv : PlacedIn root rootType path typeName (.structInstance pos v))
      (hb : b ∈ v.fields) : PlacedIn root rootType (v.struct.name :: path) b.typeName b.value

/-- What stands for a type inside of the structs on a way: a literal, or an instance. -/
inductive DefaultAt (structs : SymbolTable StructDef) (pos : Position) (path : List String)
    (typeName : String) : Expr → Prop
  | builtin {text : String} {lit : LiteralType} (h : (typeName, text, lit) ∈ builtinLiterals) :
    DefaultAt structs pos path typeName (.literal pos text lit)
  /-- An instance of the first struct of the name, with a binding for each of its fields. -/
  | struct {e : Entry StructDef} {v : Instance Expr} (hbuiltin : ¬ IsBuiltin typeName)
      (holdest : structs.IsOldest typeName e) (hpath : typeName ∉ path)
      (hstruct : v.struct = e.decl) (hcomplete : v.Complete) :
    DefaultAt structs pos path typeName (.structInstance pos v)
  /-- A type that is not declared, or the type of one of the instances around the place. -/
  | other (hbuiltin : ¬ IsBuiltin typeName) (h : typeName ∉ structs.names ∨ typeName ∈ path) :
    DefaultAt structs pos path typeName (.literal pos "" .none)

section Builtins

variable {typeName text : String} {lit : LiteralType}

theorem mem_builtinLiterals_iff : (typeName, text, lit) ∈ builtinLiterals ↔
    LiteralType.ofTypeName typeName = lit ∧ lit.defaultText? = some text := by
  constructor
  · intro h
    simp only [builtinLiterals, List.mem_cons, Prod.mk.injEq, List.not_mem_nil, or_false] at h
    rcases h with ⟨rfl, rfl, rfl⟩ | ⟨rfl, rfl, rfl⟩ | ⟨rfl, rfl, rfl⟩ | ⟨rfl, rfl, rfl⟩ |
      ⟨rfl, rfl, rfl⟩ <;> exact ⟨rfl, rfl⟩
  · rintro ⟨rfl, htext⟩
    unfold LiteralType.ofTypeName at htext ⊢
    split at htext <;> cases htext <;> decide

theorem not_isBuiltin_iff :
    ¬ IsBuiltin typeName ↔ (LiteralType.ofTypeName typeName).defaultText? = none := by
  unfold IsBuiltin
  simp only [mem_builtinLiterals_iff]
  cases htext : (LiteralType.ofTypeName typeName).defaultText? with
  | none => simp [htext]
  | some text => simp [htext]

end Builtins

section Places

variable {structs : SymbolTable StructDef} {pos : Position} {path : List String}
  {typeName : String} {e : Expr}

/-- The three things that a default value can be. -/
theorem defaultAt_defaultValue :
    DefaultAt structs pos path typeName (defaultValue structs pos path typeName) := by
  cases htext : (LiteralType.ofTypeName typeName).defaultText? with
  | some text =>
    rw [defaultValue_of_builtin pos htext]
    exact .builtin (mem_builtinLiterals_iff.mpr ⟨rfl, htext⟩)
  | none =>
    have hbuiltin := not_isBuiltin_iff.mpr htext
    by_cases hpath : typeName ∈ path
    · rw [defaultValue_of_other pos htext (.inr hpath)]
      exact .other hbuiltin (.inr hpath)
    · cases hlookup : structs.lookup? typeName with
      | none =>
        rw [defaultValue_of_other pos htext (.inl hlookup)]
        exact .other hbuiltin (.inl (SymbolTable.lookup?_eq_none_iff.mp hlookup))
      | some entry =>
        rw [defaultValue_of_struct pos htext hlookup hpath]
        refine .struct hbuiltin (SymbolTable.lookup?_eq_some_iff.mp hlookup) hpath rfl ?_
        unfold Instance.Complete
        rw [List.map_map]
        exact List.map_id _

/-- What is known of each place: the default value of its type is there, and how it is reached. -/
structure Sits (structs : SymbolTable StructDef) (pos : Position) (path : List String)
    (typeName : String) (e : Expr) : Prop where
  value : e = defaultValue structs pos path typeName
  nodup : path.Nodup
  declared : path ⊆ structs.names

/-- A step into a field of an instance. -/
theorem Sits.field {p : Position} {v : Instance Expr}
    (h : Sits structs pos path typeName (.structInstance p v)) {b : Binding Expr}
    (hb : b ∈ v.fields) : Sits structs pos (v.struct.name :: path) b.typeName b.value := by
  have hat : DefaultAt structs pos path typeName (.structInstance p v) :=
    h.value ▸ defaultAt_defaultValue
  cases hat with
  | @struct entry _ hbuiltin holdest hpath hstruct _ =>
    have hlookup := SymbolTable.lookup?_eq_some_iff.mpr holdest
    have hvalue := h.value
    rw [defaultValue_of_struct pos (not_isBuiltin_iff.mp hbuiltin) hlookup hpath] at hvalue
    obtain ⟨-, rfl⟩ := Expr.structInstance.inj hvalue
    have hname : entry.decl.name = typeName := holdest.1
    obtain ⟨field, -, rfl⟩ := List.mem_map.mp hb
    refine ⟨?_, ?_, ?_⟩
    · rw [hname]
    · rw [hname]
      exact List.nodup_cons.mpr ⟨hpath, h.nodup⟩
    · refine List.cons_subset.mpr ⟨?_, h.declared⟩
      exact List.mem_map_of_mem (SymbolTable.mem_of_lookup? hlookup)

/-- What is placed in a default value is the default value of its type. -/
theorem sits_of_placedIn {rootType : String}
    (h : (defaultValue structs pos [] rootType).PlacedIn rootType path typeName e) :
    Sits structs pos path typeName e := by
  induction h with
  | root => exact ⟨rfl, List.nodup_nil, List.nil_subset _⟩
  | field _ hb ih => exact ih.field hb

/-- A literal without a value stands for the types that are neither builtin nor gone into. -/
theorem DefaultAt.none_iff (h : DefaultAt structs pos path typeName e) :
    (∃ p text, e = .literal p text .none) ↔
      ¬ IsBuiltin typeName ∧ ¬ (typeName ∈ structs.names ∧ typeName ∉ path) := by
  cases h with
  | @builtin text lit hbuiltin =>
    have hlit : lit ≠ .none := by
      rintro rfl
      cases (mem_builtinLiterals_iff.mp hbuiltin).2
    simp only [Expr.literal.injEq, hlit, and_false, exists_const, false_iff, not_and]
    exact fun hnot => absurd ⟨text, lit, hbuiltin⟩ hnot
  | @struct entry v hbuiltin holdest hpath =>
    have hlookup := SymbolTable.lookup?_eq_some_iff.mpr holdest
    have hdeclared : typeName ∈ structs.names := by
      rw [← holdest.1]
      exact List.mem_map_of_mem (SymbolTable.mem_of_lookup? hlookup)
    simp [hdeclared, hpath]
  | other hbuiltin h =>
    refine iff_of_true ⟨pos, "", rfl⟩ ⟨hbuiltin, ?_⟩
    rintro ⟨hdeclared, hpath⟩
    exact h.elim (absurd hdeclared) hpath

end Places

/--
The default value of any type is made of literals and instances.  No way from its root goes through
two structs of one name, so no way is longer than there are names of structs.  At each place stands
the literal of a builtin type, or an instance of the first struct of its name with a binding for
each field in their order, or else a literal without a value: exactly for the types that are neither
builtin nor the name of a struct that is not yet on the way.
-/
theorem defaultValue_placed (structs : SymbolTable StructDef) (pos : Position) (rootType : String)
    {path : List String} {typeName : String} {e : Expr}
    (h : (defaultValue structs pos [] rootType).PlacedIn rootType path typeName e) :
    path.Nodup ∧ path ⊆ structs.names ∧ path.length ≤ structs.names.dedup.length ∧
      DefaultAt structs pos path typeName e ∧
      ((∃ p text, e = .literal p text .none) ↔
        ¬ IsBuiltin typeName ∧ ¬ (typeName ∈ structs.names ∧ typeName ∉ path)) := by
  obtain ⟨hvalue, hnodup, hdeclared⟩ := sits_of_placedIn h
  have hat : DefaultAt structs pos path typeName e := hvalue ▸ defaultAt_defaultValue
  have hsubperm : path.Subperm structs.names.dedup :=
    hnodup.subperm fun name hname => List.mem_dedup.mpr (hdeclared hname)
  exact ⟨hnodup, hdeclared, hsubperm.length_le, hat, hat.none_iff⟩

/-- Two structs that hold each other, one of which is declared again. -/
theorem defaultValue_placed_cyclic :
    let structs : SymbolTable StructDef :=
      ⟨[⟨0, "A", [⟨"n", "i32"⟩, ⟨"b", "B"⟩]⟩, ⟨1, "B", [⟨"a", "A"⟩]⟩, ⟨2, "A", [⟨"x", "bool"⟩]⟩]⟩
    let pos : Position := ⟨"p", 0, 0⟩
    let inner : Expr := .literal pos "" .none
    (defaultValue structs pos [] "A").PlacedIn "A" ["B", "A"] "A" inner ∧
      ["B", "A"].length ≤ structs.names.dedup.length ∧
      DefaultAt structs pos ["B", "A"] "A" inner := by
  intro structs pos inner
  let second : Instance Expr := ⟨⟨"B", [⟨"a", "A"⟩]⟩, [⟨"a", "A", inner⟩]⟩
  let first : Instance Expr := ⟨⟨"A", [⟨"n", "i32"⟩, ⟨"b", "B"⟩]⟩,
    [⟨"n", "i32", .literal pos "0" .number⟩, ⟨"b", "B", .structInstance pos second⟩]⟩
  have hroot : defaultValue structs pos [] "A" = .structInstance pos first := by
    cbv
  have hplace : (defaultValue structs pos [] "A").PlacedIn "A" ["B", "A"] "A" inner := by
    rw [hroot]
    have hb : (⟨"b", "B", .structInstance pos second⟩ : Binding Expr) ∈ first.fields :=
      List.mem_cons_of_mem _ List.mem_cons_self
    have ha : (⟨"a", "A", inner⟩ : Binding Expr) ∈ second.fields := List.mem_cons_self
    exact (Expr.PlacedIn.root.field hb).field ha
  obtain ⟨_, _, hlength, hat, _⟩ := defaultValue_placed structs pos "A" hplace
  exact ⟨hplace, hlength, hat⟩

end ScriptFront
