import ScriptFront.Proofs.Reading.Chains
import ScriptFront.Proofs.Reading.Declarations
import ScriptFront.Proofs.Rules.Basic
import ScriptFront.Proofs.Values.Fields

/-!
# Assignments of fields

An assignment of a field reads its target, then its value, and then binds the variable to the
instance that it had when the target was read, with the one field bound anew.

**Results.**

* `State.binding_assignField`: the variable after an assignment of one of its fields.
* `Parse.expr_of_target`: an assignment of a field is read with its target and its value.
* `Parse.expr_of_access`: the value of a field is read from the table.
-/

namespace ScriptFront

namespace SymbolTable

variable {α : Type}

/-- A change that keeps the names changes what is found in its place. -/
theorem lookup?_update [Named α] (t : SymbolTable α) (id : Nat) {f : α → α}
    (hname : ∀ d, Named.name (f d) = Named.name d) (name : String) :
    (t.update id f).lookup? name =
      (t.lookup? name).map fun e => if e.id = id then { e with decl := f e.decl } else e := by
  unfold lookup? update
  rw [List.find?_map]
  congr 2
  funext e
  simp only [Function.comp]
  split
  · rw [hname]
  · rfl

end SymbolTable

namespace State

variable {s t u : State} {name field : Token} {e : Entry (Binding Expr)} {v : Instance Expr}
  {b : Binding Expr} {value : Expr}

namespace ReadsTarget

theorem tables_eq (h : s.ReadsTarget name field e v b t) : t.tables = s.tables := by
  obtain ⟨dot, eq, rest, _, _, _, rfl⟩ := h.tokens
  rfl

theorem nextId_eq (h : s.ReadsTarget name field e v b t) : t.nextId = s.nextId := by
  obtain ⟨dot, eq, rest, _, _, _, rfl⟩ := h.tokens
  rfl

theorem numbered (h : s.ReadsTarget name field e v b t) (hs : s.Numbered) : t.Numbered :=
  (Extends.of_same hs h.tables_eq h.nextId_eq).numbered

theorem mem (h : s.ReadsTarget name field e v b t) : e ∈ s.tables.vars.entries :=
  SymbolTable.mem_of_lookup? h.lookup

theorem length_lt (h : s.ReadsTarget name field e v b t) : t.unread.length < s.unread.length := by
  obtain ⟨dot, eq, rest, hunread, _, _, rfl⟩ := h.tokens
  rw [hunread]
  simp only [consumeAll, List.length_cons]
  omega

/-- A value stands behind the sign of an assignment. -/
theorem awaits (h : s.ReadsTarget name field e v b t) : t.Awaits := by
  obtain ⟨dot, eq, rest, _, _, heq, rfl⟩ := h.tokens
  exact ⟨eq, rfl, by rw [heq]; rfl⟩

/-- While the value of an assignment is read, the variable stays in its table. -/
theorem exists_entry (h : s.ReadsTarget name field e v b t) (hs : s.Numbered)
    (hvalue : Parse.expr t = .ok value u) :
    u.Numbered ∧ ∃ f ∈ u.tables.vars.entries, f.id = e.id ∧ f.decl.name = e.decl.name ∧
      u.tables.vars.get? e.id = some f.decl := by
  have ht := h.numbered hs
  have htu : t.Extends u := StepLaw.relates_expr.ok (L := declarationLaw) trivial hvalue ht
  refine ⟨htu.numbered, htu.exists_entry ?_⟩
  rw [h.tables_eq]
  exact h.mem

end ReadsTarget

/-- After an assignment its variable is bound to the old instance with one field bound anew. -/
theorem binding_assignField (hu : (u.tables.vars.get? e.id).isSome) (v : Instance Expr)
    (field : String) (value : Expr) :
    (u.assignField e v field value).binding e =
      (u.binding e).rebind
        (.structInstance (u.binding e).value.pos ((v.withField? field value).getD v)) := by
  obtain ⟨d, hd⟩ := Option.isSome_iff_exists.mp hu
  unfold assignField rebind
  simp only [binding, SymbolTable.get?_update, hd, Option.map_some, Option.getD_some]

end State

namespace Parse

variable {s t u : State} {name field : Token} {e : Entry (Binding Expr)} {v : Instance Expr}
  {b : Binding Expr} {value : Expr}

/-- What follows the name of a variable and a point. -/
theorem expr_of_point {point : Token} {rest : List Token}
    (hunread : s.unread = name :: point :: rest) (hk : name.kind = .identifier)
    (hpoint : point.kind = .dot) (hlookup : s.tables.vars.lookup? name.lexeme = some e) :
    expr s = fieldUse expr name.pos e (s.consumeAll [name, point] rest) := by
  have hnext : (s.consume name (point :: rest)).unread = point :: rest := rfl
  rw [expr_of_declared hk hlookup hunread]
  unfold variableUse
  rw [bind_of_ok (accept_of_ne hnext (by rw [hpoint]; decide))]
  simp only [Bool.false_eq_true, if_false]
  rw [bind_of_ok (accept_of_eq hnext hpoint)]
  rfl

/-- An assignment of a field is read with its target and its value. -/
theorem expr_of_target (h : s.ReadsTarget name field e v b t) (hvalue : expr t = .ok value u) :
    expr s = .ok (.fieldAssign name.pos ((u.assignField e v field.lexeme value).binding e)
      (b.rebind value) value) (u.assignField e v field.lexeme value) := by
  obtain ⟨point, eq, rest, hunread, hpoint, heq, rfl⟩ := h.tokens
  rw [expr_of_point hunread h.name_kind hpoint h.lookup]
  unfold fieldUse
  rw [bind_of_ok (expect_of_cons rfl h.field_kind)]
  simp only [h.value, h.field_eq]
  rw [bind_of_ok (accept_of_eq rfl heq)]
  simp only [if_true]
  exact bind_of_ok hvalue

/-- The value of a field is the one of the instance to which the variable is bound. -/
theorem expr_of_access {point : Token} {rest : List Token}
    (hunread : s.unread = name :: point :: field :: rest) (hk : name.kind = .identifier)
    (hpoint : point.kind = .dot) (hk' : field.kind = .identifier)
    (hrest : ∀ t ∈ rest.head?, t.kind ≠ .assign)
    (hlookup : s.tables.vars.lookup? name.lexeme = some e)
    (hvalue : e.decl.value.instance? = some v) (hfield : v.field? field.lexeme = some b) :
    expr s = foldOperators (.fieldAccess name.pos e.decl b)
      (s.consumeAll [name, point, field] rest) := by
  have haccept : accept .assign (s.consumeAll [name, point, field] rest) =
      .ok false (s.consumeAll [name, point, field] rest) := by
    cases rest with
    | nil => exact accept_of_nil rfl
    | cons t rest => exact accept_of_ne rfl (hrest t rfl)
  rw [expr_of_point hunread hk hpoint hlookup]
  unfold fieldUse
  rw [bind_of_ok (expect_of_cons rfl hk')]
  simp only [hvalue, hfield]
  exact bind_of_ok haccept

end Parse
end ScriptFront
