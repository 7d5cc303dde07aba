import ScriptFront.Proofs.Rules.Expressions
import ScriptFront.Proofs.Values.Assignments
import Mathlib.Data.List.Forall2

/-!
# What reading an expression does to the tables

While an expression is read, tokens are read and fields are assigned, and nothing else happens.  A
course is an account of it: it lists the assignments that are completed between two states, in the
order in which they are completed, each by the identity of its variable and the name of the field.

**Results.**

* `Course.changes`: a course changes the assigned fields of the variables and nothing else.
* `Course.exists_assigned`: the variables behind a course are those in front of it after its
  assignments, one after the other.
* `course_of_expr`: reading an expression takes a course, whether it succeeds or fails.
-/

namespace ScriptFront

/-- Reading goes from one state to another one by reading tokens and by completing assignments. -/
inductive Course : State → List (Nat × String) → State → Prop where
  | refl (s : State) : Course s [] s
  | token {s : State} {t : Token} {rest : List Token} :
    s.unread = t :: rest → Course s [] (s.consume t rest)
  | trans {s t u : State} {ds es : List (Nat × String)} :
    Course s ds t → Course t es u → Course s (ds ++ es) u
  /-- What the value of an assignment assigns is completed first. -/
  | assign {s t u : State} {name field : Token} {e : Entry (Binding Expr)} {v : Instance Expr}
    {b : Binding Expr} {value : Expr} {ds : List (Nat × String)} :
    s.ReadsTarget name field e v b t → Parse.expr t = .ok value u → Course t ds u →
    Course s (ds ++ [(e.id, field.lexeme)]) (u.assignField e v field.lexeme value)

/-- An assignment of a field: its variable and the instance to which this was bound when the target
was read, the name of the field, and the value. -/
structure Assignment where
  owner : Entry (Binding Expr)
  read : Instance Expr
  field : String
  value : Expr

namespace Assignment

/-- The identity of the variable, and the field of it that is assigned. -/
def target (a : Assignment) : Nat × String :=
  (a.owner.id, a.field)

/-- The variables after the assignment: its own is bound to the instance that was read, with the
field bound anew. -/
def apply (vars : SymbolTable (Binding Expr)) (a : Assignment) : SymbolTable (Binding Expr) :=
  let current := (vars.get? a.owner.id).getD a.owner.decl
  vars.update a.owner.id
    (·.rebind (.structInstance current.value.pos ((a.read.withField? a.field a.value).getD a.read)))

end Assignment

section Changes

/--
A variable before and after the given fields have been assigned.  It keeps its identity, name and
type.  If no field of it is assigned, it keeps its value; otherwise it was bound to an instance, and
it is bound to one of the same struct, in which all other fields are as they were.
-/
structure Kept (ds : List (Nat × String)) (e f : Entry (Binding Expr)) : Prop where
  id : f.id = e.id
  name : f.decl.name = e.decl.name
  typeName : f.decl.typeName = e.decl.typeName
  value : (∀ field, (e.id, field) ∉ ds) → f.decl.value = e.decl.value
  isSome : (∃ field, (e.id, field) ∈ ds) → e.decl.value.instance?.isSome
  fields : ∀ v, e.decl.value.instance? = some v → ∃ w, f.decl.value.instance? = some w ∧
    w.struct = v.struct ∧ ∀ field, (e.id, field) ∉ ds → w.field? field = v.field? field

/-- Between two states the given fields have been assigned, and the tables are the same else. -/
structure Changes (ds : List (Nat × String)) (s t : State) : Prop where
  nextId : t.nextId = s.nextId
  procedures : t.tables.procedures = s.tables.procedures
  structs : t.tables.structs = s.tables.structs
  impls : t.tables.impls = s.tables.impls
  vars : List.Forall₂ (Kept ds) s.tables.vars.entries t.tables.vars.entries

variable {ds es : List (Nat × String)} {s t u : State}

namespace Kept

variable {e f g : Entry (Binding Expr)}

theorem refl (e : Entry (Binding Expr)) : Kept [] e e :=
  ⟨rfl, rfl, rfl, fun _ => rfl, nofun, fun v hv => ⟨v, hv, rfl, fun _ _ => rfl⟩⟩

theorem trans (hef : Kept ds e f) (hfg : Kept es f g) : Kept (ds ++ es) e g where
  id := hfg.id.trans hef.id
  name := hfg.name.trans hef.name
  typeName := hfg.typeName.trans hef.typeName
  value h := by
    have hvalue := hfg.value fun field hfield =>
      h field (List.mem_append_right ds (hef.id ▸ hfield))
    rw [hvalue]
    exact hef.value fun field hfield => h field (List.mem_append_left es hfield)
  isSome := by
    rintro ⟨field, hfield⟩
    by_cases hassigned : ∃ field, (e.id, field) ∈ ds
    · exact hef.isSome hassigned
    · rw [← hef.value fun field hfield => hassigned ⟨field, hfield⟩]
      refine hfg.isSome ⟨field, ?_⟩
      rw [hef.id]
      exact (List.mem_append.mp hfield).resolve_left fun h => hassigned ⟨field, h⟩
  fields v hv := by
    obtain ⟨w, hw, hstruct, hsame⟩ := hef.fields v hv
    obtain ⟨x, hx, hstruct', hsame'⟩ := hfg.fields w hw
    refine ⟨x, hx, hstruct'.trans hstruct, fun field hfield => ?_⟩
    rw [List.mem_append, not_or] at hfield
    rw [hsame' field (hef.id ▸ hfield.2), hsame field hfield.1]

/-- Only the fields that are assigned matter, not when and how often. -/
theorem eq_of_nil (h : Kept [] e f) : f = e := by
  obtain ⟨id, decl⟩ := e
  obtain ⟨id', decl'⟩ := f
  obtain ⟨name, typeName, value⟩ := decl
  obtain ⟨name', typeName', value'⟩ := decl'
  obtain rfl : id' = id := h.id
  obtain rfl : name' = name := h.name
  obtain rfl : typeName' = typeName := h.typeName
  obtain rfl : value' = value := h.value nofun
  rfl

/--
An assignment of a field binds its variable to the instance that it had when the target was read,
so what its value has assigned in the meantime does not matter for the other fields.
-/
theorem assign {v : Instance Expr} (hef : Kept ds e f) (hv : e.decl.value.instance? = some v)
    (pos : Position) (field : String) (value : Expr) :
    Kept (ds ++ [(e.id, field)]) e
      ⟨f.id, f.decl.rebind (.structInstance pos ((v.withField? field value).getD v))⟩ where
  id := hef.id
  name := hef.name
  typeName := hef.typeName
  value h := absurd (List.mem_append_right ds List.mem_cons_self) (h field)
  isSome _ := by rw [hv]; rfl
  fields v' hv' := by
    obtain rfl : v = v' := Option.some.inj (hv.symm.trans hv')
    refine ⟨_, rfl, ?_, fun other hother => Instance.field?_withField?_of_ne ?_ value⟩
    · unfold Instance.withField?
      cases v.slot? field <;> rfl
    · rintro rfl
      exact hother (List.mem_append_right ds List.mem_cons_self)

/-- An assignment of another variable is one more assignment of the list. -/
theorem append_of_ne (hef : Kept ds e f) {id : Nat} {field : String} (hid : e.id ≠ id) :
    Kept (ds ++ [(id, field)]) e f := by
  have hmem : ∀ other, (e.id, other) ∈ ds ++ [(id, field)] ↔ (e.id, other) ∈ ds := by
    intro other
    rw [List.mem_append, List.mem_singleton, Prod.mk.injEq, or_iff_left fun h => hid h.1]
  refine ⟨hef.id, hef.name, hef.typeName, fun h => hef.value fun other => ?_, ?_, fun v hv => ?_⟩
  · rw [← hmem]
    exact h other
  · rintro ⟨other, hother⟩
    exact hef.isSome ⟨other, (hmem other).mp hother⟩
  · obtain ⟨w, hw, hstruct, hsame⟩ := hef.fields v hv
    refine ⟨w, hw, hstruct, fun other hother => hsame other ?_⟩
    rw [← hmem]
    exact hother

end Kept

namespace Changes

theorem of_tables (htables : t.tables = s.tables) (hid : t.nextId = s.nextId) :
    Changes [] s t where
  nextId := hid
  procedures := by rw [htables]
  structs := by rw [htables]
  impls := by rw [htables]
  vars := by
    rw [htables]
    exact List.forall₂_same.mpr fun e _ => .refl e

/-- Afterwards nothing has been written down. -/
theorem of_same (h : Changes ds s t) (htables : u.tables = t.tables) (hid : u.nextId = t.nextId) :
    Changes ds s u :=
  ⟨hid.trans h.nextId, htables ▸ h.procedures, htables ▸ h.structs, htables ▸ h.impls,
    htables ▸ h.vars⟩

theorem trans (hst : Changes ds s t) (htu : Changes es t u) : Changes (ds ++ es) s u where
  nextId := htu.nextId.trans hst.nextId
  procedures := htu.procedures.trans hst.procedures
  structs := htu.structs.trans hst.structs
  impls := htu.impls.trans hst.impls
  vars := by
    have append {xs ys zs : List (Entry (Binding Expr))} (h : List.Forall₂ (Kept ds) xs ys)
        (h' : List.Forall₂ (Kept es) ys zs) : List.Forall₂ (Kept (ds ++ es)) xs zs := by
      induction h generalizing zs with
      | nil =>
        cases h'
        exact .nil
      | cons hef _ ih =>
        cases h' with
        | cons hfg hrest => exact .cons (hef.trans hfg) (ih hrest)
    exact append hst.vars htu.vars

theorem varKeys_eq (h : Changes ds s t) : t.varKeys = s.varKeys := by
  have same {xs ys : List (Entry (Binding Expr))} (h : List.Forall₂ (Kept ds) xs ys) :
      ys.map (fun e => (e.id, e.decl.name)) = xs.map fun e => (e.id, e.decl.name) := by
    induction h with
    | nil => rfl
    | cons hef _ ih => rw [List.map_cons, List.map_cons, ih, hef.id, hef.name]
  exact same h.vars

theorem numbered (h : Changes ds s t) (hs : s.Numbered) : t.Numbered where
  vars := by
    rw [h.nextId]
    exact State.numbered_vars_of_keys hs.vars h.varKeys_eq
  impls := by
    rw [h.nextId, h.impls]
    exact hs.impls

/-- Without any assignment the tables are the same. -/
theorem tables_eq_of_nil (h : Changes [] s t) : t.tables = s.tables := by
  have hvars : s.tables.vars.entries = t.tables.vars.entries := by
    rw [← List.forall₂_eq_eq_eq]
    exact h.vars.imp fun _ _ hef => hef.eq_of_nil.symm
  show (⟨⟨t.tables.vars.entries⟩, t.tables.procedures, t.tables.structs, t.tables.impls⟩ : Tables) =
    ⟨⟨s.tables.vars.entries⟩, s.tables.procedures, s.tables.structs, s.tables.impls⟩
  rw [hvars, h.procedures, h.structs, h.impls]

/-- An assignment of a field, after what its value assigns. -/
theorem assign {name field : Token} {e : Entry (Binding Expr)} {v : Instance Expr}
    {b : Binding Expr} {value : Expr} (hs : s.Numbered)
    (htarget : s.ReadsTarget name field e v b t) (htu : Changes ds t u) :
    Changes (ds ++ [(e.id, field.lexeme)]) s (u.assignField e v field.lexeme value) where
  nextId := htu.nextId.trans htarget.nextId_eq
  procedures := htu.procedures.trans (by rw [htarget.tables_eq])
  structs := htu.structs.trans (by rw [htarget.tables_eq])
  impls := htu.impls.trans (by rw [htarget.tables_eq])
  vars := by
    have hvars := htu.vars
    rw [htarget.tables_eq] at hvars
    refine List.forall₂_map_right_iff.mpr ?_
    have hmem := (List.forall₂_and_left _ _).mpr
      ⟨fun x (hx : x ∈ s.tables.vars.entries) => hx, hvars⟩
    refine hmem.imp fun x y ⟨hx, hxy⟩ => ?_
    by_cases hid : x.id = e.id
    · obtain rfl := hs.vars.eq_of_id hx htarget.mem hid
      rw [if_pos hxy.id]
      exact hxy.assign htarget.value _ _ _
    · rw [if_neg (hxy.id ▸ hid)]
      exact hxy.append_of_ne hid

end Changes

/-- A course changes the assigned fields of the variables and nothing else. -/
theorem Course.changes (h : Course s ds t) (hs : s.Numbered) : Changes ds s t := by
  induction h with
  | refl s => exact .of_tables rfl rfl
  | token _ => exact .of_tables rfl rfl
  | trans _ _ ih ih' =>
    have hst := ih hs
    exact hst.trans (ih' (hst.numbered hs))
  | assign htarget _ _ ih => exact .assign hs htarget (ih (htarget.numbered hs))

/-- Nothing that is assigned in a course is taken back: the variables are those in front of it after
the assignments, in the order in which they are completed. -/
theorem Course.exists_assigned (h : Course s ds t) :
    ∃ as : List Assignment, as.map Assignment.target = ds ∧
      (∀ a ∈ as, a.owner.decl.value.instance? = some a.read) ∧
      t.tables.vars = as.foldl Assignment.apply s.tables.vars := by
  induction h with
  | refl s => exact ⟨[], rfl, nofun, rfl⟩
  | token _ => exact ⟨[], rfl, nofun, rfl⟩
  | trans _ _ ih ih' =>
    obtain ⟨as, htargets, hread, hvars⟩ := ih
    obtain ⟨bs, htargets', hread', hvars'⟩ := ih'
    refine ⟨as ++ bs, by rw [List.map_append, htargets, htargets'],
      List.forall_mem_append.mpr ⟨hread, hread'⟩, ?_⟩
    rw [List.foldl_append, hvars', hvars]
  | @assign _ _ u _ field e v _ value _ htarget _ _ ih =>
    obtain ⟨as, htargets, hread, hvars⟩ := ih
    rw [htarget.tables_eq] at hvars
    refine ⟨as ++ [⟨e, v, field.lexeme, value⟩], ?_,
      List.forall_mem_append.mpr ⟨hread, List.forall_mem_singleton.mpr htarget.value⟩, ?_⟩
    · rw [List.map_append, htargets]
      rfl
    · rw [List.foldl_append, ← hvars]
      rfl

end Changes

section Reading

/-- From `s` on reading takes a course, if the values of assignments behind `s` do. -/
def courseRulesBelow (s : State) (h : ∀ t value u, t.unread.length < s.unread.length → t.Awaits →
    Parse.expr t = .ok value u → ∃ ds, Course t ds u) : ExprRules :=
  .ofStates (fun t => t.unread.length ≤ s.unread.length ∧ ∃ ds, Course s ds t)
    (fun _ t => ∃ ds, Course s ds t)
    (fun ⟨hlength, ds, hcourse⟩ hunread _ => by
      refine ⟨?_, ds ++ [], hcourse.trans (.token hunread)⟩
      rw [hunread, List.length_cons] at hlength
      exact Nat.le_of_succ_le hlength)
    (fun _ hs => hs.2)
    (fun _ hs _ => hs.2)
    (fun _ ⟨_, ds, hcourse⟩ _ hunread => ⟨ds ++ [], hcourse.trans (.token hunread)⟩)
    (fun ⟨hlength, ds, hcourse⟩ htarget hvalue hu => by
      obtain ⟨es, hbelow⟩ := h _ _ _ (Nat.lt_of_lt_of_le htarget.length_lt hlength) htarget.awaits
        hvalue
      exact ⟨hu.1, _, hcourse.trans (.assign htarget hvalue hbelow)⟩)

/-- Reading an expression takes a course. -/
theorem course_of_expr {s u : State} {value : Expr} (hawaits : s.Awaits)
    (h : Parse.expr s = .ok value u) : ∃ ds, Course s ds u := by
  -- The value of an assignment inside of the expression is read from fewer tokens.
  induction hn : s.unread.length using Nat.strongRecOn generalizing s value u with
  | ind n ih =>
    have hafter := ExprRules.after_expr (n := n)
      (I := courseRulesBelow s fun t value u hlength ht hvalue => ih _ (hn ▸ hlength) ht hvalue rfl)
      ⟨⟨Nat.le_refl _, [], .refl s⟩, Nat.le_of_eq hn⟩ hawaits
    rw [h] at hafter
    exact hafter.2.holds.2

/-- From a state on reading takes a course, whether it succeeds or fails. -/
def courseRules (s : State) : ExprRules :=
  courseRulesBelow s fun _ _ _ _ hawaits hvalue => course_of_expr hawaits hvalue

theorem courseRules_fits (s : State) : (courseRules s).Fits s.unread.length s :=
  ⟨⟨Nat.le_refl _, [], .refl s⟩, Nat.le_refl _⟩

end Reading
end ScriptFront
