import ScriptFront.Proofs.Rules.States
import ScriptFront.Proofs.Values.Course
import Mathlib.Data.List.Forall2
import Mathlib.Logic.Relation

/-!
# The moments of reading a program

A program is read in small steps: a token is read, a problem is reported, a variable gets another
value, the variables of a scope come or go, something is declared, a procedure is added to an impl
block.  A moment is a state between two such steps together with the impl blocks that are being
read.  What every step keeps, the whole of reading keeps.

A declaration and the warning that its name had been declared before are one step, and so are the
completion of a procedure and its declaration: the tables and the problems change in these steps
only once.

**Results.**

* `Onward.later`, `Onward.numbered`: reading goes on from one moment to a later one.
* `Onward.grows`: what is declared stays in its place; only an impl block that is being read grows.
* `Onward.definitions_subset`: so no definition of a procedure is lost.
-/

namespace ScriptFront

namespace State

/-- The state in which one more procedure is complete. -/
def complete (s : State) : State :=
  { s with completed := s.completed + 1 }

/--
The state in which a symbol with the next identity has been declared.  If its table had a symbol of
its name already, this is reported.
-/
def announce (s : State) (symbol : Nat → Symbol) (pos : Position) : State :=
  if s.tables.shadows (symbol s.nextId) then
    (s.declareNext symbol).report
      ⟨.redeclared (symbol s.nextId).kind.label (symbol s.nextId).name, pos⟩
  else s.declareNext symbol

theorem later_complete (s : State) : s.Later s.complete :=
  .of_same rfl rfl rfl rfl List.prefix_rfl

theorem numbered_ofSource (file : String) (source : List Char) :
    (ofSource file source).Numbered :=
  ⟨.empty _, .empty _⟩

theorem completed_report (s : State) (p : Problem) : (s.report p).completed = s.completed := by
  unfold report
  split <;> rfl

section Announce

variable (s : State) (symbol : Nat → Symbol) (pos : Position)

theorem tables_announce : (s.announce symbol pos).tables = s.tables.declare (symbol s.nextId) ∧
    (s.announce symbol pos).nextId = s.nextId + 1 := by
  unfold announce
  split
  · exact tables_report _ _
  · exact ⟨rfl, rfl⟩

theorem later_announce : s.Later (s.announce symbol pos) := by
  have hdeclare : s.Later (s.declareNext symbol) := .of_same rfl rfl rfl rfl List.prefix_rfl
  unfold announce
  split
  · exact hdeclare.trans (.report _ _)
  · exact hdeclare

theorem completed_announce : (s.announce symbol pos).completed = s.completed := by
  unfold announce
  split
  · exact completed_report _ _
  · rfl

theorem Numbered.announce {s : State} (hs : s.Numbered) (symbol : Nat → Symbol)
    (hid : ∀ id, (symbol id).id = id) (pos : Position) : (s.announce symbol pos).Numbered := by
  obtain ⟨htables, hnext⟩ := s.tables_announce symbol pos
  have hdeclared := (Extends.declare hs (symbol s.nextId) (hid _)).numbered
  exact (Extends.of_same hdeclared htables hnext).numbered

end Announce

end State

/-- A state with the identities of the impl blocks that are being read, the innermost one first. -/
structure Moment where
  state : State
  growing : List Nat

/-- One step of reading. -/
inductive Moment.Step : Moment → Moment → Prop where
  | token {s : State} {os : List Nat} {t : Token} {rest : List Token} :
    s.unread = t :: rest → Step ⟨s, os⟩ ⟨s.consume t rest, os⟩
  /-- Any problem but a name that is declared again. -/
  | report {s : State} {os : List Nat} {p : Problem} :
    (∀ sort name, p.cause ≠ .redeclared sort name) → Step ⟨s, os⟩ ⟨s.report p, os⟩
  | leave {s : State} {os : List Nat} (n : Nat) : Step ⟨s, os⟩ ⟨{ s with closedBlocks := n }, os⟩
  | rebind {s : State} {os : List Nat} (e : Entry (Binding Expr)) (value : Expr) :
    Step ⟨s, os⟩ ⟨s.rebind e value, os⟩
  | openScope {s : State} {os : List Nat} (bindings : List (Binding Expr)) :
    Step ⟨s, os⟩ ⟨s.openScope bindings, os⟩
  | closeScope {s : State} {os : List Nat} (entries : List (Entry (Binding Expr))) :
    Step ⟨s, os⟩ ⟨s.closeScope entries, os⟩
  | declareVariable {s : State} {os : List Nat} (binding : Binding Expr) :
    Step ⟨s, os⟩ ⟨s.declareNext fun id => .variable ⟨id, binding⟩, os⟩
  | declareStruct {s : State} {os : List Nat} (struct : StructDef) (pos : Position) :
    Step ⟨s, os⟩ ⟨s.announce (fun id => .struct ⟨id, struct⟩) pos, os⟩
  /-- A procedure is complete, and its number is that of the procedures completed before. -/
  | declareProcedure {s : State} {os : List Nat} {proc : Proc Expr} (pos : Position) :
    proc.number = s.completed →
    Step ⟨s, os⟩ ⟨s.complete.announce (fun id => .procedure ⟨id, proc⟩) pos, os⟩
  | openImpl {s : State} {os : List Nat} (struct : StructDef) (pos : Position) :
    Step ⟨s, os⟩ ⟨s.announce (fun id => .impl ⟨id, ⟨struct, []⟩⟩) pos, s.nextId :: os⟩
  /-- A procedure of the innermost impl block is complete. -/
  | addProc {s : State} {os : List Nat} {e : Entry (Impl Expr)} {proc : Proc Expr} :
    proc.number = s.completed → Step ⟨s, e.id :: os⟩ ⟨s.complete.addProc e proc, e.id :: os⟩
  | closeImpl {s : State} {os : List Nat} {id : Nat} : Step ⟨s, id :: os⟩ ⟨s, os⟩

/-- Reading goes on from one moment to another one. -/
abbrev Onward : Moment → Moment → Prop :=
  Relation.ReflTransGen Moment.Step

namespace Moment.Step

variable {m m' : Moment}

theorem later (h : Step m m') : m.state.Later m'.state := by
  cases h with
  | token hunread => exact .consume hunread
  | report _ => exact .report _ _
  | leave _ | rebind _ _ | declareVariable _ | addProc _ | closeImpl =>
    exact .of_same rfl rfl rfl rfl List.prefix_rfl
  | openScope bindings => exact .openScope _ bindings
  | closeScope entries => exact .closeScope _ entries
  | @declareStruct s _ struct pos => exact s.later_announce (fun id => .struct ⟨id, struct⟩) pos
  | @openImpl s _ struct pos => exact s.later_announce (fun id => .impl ⟨id, ⟨struct, []⟩⟩) pos
  | @declareProcedure s _ proc pos _ =>
    exact s.later_complete.trans
      (s.complete.later_announce (fun id => .procedure ⟨id, proc⟩) pos)

theorem numbered (h : Step m m') (hm : m.state.Numbered) : m'.state.Numbered := by
  cases h with
  | @token s _ t rest _ => exact (State.Extends.consume hm t rest).numbered
  | @leave s _ n =>
    exact (State.Extends.of_same (t := { s with closedBlocks := n }) hm rfl rfl).numbered
  | report _ => exact (State.Extends.report hm _).numbered
  | rebind e value => exact (State.Extends.rebind hm e value).numbered
  | openScope bindings => exact (State.Extends.openScope hm bindings).numbered
  | closeScope entries => exact hm.closeScope entries
  | declareVariable binding => exact (State.Extends.declare hm _ rfl).numbered
  | declareStruct struct pos =>
    exact hm.announce (fun id => .struct ⟨id, struct⟩) (fun _ => rfl) pos
  | openImpl struct pos =>
    exact hm.announce (fun id => .impl ⟨id, ⟨struct, []⟩⟩) (fun _ => rfl) pos
  | @declareProcedure _ _ proc pos _ =>
    have hcomplete := (State.Extends.complete hm).numbered
    exact hcomplete.announce (fun id => .procedure ⟨id, proc⟩) (fun _ => rfl) pos
  | addProc _ => exact (State.Extends.complete hm).numbered.addProc _ _
  | closeImpl => exact hm

end Moment.Step

/-- What is declared comes behind all else that its table has. -/
theorem Tables.prefix_declare (t : Tables) (symbol : Symbol) :
    t.procedures.entries <+: (t.declare symbol).procedures.entries ∧
      t.structs.entries <+: (t.declare symbol).structs.entries ∧
      t.impls.entries <+: (t.declare symbol).impls.entries := by
  cases symbol with
  | «variable» _ => exact ⟨List.prefix_rfl, List.prefix_rfl, List.prefix_rfl⟩
  | procedure _ => exact ⟨List.prefix_append _ _, List.prefix_rfl, List.prefix_rfl⟩
  | struct _ => exact ⟨List.prefix_rfl, List.prefix_append _ _, List.prefix_rfl⟩
  | impl _ => exact ⟨List.prefix_rfl, List.prefix_rfl, List.prefix_append _ _⟩

/--
An impl block at one moment and at a later one.  Procedures have been added to it only if it was
being read at the first moment.
-/
structure Entry.GrowsTo (growing : List Nat) (e f : Entry (Impl Expr)) : Prop where
  id : f.id = e.id
  struct : f.decl.struct = e.decl.struct
  procs : e.decl.procs <+: f.decl.procs
  complete : e.id ∉ growing → f = e

/-- What has been declared at one moment is at the same place of its table at a later one. -/
structure Moment.Grows (m m' : Moment) : Prop where
  nextId : m.state.nextId ≤ m'.state.nextId
  growing : ∀ id ∈ m'.growing, id ∈ m.growing ∨ m.state.nextId ≤ id
  procedures : m.state.tables.procedures.entries <+: m'.state.tables.procedures.entries
  structs : m.state.tables.structs.entries <+: m'.state.tables.structs.entries
  impls : ∃ kept, kept <+: m'.state.tables.impls.entries ∧
    List.Forall₂ (Entry.GrowsTo m.growing) m.state.tables.impls.entries kept

namespace Moment.Grows

variable {m m' : Moment}

theorem refl (m : Moment) : m.Grows m where
  nextId := Nat.le_refl _
  growing _ h := .inl h
  procedures := List.prefix_rfl
  structs := List.prefix_rfl
  impls := ⟨_, List.prefix_rfl, List.forall₂_same.mpr fun _ _ =>
    ⟨rfl, rfl, List.prefix_rfl, fun _ => rfl⟩⟩

/-- A step that changes at most the variables. -/
theorem of_same (h : m.Grows m') {t : State} (hid : m'.state.nextId ≤ t.nextId)
    (hprocedures : t.tables.procedures = m'.state.tables.procedures)
    (hstructs : t.tables.structs = m'.state.tables.structs)
    (himpls : t.tables.impls = m'.state.tables.impls) : m.Grows ⟨t, m'.growing⟩ where
  nextId := Nat.le_trans h.nextId hid
  growing := h.growing
  procedures := hprocedures ▸ h.procedures
  structs := hstructs ▸ h.structs
  impls := himpls ▸ h.impls

/-- A symbol is declared behind all others of its sort. -/
theorem announce {s : State} {os : List Nat} (h : m.Grows ⟨s, os⟩) (symbol : Nat → Symbol)
    (pos : Position) : m.Grows ⟨s.announce symbol pos, os⟩ := by
  obtain ⟨htables, hid⟩ := s.tables_announce symbol pos
  obtain ⟨hprocedures, hstructs, himpls⟩ := s.tables.prefix_declare (symbol s.nextId)
  obtain ⟨kept, hprefix, hkept⟩ := h.impls
  rw [← htables] at hprocedures hstructs himpls
  exact {
    nextId := Nat.le_trans (Nat.le_succ_of_le h.nextId) (Nat.le_of_eq hid.symm)
    growing := h.growing
    procedures := h.procedures.trans hprocedures
    structs := h.structs.trans hstructs
    impls := ⟨kept, hprefix.trans himpls, hkept⟩ }

/-- Procedures are added to the impl blocks that are being read, and these are new or were being
read at the first moment. -/
theorem addProc (h : m.Grows m') (hm : m.state.Numbered) {e : Entry (Impl Expr)}
    (he : e.id ∈ m'.growing) (proc : Proc Expr) :
    m.Grows ⟨m'.state.addProc e proc, m'.growing⟩ where
  nextId := h.nextId
  growing := h.growing
  procedures := h.procedures
  structs := h.structs
  impls := by
    obtain ⟨kept, hprefix, hkept⟩ := h.impls
    refine ⟨_, hprefix.map _, List.forall₂_map_right_iff.mpr ?_⟩
    have hmem := (List.forall₂_and_left _ _).mpr
      ⟨fun x (hx : x ∈ m.state.tables.impls.entries) => hx, hkept⟩
    refine hmem.imp fun x y ⟨hx, hxy⟩ => ?_
    by_cases hid : y.id = e.id
    · rw [if_pos hid]
      refine ⟨hxy.id, hxy.struct, hxy.procs.trans (List.prefix_append _ _), fun hnot => ?_⟩
      have hold : x.id ∈ m.growing ∨ m.state.nextId ≤ x.id := by
        rw [← hxy.id, hid]
        exact h.growing e.id he
      have hlt := hm.impls.lt x hx
      exact absurd (hold.resolve_left hnot) (Nat.not_le_of_lt hlt)
    · rw [if_neg hid]
      exact hxy

end Moment.Grows

namespace Onward

variable {m m' : Moment}

theorem later (h : Onward m m') : m.state.Later m'.state := by
  induction h with
  | refl => exact .refl _
  | tail _ hstep ih => exact ih.trans hstep.later

theorem numbered (h : Onward m m') (hm : m.state.Numbered) : m'.state.Numbered := by
  induction h with
  | refl => exact hm
  | tail _ hstep ih => exact hstep.numbered ih

/-- What is declared stays in its place, and only an impl block that is being read grows. -/
theorem grows (h : Onward m m') (hm : m.state.Numbered) : m.Grows m' := by
  induction h with
  | refl => exact .refl m
  | tail _ hstep ih =>
    cases hstep with
    | token _ | leave _ | rebind _ _ | closeScope _ => exact ih.of_same (Nat.le_refl _) rfl rfl rfl
    | openScope bindings => exact ih.of_same (Nat.le_add_right _ _) rfl rfl rfl
    | declareVariable _ => exact ih.of_same (Nat.le_succ _) rfl rfl rfl
    | @report s os p _ =>
      obtain ⟨htables, hid⟩ := s.tables_report p
      exact ih.of_same (Nat.le_of_eq hid.symm) (by rw [htables]) (by rw [htables]) (by rw [htables])
    | declareStruct struct pos => exact ih.announce _ pos
    | @declareProcedure s os proc pos _ =>
      have hcomplete : m.Grows ⟨s.complete, os⟩ := ih.of_same (Nat.le_refl _) rfl rfl rfl
      exact hcomplete.announce _ pos
    | openImpl struct pos =>
      have hdeclared := ih.announce (fun id => .impl ⟨id, ⟨struct, []⟩⟩) pos
      exact { hdeclared with
        growing := List.forall_mem_cons.mpr ⟨.inr ih.nextId, ih.growing⟩ }
    | @addProc s os e proc _ =>
      have hcomplete : m.Grows ⟨s.complete, e.id :: os⟩ :=
        ih.of_same (Nat.le_refl _) rfl rfl rfl
      exact hcomplete.addProc hm List.mem_cons_self proc
    | closeImpl =>
      exact ⟨ih.nextId, fun id hid => ih.growing id (List.mem_cons_of_mem _ hid), ih.procedures,
        ih.structs, ih.impls⟩

end Onward

/-- The procedures that have been declared and those of the impl blocks. -/
def Tables.definitions (t : Tables) : List (Proc Expr) :=
  t.procedures.entries.map Entry.decl ++ t.impls.entries.flatMap fun e => e.decl.procs

/-- An impl block at one moment is there at a later one. -/
theorem Moment.Grows.exists_impl {m m' : Moment} (h : m.Grows m') {e : Entry (Impl Expr)}
    (he : e ∈ m.state.tables.impls.entries) :
    ∃ f ∈ m'.state.tables.impls.entries, e.GrowsTo m.growing f := by
  have exists_right {xs ys : List (Entry (Impl Expr))}
      (h : List.Forall₂ (Entry.GrowsTo m.growing) xs ys) (he : e ∈ xs) :
      ∃ f ∈ ys, e.GrowsTo m.growing f := by
    induction h with
    | nil => cases he
    | cons hef _ ih =>
      rcases List.mem_cons.mp he with rfl | he
      · exact ⟨_, List.mem_cons_self, hef⟩
      · obtain ⟨f, hf, hgrows⟩ := ih he
        exact ⟨f, List.mem_cons_of_mem _ hf, hgrows⟩
  obtain ⟨kept, hprefix, hkept⟩ := h.impls
  obtain ⟨f, hf, hgrows⟩ := exists_right hkept he
  exact ⟨f, hprefix.subset hf, hgrows⟩

/-- No definition of a procedure is lost. -/
theorem Onward.definitions_subset {m m' : Moment} (h : Onward m m') (hm : m.state.Numbered) :
    m.state.tables.definitions ⊆ m'.state.tables.definitions := by
  have hgrows := h.grows hm
  intro p hp
  rcases List.mem_append.mp hp with hp | hp
  · obtain ⟨e, he, rfl⟩ := List.mem_map.mp hp
    exact List.mem_append_left _ (List.mem_map_of_mem (hgrows.procedures.subset he))
  · obtain ⟨e, he, hp⟩ := List.mem_flatMap.mp hp
    obtain ⟨f, hf, hef⟩ := hgrows.exists_impl he
    exact List.mem_append_right _ (List.mem_flatMap.mpr ⟨f, hf, hef.procs.subset hp⟩)

end ScriptFront
