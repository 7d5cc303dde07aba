import ScriptFront.Proofs.Moments.Trees
import Mathlib.Data.List.Perm.Basic

/-!
# Calls go back

A procedure has the number of the procedures that had been completed before it, so the procedures
are numbered in the order in which they are completed.  A name is resolved as soon as it is read,
and only procedures that are complete are in the tables, so a call in the body of a procedure is one
of a procedure with a smaller number.  No chain of calls comes back to where it started.

**Results.**

* `Onward.counted`: at every moment the definitions have the numbers of the completed procedures.
* `call_graph_acyclic`: calls go to procedures with smaller numbers.
-/

namespace ScriptFront

/-- The procedure that an expression calls. -/
def Expr.callee? : Expr → Option (Proc Expr)
  | call _ callee _ | implCall _ _ _ callee _ => some callee
  | _ => none

/-- A call of the second procedure stands in the body of the first one. -/
def Proc.Calls (p q : Proc Expr) : Prop :=
  ∃ b ∈ p.body, ∃ x, b.Contains x ∧ x.callee? = some q

/-- A call holds the definition of its procedure. -/
theorem Expr.contains_callee {e x : Expr} {p : Proc Expr} (h : e.Contains x)
    (hp : x.callee? = some p) : e.Contains (.procDef p) := by
  induction h with
  | self e =>
    cases e with
    | call | implCall =>
      obtain rfl := Option.some.inj hp
      exact .inside List.mem_cons_self (.self _)
    | _ => cases hp
  | inside hx _ ih => exact .inside hx (ih hp)

section Numbers

/-- The definitions have the numbers of the completed procedures, each one once. -/
structure Moment.Counted (m : Moment) : Prop where
  numbers : (m.state.tables.definitions.map Proc.number).Perm (List.range m.state.completed)
  growing : ∀ id ∈ m.growing, id ∈ m.state.tables.impls.entries.map Entry.id

/-- Of some impl blocks, the one of an identity gets one more procedure. -/
theorem perm_flatMap_procs {es : List (Entry (Impl Expr))} (hnodup : (es.map Entry.id).Nodup)
    {id : Nat} (hid : id ∈ es.map Entry.id) (p : Proc Expr) :
    ((es.map fun e => if e.id = id then
        { e with decl := { e.decl with procs := e.decl.procs ++ [p] } } else e).flatMap
      fun e => e.decl.procs).Perm (p :: es.flatMap fun e => e.decl.procs) := by
  induction es with
  | nil => cases hid
  | cons e es ih =>
    rw [List.map_cons, List.nodup_cons] at hnodup
    simp only [List.map_cons, List.flatMap_cons]
    by_cases he : e.id = id
    · have hrest : (es.map fun e => if e.id = id then
          { e with decl := { e.decl with procs := e.decl.procs ++ [p] } } else e) = es := by
        refine (List.map_congr_left fun x hx => ?_).trans (List.map_id es)
        rw [if_neg fun hx' => hnodup.1 ?_]
        · rfl
        · rw [he, ← hx']
          exact List.mem_map_of_mem hx
      rw [hrest, if_pos he, List.append_assoc]
      exact List.perm_middle
    · have hrest := (List.mem_cons.mp hid).resolve_left fun h => he h.symm
      rw [if_neg he]
      exact ((ih hnodup.2 hrest).append_left e.decl.procs).trans List.perm_middle

/-- A procedure is added to one impl block, and nothing else is defined. -/
theorem State.perm_definitions_addProc {s : State} (hs : s.Numbered) {e : Entry (Impl Expr)}
    (he : e.id ∈ s.tables.impls.entries.map Entry.id) (p : Proc Expr) :
    (s.addProc e p).tables.definitions.Perm (p :: s.tables.definitions) :=
  ((perm_flatMap_procs hs.impls.nodup he p).append_left _).trans List.perm_middle

variable {m m' : Moment}

namespace Moment.Counted

variable {s t : State} {os qs : List Nat}

/-- Nothing is completed or defined. -/
theorem of_same (h : Counted ⟨s, os⟩) (hdefinitions : t.tables.definitions = s.tables.definitions)
    (hcompleted : t.completed = s.completed) (hgrowing : ∀ id ∈ qs, id ∈ os)
    (hids : t.tables.impls.entries.map Entry.id = s.tables.impls.entries.map Entry.id) :
    Counted ⟨t, qs⟩ where
  numbers := by
    rw [hdefinitions, hcompleted]
    exact h.numbers
  growing id hid := by
    rw [hids]
    exact h.growing id (hgrowing id hid)

/-- The next procedure is completed and defined. -/
theorem define (h : Counted ⟨s, os⟩) {p : Proc Expr} (hp : p.number = s.completed)
    (hdefinitions : t.tables.definitions.Perm (p :: s.tables.definitions))
    (hcompleted : t.completed = s.completed + 1)
    (hids : t.tables.impls.entries.map Entry.id = s.tables.impls.entries.map Entry.id) :
    Counted ⟨t, os⟩ where
  numbers := by
    rw [hcompleted, List.range_succ]
    refine (hdefinitions.map _).trans ?_
    rw [List.map_cons, hp]
    exact (h.numbers.cons _).trans (List.perm_append_singleton _ _).symm
  growing id hid := by
    rw [hids]
    exact h.growing id hid

end Moment.Counted

/-- At every moment the definitions have the numbers of the completed procedures. -/
theorem Onward.counted (h : Onward m m') (hm : m.state.Numbered) (hcounted : m.Counted) :
    m'.Counted := by
  induction h with
  | refl => exact hcounted
  | tail hbefore hstep ih =>
    have hnumbered := Onward.numbered hbefore hm
    cases hstep with
    | token _ | leave _ | rebind _ _ | openScope _ | closeScope _ | declareVariable _ =>
      exact ih.of_same rfl rfl (fun _ => id) rfl
    | closeImpl => exact ih.of_same rfl rfl (fun _ => List.mem_cons_of_mem _) rfl
    | @report s _ p _ =>
      have htables := (s.tables_report p).1
      exact ih.of_same (by rw [htables]) (s.completed_report p) (fun _ => id) (by rw [htables])
    | @declareStruct s _ struct pos =>
      have htables := (s.tables_announce (fun id => .struct ⟨id, struct⟩) pos).1
      exact ih.of_same (by rw [htables]; rfl) (s.completed_announce _ pos) (fun _ => id)
        (by rw [htables]; rfl)
    | @declareProcedure s _ p pos hp =>
      have htables := (s.complete.tables_announce (fun id => .procedure ⟨id, p⟩) pos).1
      refine ih.define hp ?_ (s.complete.completed_announce _ pos) (by rw [htables]; rfl)
      rw [htables]
      exact s.tables.perm_definitions_procedure ⟨s.nextId, p⟩
    | @openImpl s os struct pos =>
      have htables := (s.tables_announce (fun id => .impl ⟨id, ⟨struct, []⟩⟩) pos).1
      have hids : (s.announce (fun id => .impl ⟨id, ⟨struct, []⟩⟩) pos).tables.impls.entries.map
          Entry.id = s.tables.impls.entries.map Entry.id ++ [s.nextId] := by
        rw [htables]
        exact List.map_append
      refine ⟨?_, fun id hid => ?_⟩
      · rw [htables, Tables.definitions_impl, s.completed_announce]
        exact ih.numbers
      · rw [hids]
        rcases List.mem_cons.mp hid with rfl | hid
        · exact List.mem_append_right _ List.mem_cons_self
        · exact List.mem_append_left _ (ih.growing id hid)
    | @addProc s os e p hp =>
      have hid := ih.growing e.id List.mem_cons_self
      refine ih.define hp (State.perm_definitions_addProc (s := s.complete) ?_ hid p) rfl ?_
      · exact (State.Extends.complete hnumbered).numbered
      · exact SymbolTable.map_update _ _ _ _ fun _ _ _ => rfl

end Numbers

section Calls

variable {file : String} {source : List Char}

theorem counted_ofSource (file : String) (source : List Char) :
    Moment.Counted ⟨.ofSource file source, []⟩ :=
  ⟨.refl _, nofun⟩

/-- At every moment of reading a text the numbers of the definitions are below the next one. -/
theorem number_lt_completed {m : Moment} (h : Onward ⟨.ofSource file source, []⟩ m) {p : Proc Expr}
    (hp : p ∈ m.state.tables.definitions) : p.number < m.state.completed := by
  have hcounted := h.counted (State.numbered_ofSource file source) (counted_ofSource file source)
  exact List.mem_range.mp (hcounted.numbers.mem_iff.mp (List.mem_map_of_mem hp))

/-- Every definition is in the tables, and those in the body of a procedure have smaller numbers. -/
def callRules (file : String) (source : List Char) : TreeRules file source where
  good ps x := ∀ p, x = .procDef p → p ∈ ps ∧
    ∀ b ∈ p.body, b.All fun y => ∀ q, y = .procDef q → q.number < p.number
  mono hsub h p hp := ⟨hsub (h p hp).1, (h p hp).2⟩
  plain := by
    rintro _ _ hplain p rfl
    exact hplain.elim
  block := by
    rintro _ _ _ _ _ _ _ _ hblock p rfl
    cases hblock
  procDef := by
    rintro ps s t os p hs hrun hbody hp q hq
    obtain rfl := Expr.procDef.inj hq
    refine ⟨hp, fun b hb => (hbody b hb).mono fun y hy r hr => ?_⟩
    rw [hrun.number_eq]
    exact number_lt_completed (hs.trans (hrun.onward os)) (hy r hr).1
  impl _ := True
  complete _ _ _ := trivial
  implBlock := by
    rintro _ _ _ _ _ p hp
    cases hp

end Calls

/--
The definitions of procedures that are read of a source text, in failed statements as well, have the
numbers of the order in which they are completed.  All definitions that a program holds are among
them, and every call in the body of one of them is a call of one with a smaller number, so that no
chain of calls leads back to its beginning.
-/
theorem call_graph_acyclic (file : String) (source : List Char) :
    (∀ m, Onward ⟨.ofSource file source, []⟩ m →
        (m.state.tables.definitions.map Proc.number).Perm (List.range m.state.completed)) ∧
      Onward ⟨.ofSource file source, []⟩ ⟨(parseProgram file source).state, []⟩ ∧
      (∀ e ∈ (parseProgram file source).program, ∀ p, e.Contains (.procDef p) →
        p ∈ (parseProgram file source).state.tables.definitions) ∧
      ∀ p ∈ (parseProgram file source).state.tables.definitions,
        (∀ q, p.Calls q → q ∈ (parseProgram file source).state.tables.definitions ∧
          q.number < p.number) ∧
        ¬ Relation.TransGen Proc.Calls p p := by
  let ps := (parseProgram file source).state.tables.definitions
  obtain ⟨hprogram, htables, _⟩ := (callRules file source).parseProgram
  have hcalls : ∀ p ∈ ps, ∀ q, p.Calls q → q ∈ ps ∧ q.number < p.number := by
    rintro p hp q ⟨b, hb, x, hx, hcallee⟩
    have hall := htables.definitions p hp
    have hq := Expr.contains_callee hx hcallee
    have hless := (hall.self p rfl).2 b hb
    exact ⟨(((hall.held hb).contains hq).self q rfl).1, (hless.contains hq).self q rfl⟩
  have hchain {p q : Proc Expr} (hp : p ∈ ps) (h : Relation.TransGen Proc.Calls p q) :
      q ∈ ps ∧ q.number < p.number := by
    induction h with
    | single hcall => exact hcalls p hp _ hcall
    | tail _ hcall ih =>
      obtain ⟨hq, hless⟩ := hcalls _ ih.1 _ hcall
      exact ⟨hq, Nat.lt_trans hless ih.2⟩
  refine ⟨fun m hm => ?_, onward_finish (.ofSource file source), fun e he p hp => ?_,
    fun p hp => ⟨hcalls p hp, fun hcycle => Nat.lt_irrefl _ (hchain hp hcycle).2⟩⟩
  · exact (hm.counted (State.numbered_ofSource file source) (counted_ofSource file source)).numbers
  · exact (((hprogram e he).contains hp).self p rfl).1

/-- A procedure of an impl block calls the one above it. -/
theorem call_graph_acyclic_method :
    let source := "struct S { } impl S { proc f() { } proc g() { S::f() } }".toList
    let ps := (parseProgram "p" source).state.tables.definitions
    ps.map Proc.name = ["f", "g"] ∧
      ∃ p ∈ ps, ∃ q, p.Calls q ∧ q ∈ ps ∧ q.number < p.number ∧
        ¬ Relation.TransGen Proc.Calls p p := by
  intro source ps
  have hcall : ((ps[1]?).bind fun p => p.body.head?.bind Expr.callee?).isSome := by decide +kernel
  obtain ⟨q, hq⟩ := Option.isSome_iff_exists.mp hcall
  obtain ⟨p, hget, hq⟩ := Option.bind_eq_some_iff.mp hq
  obtain ⟨b, hb, hq⟩ := Option.bind_eq_some_iff.mp hq
  have hp : p ∈ ps := List.mem_of_getElem? hget
  have hcalls : p.Calls q := ⟨b, List.mem_of_head? hb, b, .self b, hq⟩
  obtain ⟨_, _, _, hless⟩ := call_graph_acyclic "p" source
  obtain ⟨hcallee, hacyclic⟩ := hless p hp
  obtain ⟨hmem, hnumber⟩ := hcallee q hcalls
  exact ⟨by decide +kernel, p, hp, q, hcalls, hmem, hnumber, hacyclic⟩

end ScriptFront
