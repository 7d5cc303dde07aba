import ScriptFront.Proofs.Moments.Held
import ScriptFront.Proofs.Moments.Readers

/-!
# What is true of the trees that are read

A property of expressions that may depend on the procedures defined so far, and that more of them do
not make false, is true of all that a program holds, if it is true of plain expressions and of each
statement with a block, each procedure and each impl block when it has been read.  A property of
impl blocks that they have when they have been read is true of all of them in the end.

**Results.**

* `Run.keeps`: what the tables hold and what is read keeps the property.
* `TreeRules.parseProgram`: so do programs and the tables at their end.
-/

namespace ScriptFront

/-- The statements that a statement holds in braces. -/
def Expr.block? : Expr → Option (List Expr)
  | ifStatement _ _ body | whileStatement _ _ body | forLoop _ _ _ body => some body
  | _ => none

/-- A property of the expressions that are read of a source text, and one of its impl blocks. -/
structure TreeRules (file : String) (source : List Char) where
  /-- The property, when the given procedures have been defined. -/
  good : List (Proc Expr) → Expr → Prop
  mono {ps qs : List (Proc Expr)} {e : Expr} : ps ⊆ qs → good ps e → good qs e
  plain {ps : List (Proc Expr)} {e : Expr} : e.IsPlain → good ps e
  block {ps : List (Proc Expr)} {s t : State} {os : List Nat} {es : List Expr} {e : Expr} :
    Onward ⟨.ofSource file source, []⟩ ⟨s, os⟩ → Run s (.body es) t → e.block? = some es →
    good ps e
  procDef {ps : List (Proc Expr)} {s t : State} {os : List Nat} {p : Proc Expr} :
    Onward ⟨.ofSource file source, []⟩ ⟨s, os⟩ → Run s (.proc p) t →
    (∀ x ∈ p.body, x.All (good t.tables.definitions)) → p ∈ ps → good ps (.procDef p)
  impl : Impl Expr → Prop
  complete {ps : List (Proc Expr)} {s t : State} {os : List Nat} {struct : StructDef}
    (pos : Position) : Onward ⟨.ofSource file source, []⟩ ⟨s, os⟩ →
    Run (s.announce (fun id => .impl ⟨id, ⟨struct, []⟩⟩) pos) (.procs ⟨s.nextId, ⟨struct, []⟩⟩ ps)
      t →
    impl (t.block ⟨s.nextId, ⟨struct, []⟩⟩)
  implBlock {ps : List (Proc Expr)} {block : Impl Expr} (pos : Position) (id : Nat) :
    impl block → good ps (.implBlock pos id block)

section Definitions

variable {s t : State}

theorem Course.definitions_eq {ds : List (Nat × String)} (h : Course s ds t) (hs : s.Numbered) :
    t.tables.definitions = s.tables.definitions := by
  have hchanges := h.changes hs
  unfold Tables.definitions
  rw [hchanges.procedures, hchanges.impls]

/-- The procedures of an impl block are defined. -/
theorem State.procs_block_subset {e : Entry (Impl Expr)} (he : e.decl.procs = []) :
    (s.block e).procs ⊆ s.tables.definitions := by
  intro p hp
  unfold State.block SymbolTable.get? at hp
  cases hfind : s.tables.impls.entries.find? fun f => f.id == e.id with
  | none =>
    rw [hfind, Option.map_none, Option.getD_none, he] at hp
    cases hp
  | some f =>
    rw [hfind] at hp
    exact List.mem_append_right _
      (List.mem_flatMap.mpr ⟨f, List.mem_of_find?_eq_some hfind, hp⟩)

theorem State.definitions_addProc {e : Entry (Impl Expr)} {p q : Proc Expr}
    (hq : q ∈ (s.addProc e p).tables.definitions) : q ∈ s.tables.definitions ∨ q = p := by
  rcases List.mem_append.mp hq with hq | hq
  · exact .inl (List.mem_append_left _ hq)
  · obtain ⟨f, hf, hq⟩ := List.mem_flatMap.mp hq
    obtain ⟨g, hg, rfl⟩ := List.mem_map.mp hf
    have hold : q ∈ g.decl.procs → q ∈ s.tables.definitions := fun hq =>
      List.mem_append_right _ (List.mem_flatMap.mpr ⟨g, hg, hq⟩)
    split at hq
    · rcases List.mem_append.mp hq with hq | hq
      · exact .inl (hold hq)
      · exact .inr (List.mem_singleton.mp hq)
    · exact .inl (hold hq)

theorem Tables.perm_definitions_procedure (tables : Tables) (e : Entry (Proc Expr)) :
    (tables.declare (.procedure e)).definitions.Perm (e.decl :: tables.definitions) := by
  unfold Tables.definitions Tables.declare
  simp only [SymbolTable.entries_declare, List.map_append, List.map_cons, List.map_nil,
    List.append_assoc]
  exact List.perm_middle

/-- An impl block has no procedures when it is declared. -/
theorem Tables.definitions_impl (tables : Tables) (id : Nat) (struct : StructDef) :
    (tables.declare (.impl ⟨id, ⟨struct, []⟩⟩)).definitions = tables.definitions := by
  unfold Tables.definitions Tables.declare
  simp only [SymbolTable.entries_declare, List.flatMap_append, List.flatMap_cons, List.flatMap_nil,
    List.append_nil]

end Definitions

namespace TreeRules

variable {file : String} {source : List Char} (I : TreeRules file source) {s t : State}

/-- A state at a moment of reading the text.  The property is true of all that its tables hold, for
the procedures defined so far, and the one of impl blocks is true of those that are complete. -/
structure At (os : List Nat) (s : State) : Prop where
  onward : Onward ⟨.ofSource file source, []⟩ ⟨s, os⟩
  holds : s.Holds (I.good s.tables.definitions)
  impls : ∀ e ∈ s.tables.impls.entries, e.id ∉ os → I.impl e.decl

/-- The property is true of what has been read. -/
def Gives (ps : List (Proc Expr)) : Outcome → Prop
  | .nothing | .procs _ _ => True
  | .statement e => e.All (I.good ps)
  | .body es => ∀ e ∈ es, e.All (I.good ps)
  | .proc p => ∀ e ∈ p.body, e.All (I.good ps)

variable {I} {os : List Nat}

theorem all_mono {ps qs : List (Proc Expr)} {e : Expr} (h : e.All (I.good ps)) (hsub : ps ⊆ qs) :
    e.All (I.good qs) :=
  h.mono fun _ => I.mono hsub

theorem all_plain {ps : List (Proc Expr)} {e : Expr} (he : e.IsPlain)
    (hheld : ∀ x ∈ e.held, x.All (I.good ps)) : e.All (I.good ps) :=
  .intro (I.plain he) hheld

namespace At

/-- A step that keeps the tables. -/
theorem step (h : I.At os s) (hstep : Moment.Step ⟨s, os⟩ ⟨t, os⟩) (htables : t.tables = s.tables)
    (hid : t.nextId = s.nextId) : I.At os t where
  onward := h.onward.tail hstep
  holds := by
    rw [htables]
    exact h.holds.of_same htables hid
  impls := by
    rw [htables]
    exact h.impls

theorem consume (h : I.At os s) {first : Token} {rest : List Token}
    (hunread : s.unread = first :: rest) : I.At os (s.consume first rest) :=
  h.step (.token hunread) rfl rfl

/-- While tokens and expressions are read, nothing is defined. -/
theorem course (h : I.At os s) {ds : List (Nat × String)} (hcourse : Course s ds t) :
    I.At os t where
  onward := h.onward.trans (hcourse.onward os)
  holds := by
    rw [hcourse.definitions_eq h.holds.numbered]
    exact Course.holds (fun _ => I.plain) h.holds hcourse
  impls := by
    rw [(hcourse.changes h.holds.numbered).impls]
    exact h.impls

theorem value (h : I.At os s) {e : Expr} (he : s.ReadsValue e t) :
    e.All (I.good t.tables.definitions) ∧ I.At os t := by
  obtain ⟨ds, hcourse⟩ := he.course
  refine ⟨?_, h.course hcourse⟩
  rw [hcourse.definitions_eq h.holds.numbered]
  exact (he.all (fun _ => I.plain) h.holds).1

theorem openScope (h : I.At os s) {bindings : List (Binding Expr)}
    (hbindings : ∀ b ∈ bindings, b.value.All (I.good s.tables.definitions)) :
    I.At os (s.openScope bindings) where
  onward := h.onward.tail (.openScope bindings)
  holds := h.holds.openScope hbindings
  impls := h.impls

theorem openParameters (h : I.At os s) (params : List TypedName) (pos : Position) :
    I.At os (s.openScope (s.defaults params pos)) :=
  h.openScope (List.forall_mem_map.mpr fun _ _ => all_defaultValue (fun _ => I.plain) _ _ _ _)

theorem closeScope (h : I.At os s) (entries : List (Entry (Binding Expr))) :
    I.At os (s.closeScope entries) where
  onward := h.onward.tail (.closeScope entries)
  holds := h.holds.closeScope entries
  impls := h.impls

theorem declareVariable (h : I.At os s) (binding : Binding Expr)
    (hbinding : binding.value.All (I.good s.tables.definitions)) :
    I.At os (s.declareNext fun id => .variable ⟨id, binding⟩) where
  onward := h.onward.tail (.declareVariable binding)
  holds := ⟨⟨List.forall_mem_append.mpr ⟨h.holds.tables.vars,
    List.forall_mem_singleton.mpr hbinding⟩, h.holds.tables.definitions⟩,
    (State.Extends.declare h.holds.numbered _ rfl).numbered⟩
  impls := h.impls

/-- Something is defined, and the variables stay. -/
theorem define {qs : List Nat} (h : I.At os s) (honward : Onward ⟨s, os⟩ ⟨t, qs⟩)
    (hvars : t.tables.vars = s.tables.vars)
    (hnew : ∀ p ∈ t.tables.definitions, p ∈ s.tables.definitions ∨
      (Expr.procDef p).All (I.good t.tables.definitions))
    (himpls : ∀ e ∈ t.tables.impls.entries, e.id ∉ qs → e ∈ s.tables.impls.entries ∧ e.id ∉ os) :
    I.At qs t where
  onward := h.onward.trans honward
  holds := by
    have hsub := honward.definitions_subset h.holds.numbered
    refine ⟨⟨fun e he => all_mono (h.holds.tables.vars e (hvars ▸ he)) hsub, fun p hp => ?_⟩,
      honward.numbered h.holds.numbered⟩
    exact (hnew p hp).elim (fun hp => all_mono (h.holds.tables.definitions p hp) hsub) id
  impls e he hid := h.impls e (himpls e he hid).1 (himpls e he hid).2

end At

/-- A procedure that has been read holds good when it has been defined. -/
theorem all_procDef {ps : List (Proc Expr)} {p : Proc Expr} (hs : I.At os s)
    (h : Run s (.proc p) t) (hbody : I.Gives t.tables.definitions (.proc p))
    (hsub : t.tables.definitions ⊆ ps) (hp : p ∈ ps) : (Expr.procDef p).All (I.good ps) :=
  .intro (I.procDef hs.onward h hbody hp) fun e he => all_mono (hbody e he) hsub

end TreeRules

section Keeps

open TreeRules

variable {file : String} {source : List Char} {I : TreeRules file source} {s t u v w : State}
  {y : Outcome} {os : List Nat}

/-- A loop with what is known in front of its body and behind it. -/
theorem TreeRules.At.forLoop {start stop : Expr} {es : List Expr} (pos : Position) (name : String)
    (hs : I.At os s) (hstart : start.All (I.good s.tables.definitions))
    (hstop : stop.All (I.good s.tables.definitions))
    (hrun : Run (s.openScope [⟨name, "i32", start⟩]) (.body es) t)
    (ht : I.At os t) (hes : I.Gives t.tables.definitions (.body es)) :
    (Expr.forLoop pos (t.binding ⟨s.nextId, ⟨name, "i32", start⟩⟩)
      (.range start.pos start stop) es).All (I.good t.tables.definitions) := by
  have hopen : I.At os (s.openScope [⟨name, "i32", start⟩]) :=
    hs.openScope (List.forall_mem_singleton.mpr hstart)
  have hsub : s.tables.definitions ⊆ t.tables.definitions :=
    hrun.definitions_subset hopen.holds.numbered
  have hcounter := ht.holds.binding ⟨s.nextId, ⟨name, "i32", start⟩⟩ (all_mono hstart hsub)
  have hrange : (Expr.range start.pos start stop).All (I.good t.tables.definitions) :=
    all_plain trivial (List.forall_mem_cons.mpr
      ⟨all_mono hstart hsub, List.forall_mem_singleton.mpr (all_mono hstop hsub)⟩)
  refine .intro (I.block hopen.onward hrun rfl) ?_
  exact List.forall_mem_cons.mpr ⟨hcounter, List.forall_mem_cons.mpr ⟨hrange, hes⟩⟩

/-- A procedure is declared when it has been read. -/
theorem TreeRules.At.declareProcedure {p : Proc Expr} (hs : I.At os s) (h : Run s (.proc p) t)
    (ht : I.At os t) (hbody : I.Gives t.tables.definitions (.proc p)) (pos : Position) :
    I.At os (t.complete.announce (fun id => .procedure ⟨id, p⟩) pos) ∧
      (Expr.procDef p).All
        (I.good (t.complete.announce (fun id => .procedure ⟨id, p⟩) pos).tables.definitions) := by
  obtain ⟨htables, _⟩ := t.complete.tables_announce (fun id => .procedure ⟨id, p⟩) pos
  have hstep : Onward ⟨t, os⟩ ⟨t.complete.announce (fun id => .procedure ⟨id, p⟩) pos, os⟩ :=
    .single (.declareProcedure pos h.number_eq)
  have hperm := t.tables.perm_definitions_procedure ⟨t.nextId, p⟩
  have hall := all_procDef hs h hbody (hstep.definitions_subset ht.holds.numbered) (by
    rw [htables]
    exact hperm.mem_iff.mpr List.mem_cons_self)
  refine ⟨ht.define hstep (by rw [htables]; rfl) (fun q hq => ?_) fun e he hid => ?_, hall⟩
  · rw [htables] at hq
    rcases List.mem_cons.mp (hperm.mem_iff.mp hq) with rfl | hq
    · exact .inr hall
    · exact .inl hq
  · rw [htables] at he
    exact ⟨he, hid⟩

/-- A procedure is added to the impl block that is being read. -/
theorem TreeRules.At.addProc {e : Entry (Impl Expr)} {p : Proc Expr} (hs : I.At (e.id :: os) s)
    (h : Run s (.proc p) t) (ht : I.At (e.id :: os) t)
    (hbody : I.Gives t.tables.definitions (.proc p)) :
    I.At (e.id :: os) (t.complete.addProc e p) := by
  have hstep : Onward ⟨t, e.id :: os⟩ ⟨t.complete.addProc e p, e.id :: os⟩ :=
    .single (.addProc h.number_eq)
  refine ht.define hstep rfl (fun q hq => ?_) fun f hf hid => ?_
  · rcases State.definitions_addProc hq with hold | rfl
    · exact .inl hold
    · exact .inr (all_procDef hs h hbody (hstep.definitions_subset ht.holds.numbered) hq)
  · obtain ⟨g, hg, rfl⟩ := List.mem_map.mp hf
    by_cases hsame : g.id = e.id
    · rw [if_pos hsame] at hid
      exact absurd (hsame ▸ List.mem_cons_self) hid
    · rw [if_neg hsame] at hid ⊢
      exact ⟨hg, hid⟩

theorem TreeRules.At.declareStruct (hs : I.At os s) (struct : StructDef) (pos : Position) :
    I.At os (s.announce (fun id => .struct ⟨id, struct⟩) pos) := by
  obtain ⟨htables, _⟩ := s.tables_announce (fun id => .struct ⟨id, struct⟩) pos
  refine hs.define (.single (.declareStruct struct pos)) (by rw [htables]; rfl) (fun p hp => ?_)
    fun e he hid => ?_
  · rw [htables] at hp
    exact .inl hp
  · rw [htables] at he
    exact ⟨he, hid⟩

/-- An impl block is declared, and its procedures are still to be read. -/
theorem TreeRules.At.openImpl (hs : I.At os s) (struct : StructDef) (pos : Position) :
    I.At (s.nextId :: os) (s.announce (fun id => .impl ⟨id, ⟨struct, []⟩⟩) pos) := by
  obtain ⟨htables, _⟩ := s.tables_announce (fun id => .impl ⟨id, ⟨struct, []⟩⟩) pos
  refine hs.define (.single (.openImpl struct pos)) (by rw [htables]; rfl) (fun p hp => ?_)
    fun e he hid => ?_
  · rw [htables, Tables.definitions_impl] at hp
    exact .inl hp
  · rw [htables] at he
    rcases List.mem_append.mp he with he | he
    · exact ⟨he, fun h => hid (List.mem_cons_of_mem _ h)⟩
    · rw [List.mem_singleton.mp he] at hid
      exact absurd List.mem_cons_self hid

/-- An impl block is complete when its procedures have been read. -/
theorem TreeRules.At.closeImpl {struct : StructDef} {ps : List (Proc Expr)} {pos : Position}
    (hs : I.At os s)
    (h : Run (s.announce (fun id => .impl ⟨id, ⟨struct, []⟩⟩) pos)
      (.procs ⟨s.nextId, ⟨struct, []⟩⟩ ps) t)
    (ht : I.At (s.nextId :: os) t) (place : Position) :
    I.At os t ∧ (Expr.implBlock place s.nextId (t.block ⟨s.nextId, ⟨struct, []⟩⟩)).All
      (I.good t.tables.definitions) := by
  have hcomplete := I.complete pos hs.onward h
  refine ⟨⟨ht.onward.tail .closeImpl, ht.holds, fun e he hid => ?_⟩,
    .intro (I.implBlock place _ hcomplete) (List.forall_mem_map.mpr fun p hp =>
      ht.holds.tables.definitions p (State.procs_block_subset rfl hp))⟩
  by_cases hsame : e.id = s.nextId
  · have hblock : t.block ⟨s.nextId, ⟨struct, []⟩⟩ = e.decl := by
      rw [State.block, ← hsame, ht.holds.numbered.impls.get?_of_mem he, Option.getD_some]
    rw [← hblock]
    exact hcomplete
  · refine ht.impls e he fun hmem => ?_
    exact (List.mem_cons.mp hmem).elim hsame hid

/-- What the tables hold and what is read keeps the property. -/
theorem Run.keeps (h : Run s y t) (os : List Nat) (hs : I.At (y.growing ++ os) s) :
    I.At (y.growing ++ os) t ∧ I.Gives t.tables.definitions y := by
  induction h generalizing os with
  | course h => exact ⟨hs.course h, trivial⟩
  | report h =>
    obtain ⟨htables, hid⟩ := State.tables_report _ _
    exact ⟨hs.step (.report h) htables hid, trivial⟩
  | leave n => exact ⟨hs.step (.leave n) rfl rfl, trivial⟩
  | trans _ _ ih ih' => exact ih' os (ih os hs).1
  | dropStatement _ ih | dropBody _ ih | dropProc _ ih => exact ⟨(ih os hs).1, trivial⟩
  | value hunread hstart hvalue =>
    obtain ⟨ds, hcourse⟩ := (course_of_exprFrom hunread hstart).1 _ _ hvalue
    have hall := (all_of_exprFrom (fun _ => I.plain) hs.holds hunread hstart hvalue).1
    refine ⟨hs.course hcourse, ?_⟩
    rw [hcourse.definitions_eq hs.holds.numbered]
    exact hall
  | letStatement name typeName hunread _ hvalue hcheck ih ih' =>
    obtain ⟨hall, hu⟩ := (ih os (hs.consume hunread)).1.value hvalue
    have hall' := all_mono hall (hcheck.definitions_subset hu.holds.numbered)
    refine ⟨(ih' os hu).1.declareVariable ⟨name, typeName, _⟩ hall'.boundValue, ?_⟩
    exact all_plain trivial (List.forall_mem_singleton.mpr hall')
  | bareReturn hunread => exact ⟨hs.consume hunread, all_plain trivial (List.forall_mem_nil _)⟩
  | returnStatement hunread hvalue =>
    obtain ⟨hall, ht⟩ := (hs.consume hunread).value hvalue
    exact ⟨ht, all_plain trivial (List.forall_mem_singleton.mpr hall)⟩
  | ifStatement hunread htest hbody ih | whileStatement hunread htest hbody ih =>
    obtain ⟨hall, ht⟩ := (hs.consume hunread).value htest
    obtain ⟨hu, hes⟩ := ih os ht
    have hall' := all_mono hall (hbody.definitions_subset ht.holds.numbered)
    exact ⟨hu, .intro (I.block ht.onward hbody rfl) (List.forall_mem_cons.mpr ⟨hall', hes⟩)⟩
  | forLoop name hunread _ hstart hdots hstop hbody ih ih' =>
    obtain ⟨hfirst, hu⟩ := (ih os (hs.consume hunread)).1.value hstart
    obtain ⟨hlast, hv⟩ := (hu.consume hdots).value hstop
    have hfirst' := all_mono hfirst
      ((hstop.onward []).definitions_subset (hu.consume hdots).holds.numbered)
    obtain ⟨hw, hes⟩ := ih' os (hv.openScope (List.forall_mem_singleton.mpr hfirst'))
    exact ⟨hw.closeScope _, hv.forLoop _ name hfirst' hlast hbody hw hes⟩
  | structDef struct pos hunread _ ih =>
    exact ⟨(ih os (hs.consume hunread)).1.declareStruct struct pos,
      all_plain trivial (List.forall_mem_nil _)⟩
  | proc name returnType params pos hunread _ _ ih ih' =>
    obtain ⟨hu, hes⟩ := ih' os ((ih os (hs.consume hunread)).1.openParameters params pos)
    exact ⟨hu.closeScope _, hes⟩
  | procDef pos hproc ih =>
    obtain ⟨ht, hbody⟩ := ih os hs
    exact hs.declareProcedure hproc ht hbody pos
  | implBlock pos hunread _ hprocs ih ih' =>
    obtain ⟨ht, _⟩ := ih os (hs.consume hunread)
    exact ht.closeImpl hprocs (ih' os (ht.openImpl _ pos)).1 _
  | endBody _ ih => exact ⟨(ih os hs).1, List.forall_mem_nil _⟩
  | consBody _ _ _ hbody ih ih' ih'' =>
    obtain ⟨hu, he⟩ := ih' os (ih os hs).1
    obtain ⟨hv, hes⟩ := ih'' os hu
    have he' := all_mono he (hbody.definitions_subset hu.holds.numbered)
    exact ⟨hv, List.forall_mem_cons.mpr ⟨he', hes⟩⟩
  | endProcs _ ih => exact ⟨(ih _ hs).1, trivial⟩
  | consProcs hproc _ ih ih' =>
    obtain ⟨ht, hbody⟩ := ih _ hs
    exact ⟨(ih' os (hs.addProc hproc ht hbody)).1, trivial⟩

/-- What a program and the tables at its end hold keeps the property. -/
theorem TreeRules.parseProgram (I : TreeRules file source) :
    (∀ e ∈ (parseProgram file source).program,
        e.All (I.good (parseProgram file source).state.tables.definitions)) ∧
      (parseProgram file source).state.tables.All
        (I.good (parseProgram file source).state.tables.definitions) ∧
      ∀ e ∈ (parseProgram file source).state.tables.impls.entries, I.impl e.decl := by
  have hstart : I.At [] (.ofSource file source) :=
    ⟨.refl, ⟨⟨nofun, nofun⟩, State.numbered_ofSource file source⟩, nofun⟩
  obtain ⟨es, hprogram, hrun⟩ := run_finish (.ofSource file source)
  obtain ⟨hfinish, hes⟩ := hrun.keeps [] hstart
  refine ⟨fun e he => hes e ?_, hfinish.holds.tables, fun e he => hfinish.impls e he nofun⟩
  rw [show es = (Session.ofSource file source).finish.program by
    rw [hprogram]
    rfl]
  exact he

end Keeps
end ScriptFront
