import ScriptFront.Proofs.Layout.FirstTokens
import ScriptFront.Proofs.Layout.Provenance
import ScriptFront.Proofs.Scanning.Places

/-!
# The order of a program is that of its text

The statements of a body are read one after the other, each from its first token on, and so are the
procedures of an impl block.  Tokens stand in a text in the order in which they are read, and
whatever is skipped on the way is skipped for good, so positions increase in every such list.

**Results.**

* `Run.procs_block`: an impl block has the procedures that are read between its braces.
* `body_inOrder`: the statements of a body, each at its first token and in order.
* `parseProgram_inOrder`: the positions of a program, of its diagnostics and of its lists.
-/

namespace ScriptFront

open Parse

/-- The statements of a block or of a procedure. -/
def Expr.body : Expr → List Expr
  | ifStatement _ _ body | whileStatement _ _ body | forLoop _ _ _ body => body
  | procDef proc => proc.body
  | _ => []

/-- The procedures of an impl block. -/
def Expr.procs : Expr → List (Proc Expr)
  | implBlock _ _ block => block.procs
  | _ => []

/-- A statement that is read at some moment of reading a text, from its first token on. -/
def Expr.ReadIn (file : String) (source : List Char) (e : Expr) : Prop :=
  ∃ s os first rest, Onward ⟨.ofSource file source, []⟩ ⟨s, os⟩ ∧ s.unread = first :: rest ∧
    (statement s).1 = some e ∧ e.pos = first.pos

/-- The statements in the body of an expression start at their first tokens, and its lists are in
order. -/
structure Expr.InOrder (file : String) (source : List Char) (e : Expr) : Prop where
  statements : ∀ b ∈ e.body, b.ReadIn file source
  body : (e.body.map Expr.pos).Pairwise Position.Before
  procs : (e.procs.map Proc.pos).Pairwise Position.Before

section Blocks

variable {s t : State} {y : Outcome} {entry f : Entry (Impl Expr)} {ps : List (Proc Expr)}

/-- What has been declared when nothing is growing stays as it is. -/
theorem Run.mem_impls (h : Run s y t) (hs : s.Numbered) (hy : y.growing = [])
    (hf : f ∈ s.tables.impls.entries) : f ∈ t.tables.impls.entries := by
  have honward := h.onward []
  rw [hy] at honward
  obtain ⟨g, hg, hgrows⟩ := (honward.grows hs).exists_impl hf
  rwa [hgrows.complete List.not_mem_nil] at hg

/-- The procedures that are read are added to the impl block. -/
theorem Run.exists_grown (h : Run s (.procs entry ps) t) (hs : s.Numbered)
    (hf : f ∈ s.tables.impls.entries) (hid : f.id = entry.id) :
    ∃ g ∈ t.tables.impls.entries, g.id = entry.id ∧ g.decl.procs = f.decl.procs ++ ps := by
  induction ps generalizing s f with
  | nil =>
    cases h with
    | endProcs hskip => exact ⟨f, hskip.mem_impls hs rfl hf, hid, (List.append_nil _).symm⟩
  | cons p ps ih =>
    cases h with
    | @consProcs _ u _ _ _ _ hproc hothers =>
      have hadded := List.mem_map_of_mem (f := fun e => if e.id = entry.id then
        { e with decl := { e.decl with procs := e.decl.procs ++ [p] } } else e)
        (hproc.mem_impls hs rfl hf)
      rw [if_pos hid] at hadded
      have hnumbered := (State.Extends.complete (hproc.numbered hs)).numbered.addProc entry p
      obtain ⟨g, hg, hgid, hprocs⟩ := ih hothers hnumbered hadded hid
      exact ⟨g, hg, hgid, by rw [hprocs, List.append_assoc]; rfl⟩

/-- An impl block has the procedures that are read between its braces. -/
theorem Run.procs_block {struct : StructDef} {pos : Position} (hs : s.Numbered)
    (h : Run (s.announce (fun id => .impl ⟨id, ⟨struct, []⟩⟩) pos)
      (.procs ⟨s.nextId, ⟨struct, []⟩⟩ ps) t) :
    (t.block ⟨s.nextId, ⟨struct, []⟩⟩).procs = ps := by
  obtain ⟨htables, _⟩ := s.tables_announce (fun id => .impl ⟨id, ⟨struct, []⟩⟩) pos
  have hnumbered := State.Numbered.announce hs (fun id => .impl ⟨id, ⟨struct, []⟩⟩)
    (fun _ => rfl) pos
  obtain ⟨g, hg, hid, hprocs⟩ := h.exists_grown (f := ⟨s.nextId, ⟨struct, []⟩⟩) hnumbered (by
    rw [htables]
    exact List.mem_append_right _ List.mem_cons_self) rfl
  rw [State.block, ← hid, (h.numbered hnumbered).impls.get?_of_mem hg, Option.getD_some, hprocs]
  rfl

end Blocks

section Texts

variable {file : String} {source : List Char} {s t : State} {os : List Nat}

theorem tokenize_pairwise (file : String) (source : List Char) :
    (tokenize file source).Pairwise fun t u => t.pos.Before u.pos :=
  (Reader.exact_start file source).laidOut_drain.placedBetween.pairwise (Nat.le_refl _)

/-- The tokens that are left of a text stand in order. -/
theorem unread_pairwise (h : Onward ⟨.ofSource file source, []⟩ ⟨s, os⟩) :
    s.unread.Pairwise fun t u => t.pos.Before u.pos := by
  obtain ⟨ts, hts⟩ := h.later.reads
  have htokens := tokenize_pairwise file source
  rw [show tokenize file source = ts ++ s.unread from hts.unread] at htokens
  exact (List.pairwise_append.mp htokens).2.1

/-- The statements of a body are read one by one, each from its first token on, and stand in
order. -/
theorem body_inOrder {es : List Expr} (hs : Onward ⟨.ofSource file source, []⟩ ⟨s, os⟩)
    (h : Run s (.body es) t) :
    (∀ e ∈ es, e.ReadIn file source) ∧ (es.map Expr.pos).Pairwise Position.Before := by
  refine ⟨?_, h.passes_body.pairwise (unread_pairwise hs)⟩
  induction es generalizing s with
  | nil => exact List.forall_mem_nil _
  | cons e es ih =>
    cases h with
    | consBody hskip hstatement hfirst hothers =>
      have ht := hs.trans (hskip.onward os)
      have hgives := congrArg Prod.fst hstatement
      obtain ⟨first, rest, hunread, hpos⟩ := exists_first_of_statement hgives
      refine List.forall_mem_cons.mpr ⟨⟨_, os, first, rest, ht, hunread, hgives, hpos⟩, ?_⟩
      exact ih (ht.trans (hfirst.onward os)) hothers

/-- Everything that is read is in order. -/
def orderRules (file : String) (source : List Char) : TreeRules file source where
  good _ := Expr.InOrder file source
  mono _ h := h
  plain {_ x} hplain := by
    cases x <;> first | exact hplain.elim | exact ⟨List.forall_mem_nil _, .nil, .nil⟩
  block {_ s t os es x} hs hrun hblock := by
    obtain ⟨hread, horder⟩ := body_inOrder hs hrun
    cases x <;> cases hblock <;> exact ⟨hread, horder, .nil⟩
  procDef {_ s t os p} hs hrun _ _ := by
    cases hrun with
    | @proc _ t _ _ _ _ name returnType params pos hunread hhead hbody =>
      have hhead := (hs.tail (.token hunread)).trans (hhead.onward os)
      have hopen := hhead.tail (.openScope (t.defaults params pos))
      obtain ⟨hread, horder⟩ := body_inOrder hopen hbody
      exact ⟨hread, horder, .nil⟩
  impl block := (block.procs.map Proc.pos).Pairwise Position.Before
  complete {ps s t os struct} pos hs hrun := by
    rw [hrun.procs_block (hs.numbered (State.numbered_ofSource file source))]
    exact hrun.passes_procs.pairwise (unread_pairwise (hs.tail (.openImpl struct pos)))
  implBlock _ _ hblock := ⟨List.forall_mem_nil _, .nil, hblock⟩

end Texts

/--
Every position in a program and in the definitions of procedures is that of a token, and so is that
of every diagnostic.  A statement starts at its first token, from wherever it is read, and
so do those of a program and of every body in it.  Positions increase in all these lists and in
those of the procedures of impl blocks.
-/
theorem parseProgram_inOrder (file : String) (source : List Char) :
    (∀ e ∈ (parseProgram file source).trees, ∀ x, e.Contains x →
        x.pos ∈ tokenPositions file source ∧ x.InOrder file source) ∧
      (∀ d ∈ (parseProgram file source).diagnostics, d.pos ∈ tokenPositions file source) ∧
      (∀ s e, (statement s).1 = some e →
        ∃ first rest, s.unread = first :: rest ∧ e.pos = first.pos) ∧
      (∀ e ∈ (parseProgram file source).program, e.ReadIn file source) ∧
      ((parseProgram file source).program.map Expr.pos).Pairwise Position.Before ∧
      ∀ e ∈ (parseProgram file source).state.tables.impls.entries,
        (e.decl.procs.map Proc.pos).Pairwise Position.Before := by
  obtain ⟨htrees, hdiagnostics⟩ := parseProgram_positions file source
  obtain ⟨hinOrder, htables, himpls⟩ := (orderRules file source).parseProgram
  obtain ⟨es, hes, hrun⟩ := run_finish (.ofSource file source)
  have hbody := body_inOrder .refl hrun
  rw [← show (parseProgram file source).program = es from hes] at hbody
  refine ⟨fun e he x hx => ⟨htrees e he x hx, ?_⟩, hdiagnostics,
    fun _ _ => exists_first_of_statement, hbody.1, hbody.2, himpls⟩
  rcases List.mem_append.mp he with he | he
  · exact ((hinOrder e he).contains hx).self
  · obtain ⟨p, hp, rfl⟩ := List.mem_map.mp he
    exact ((htables.definitions p hp).contains hx).self

/-- Statements in the body of a loop, behind one that fails, and procedures of an impl block. -/
theorem parseProgram_inOrder_nested :
    let source := "struct S { } impl S { proc f(a: i32) { a++; } proc g() { } }
      while true { let b = -2; c = 1; b = b + 1; }".toList
    let program := (parseProgram "p" source).program
    (program.map Expr.pos).Pairwise Position.Before ∧
      (∃ e ∈ program, e.procs.length = 2 ∧ (e.procs.map Proc.pos).Pairwise Position.Before) ∧
      ∃ e ∈ program, e.body.length = 2 ∧ (∀ b ∈ e.body, b.ReadIn "p" source) ∧
        (e.body.map Expr.pos).Pairwise Position.Before := by
  intro source program
  obtain ⟨hinside, _, _, _, horder, _⟩ := parseProgram_inOrder "p" source
  have hprocs : program[1]?.map (fun e => e.procs.length) = some 2 := by decide +kernel
  have hbody : program[2]?.map (fun e => e.body.length) = some 2 := by decide +kernel
  obtain ⟨impl, himpl, hprocs⟩ := Option.map_eq_some_iff.mp hprocs
  obtain ⟨loop, hloop, hbody⟩ := Option.map_eq_some_iff.mp hbody
  replace himpl := List.mem_of_getElem? himpl
  replace hloop := List.mem_of_getElem? hloop
  have hlists (e : Expr) (he : e ∈ program) : e.InOrder "p" source :=
    (hinside e (List.mem_append_left _ he) e (.self e)).2
  exact ⟨horder, ⟨impl, himpl, hprocs, (hlists impl himpl).procs⟩,
    loop, hloop, hbody, (hlists loop hloop).statements, (hlists loop hloop).body⟩

end ScriptFront
