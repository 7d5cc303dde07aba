import ScriptFront.Proofs.Layout.Provenance
import ScriptFront.Proofs.Names.Readers

/-!
# Names are written in the text

Statements declare the names that are written in their heads.  With what is known of expressions,
every name that is read of a source text is the lexeme of one of its identifiers, or the name of a
builtin type; the type of a variable whose type is not written is that of its value.

**Results.**

* `Parse.keeps_statementFrom`, `Parse.keeps_block`: statements and blocks.
* `parseProgram_names_written`: all names in what is read of a text are written there.
-/

namespace ScriptFront

namespace Parse

variable {P : String → Prop}

section Simple

/-- The names that are written in the head of a statement. -/
abbrev Fields (P : String → Prop) (fields : List TypedName) : Prop :=
  ∀ name ∈ fields.flatMap TypedName.names, P name

theorem keeps_typedName : Keeps P (fun f => ∀ name ∈ f.names, P name) typedName :=
  (keeps_expect _).bind fun _ hname => (keeps_expect _).bind fun _ _ =>
    (keeps_expect _).bind fun _ htype => keeps_pure
      (List.forall_mem_cons.mpr ⟨hname rfl, List.forall_mem_singleton.mpr (htype rfl)⟩)

theorem keeps_optionalType : Keeps P (fun written => ∀ name ∈ written, P name) optionalType :=
  (keeps_accept _).choose
    ((keeps_expect _).bind fun _ htype => keeps_pure (by rintro _ ⟨⟩; exact htype rfl))
    (keeps_pure nofun)

theorem fields_cons {f : TypedName} {fields : List TypedName} (hf : ∀ name ∈ f.names, P name)
    (hfields : Fields P fields) : Fields P (f :: fields) :=
  List.forall_mem_append.mpr ⟨hf, hfields⟩

theorem keeps_typedNames (n : Nat) : Keeps P (Fields P) (typedNames n) := by
  induction n with
  | zero => exact keeps_typedName.bind fun _ hfirst => keeps_pure (fields_cons hfirst nofun)
  | succ n ih =>
    exact keeps_typedName.bind fun _ hfirst => (keeps_accept _).choose
      (ih.bind fun _ hothers => keeps_pure (fields_cons hfirst hothers))
      (keeps_pure (fields_cons hfirst nofun))

theorem keeps_parameters : Keeps P (Fields P) parameters :=
  (keeps_check _).choose (keeps_pure nofun) (.bounded keeps_typedNames)

theorem keeps_structFields (n : Nat) : Keeps P (Fields P) (structFields n) := by
  induction n with
  | zero => exact keeps_typedName.bind fun _ hfirst => keeps_pure (fields_cons hfirst nofun)
  | succ n ih =>
    exact (keeps_check _).choose (keeps_pure nofun) (keeps_typedName.bind fun _ hfirst =>
      (keeps_accept _).choose (ih.bind fun _ hothers => keeps_pure (fields_cons hfirst hothers))
        (keeps_pure (fields_cons hfirst nofun)))

theorem keeps_checkWrittenType (written : Option String) (value : Expr) :
    Keeps P Anything (checkWrittenType written value) := by
  cases written with
  | none => exact keeps_pure trivial
  | some typeName => exact .ite (keeps_pure trivial) (keeps_report _ _)

theorem keeps_warnIfShadowed (shadowed : Bool) (sort : String) (name : Token) :
    Keeps P Anything (warnIfShadowed shadowed sort name) :=
  .ite (keeps_report _ _) (keeps_pure trivial)

theorem keeps_letStatement (hbuiltin : ∀ name ∈ builtinTypes, P name) (keyword : Token) :
    Keeps P (Expr.NamedBy P) (letStatement keyword) := by
  refine (keeps_expect _).bind fun name hname => keeps_optionalType.bind fun written hwritten =>
    (keeps_expect _).bind fun _ _ => keeps_expr.bind fun value hvalue =>
      (keeps_checkWrittenType written value).bind fun _ _ => ?_
  have htype : P (written.getD value.valueType) := by
    cases written with
    | none => exact hvalue.valueType hbuiltin
    | some typeName => exact hwritten typeName rfl
  refine keeps_declareNew .variable (fun _ => ⟨hname rfl, htype, hvalue.boundValue⟩)
    fun _ _ => keeps_pure ?_
  exact Expr.namedBy_iff.mpr ⟨List.forall_mem_cons.mpr ⟨hname rfl,
    List.forall_mem_singleton.mpr htype⟩, List.forall_mem_singleton.mpr hvalue⟩

theorem keeps_returnStatement (keyword : Token) :
    Keeps P (Expr.NamedBy P) (returnStatement keyword) := by
  refine keeps_peek.bind fun next _ => ?_
  have hbare : (Expr.returnStatement keyword.pos none).NamedBy P :=
    Expr.namedBy_iff.mpr ⟨nofun, nofun⟩
  cases next with
  | none => exact keeps_pure hbare
  | some t =>
    exact .ite (keeps_pure hbare) (keeps_expr.bind fun _ hvalue => keeps_pure
      (Expr.namedBy_iff.mpr ⟨nofun, List.forall_mem_singleton.mpr hvalue⟩))

theorem keeps_condition : Keeps P (Expr.NamedBy P) condition :=
  keeps_expr.bind fun _ htest => .ite (keeps_fail _ _) (keeps_pure htest)

theorem keeps_structStatement (keyword : Token) :
    Keeps P (Expr.NamedBy P) (structStatement keyword) := by
  refine (keeps_expect _).bind fun name hname => (keeps_expect _).bind fun _ _ =>
    (Keeps.bounded keeps_structFields).bind fun fields hfields =>
      (keeps_expect _).bind fun _ _ => ?_
  have hstruct : StructDef.NamedBy P ⟨name.lexeme, fields⟩ :=
    List.forall_mem_cons.mpr ⟨hname rfl, hfields⟩
  exact keeps_declareNew .struct (fun _ => hstruct) fun _ shadowed =>
    (keeps_warnIfShadowed shadowed "struct" name).bind fun _ _ =>
      keeps_pure (Expr.namedBy_iff.mpr ⟨hstruct, nofun⟩)

end Simple

section Blocks

variable {block : Bool → Parse (List Expr)}
  (hb : ∀ ofProc, Keeps P (fun es => ∀ e ∈ es, e.NamedBy P) (block ofProc))
include hb

theorem keeps_procedure (keyword : Token) :
    Keeps P (fun np => np.2.NamedBy P) (procedure block keyword) := by
  refine (keeps_expect _).bind fun name hname => (keeps_expect _).bind fun _ _ =>
    keeps_parameters.bind fun params hparams => (keeps_expect _).bind fun _ _ =>
      keeps_optionalType.bind fun returnType hreturn => keeps_tables.bind fun known hknown => ?_
  have hdefaults : ∀ b ∈ params.map (·.defaultBinding known.structs name.pos), b.NamedBy P := by
    refine List.forall_mem_map.mpr fun param hparam => ?_
    have hwritten (name : String) (hname : name ∈ param.names) : P name :=
      hparams name (List.mem_flatMap.mpr ⟨param, hparam, hname⟩)
    exact ⟨hwritten _ List.mem_cons_self, hwritten _ (List.mem_cons_of_mem _ List.mem_cons_self),
      namedBy_defaultValue hknown.structs _ _ _⟩
  refine (Keeps.withVariables hdefaults fun _ _ => hb true).bind fun body hbody =>
    keeps_completeProc.bind fun number _ => keeps_pure (Proc.namedBy_iff.mpr ⟨?_, hbody⟩)
  refine List.forall_mem_cons.mpr ⟨hname rfl, List.forall_mem_append.mpr ⟨?_, hparams⟩⟩
  exact fun typeName htype => hreturn typeName (Option.mem_toList.mp htype)

theorem keeps_procStatement (keyword : Token) :
    Keeps P (Expr.NamedBy P) (procStatement block keyword) :=
  (keeps_procedure hb keyword).bind fun np hproc =>
    keeps_declareNew .procedure (fun _ => hproc) fun _ shadowed =>
      (keeps_warnIfShadowed shadowed "procedure" np.1).bind fun _ _ => keeps_pure hproc

theorem keeps_implProc : Keeps P (Proc.NamedBy P) (implProc block) :=
  (keeps_expect _).bind fun keyword _ => (keeps_procedure hb keyword).bind fun _ => keeps_pure

theorem keeps_implProcs (entry : Entry (Impl Expr)) (n : Nat) :
    Keeps P Anything (implProcs block entry n) := by
  induction n with
  | zero => exact keeps_failAtEnd _
  | succ n ih =>
    exact (keeps_accept _).choose (keeps_pure trivial) ((keeps_implProc hb).bind fun _ hproc =>
      (keeps_addProc entry hproc).bind fun _ _ => ih)

theorem keeps_implBody {struct : StructDef} (hstruct : struct.NamedBy P) (name : Token) :
    Keeps P (fun entry => entry.decl.NamedBy P) (implBody block struct name) := by
  have himpl : Impl.NamedBy P ⟨struct, []⟩ := ⟨hstruct, List.forall_mem_nil _⟩
  exact keeps_declareNew .impl (fun _ => himpl) fun _ shadowed =>
    (keeps_warnIfShadowed shadowed "impl" name).bind fun _ _ =>
      (Keeps.bounded (keeps_implProcs hb _)).bind fun _ _ => keeps_pure himpl

theorem keeps_implStatement (keyword : Token) :
    Keeps P (Expr.NamedBy P) (implStatement block keyword) := by
  refine (keeps_expect _).bind fun name _ => keeps_tables.bind fun known hknown => ?_
  split
  · exact keeps_fail _ _
  · rename_i struct hlookup
    have hstruct := hknown.structs struct (SymbolTable.mem_of_lookup? hlookup)
    refine (keeps_expect _).bind fun _ _ => (keeps_implBody hb hstruct name).bind fun _ hentry =>
      (keeps_currentImpl hentry).bind fun _ himpl => keeps_pure ?_
    exact Expr.namedBy_iff.mpr ⟨himpl.struct, List.forall_mem_map.mpr himpl.procs⟩

omit hb in
theorem keeps_firstBinding {initial : Binding Expr} (hinitial : initial.NamedBy P)
    {entries : List (Entry (Binding Expr))} (hentries : ∀ e ∈ entries, e.decl.NamedBy P) :
    Keeps P (Binding.NamedBy P) (firstBinding initial entries) := by
  cases entries with
  | nil => exact keeps_pure hinitial
  | cons e _ => exact keeps_currentBinding (hentries e List.mem_cons_self)

theorem keeps_forStatement (hbuiltin : ∀ name ∈ builtinTypes, P name) (keyword : Token) :
    Keeps P (Expr.NamedBy P) (forStatement block keyword) := by
  refine (keeps_expect _).bind fun name hname => (keeps_expect _).bind fun _ _ =>
    keeps_expr.bind fun start hstart => (keeps_expect _).bind fun _ _ =>
      keeps_expr.bind fun stop hstop => ?_
  have hinitial : Binding.NamedBy P ⟨name.lexeme, "i32", start⟩ :=
    ⟨hname rfl, hbuiltin "i32" (by decide), hstart⟩
  have hrange : (Expr.range start.pos start stop).NamedBy P :=
    Expr.namedBy_iff.mpr ⟨nofun, List.forall_mem_cons.mpr
      ⟨hstart, List.forall_mem_singleton.mpr hstop⟩⟩
  refine .withVariables (List.forall_mem_singleton.mpr hinitial) fun entries hentries =>
    (hb false).bind fun body hbody => (keeps_firstBinding hinitial hentries).bind
      fun counter hcounter => keeps_pure (Expr.namedBy_iff.mpr ⟨?_, ?_⟩)
  · exact List.forall_mem_cons.mpr ⟨hcounter.name, List.forall_mem_singleton.mpr hcounter.typeName⟩
  · exact List.forall_mem_cons.mpr ⟨hcounter.value, List.forall_mem_cons.mpr ⟨hrange, hbody⟩⟩

theorem keeps_statementFrom (hbuiltin : ∀ name ∈ builtinTypes, P name) (t : Token) :
    Keeps P (Expr.NamedBy P) (statementFrom block t) := by
  unfold statementFrom
  split
  · exact keeps_letStatement hbuiltin t
  · exact keeps_procStatement hb t
  · exact keeps_structStatement t
  · exact keeps_implStatement hb t
  · exact keeps_condition.bind fun _ htest => (hb false).bind fun _ hbody =>
      keeps_pure (Expr.namedBy_iff.mpr ⟨nofun, List.forall_mem_cons.mpr ⟨htest, hbody⟩⟩)
  · exact keeps_condition.bind fun _ htest => (hb false).bind fun _ hbody =>
      keeps_pure (Expr.namedBy_iff.mpr ⟨nofun, List.forall_mem_cons.mpr ⟨htest, hbody⟩⟩)
  · exact keeps_forStatement hb hbuiltin t
  · exact keeps_returnStatement t
  any_goals exact keeps_exprFrom t
  exact keeps_fail _ _

theorem keeps_optionalStatement (hbuiltin : ∀ name ∈ builtinTypes, P name) :
    Keeps P (fun e => ∀ x ∈ e, x.NamedBy P) (optionalStatement block) :=
  (keeps_accept _).choose (keeps_pure nofun) (keeps_advance.bind fun t _ =>
    (keeps_statementFrom hb hbuiltin t).bind fun e he => keeps_pure (by rintro _ ⟨⟩; exact he))

/-- A statement keeps the property, also where it fails and the rest of it is skipped. -/
theorem keeps_statementWith (hbuiltin : ∀ name ∈ builtinTypes, P name) :
    Keeps P (fun e => ∀ x ∈ e, x.NamedBy P) (always (statementWith block)) := by
  intro s hs
  have hafter := keeps_optionalStatement hb hbuiltin s hs
  unfold always statementWith
  cases hr : optionalStatement block s with
  | ok e t =>
    rw [hr] at hafter
    exact hafter
  | error p t =>
    rw [hr] at hafter
    exact ⟨nofun, hafter.recover _ p⟩

theorem keeps_bodyRest (ofProc : Bool) {e : Option Expr} (he : ∀ x ∈ e, x.NamedBy P) :
    Keeps P (fun es => ∀ x ∈ es, x.NamedBy P) (bodyRest block ofProc e) := by
  have hfirst : ∀ x ∈ e.toList, x.NamedBy P := fun x hx => he x (Option.mem_toList.mp hx)
  exact keeps_leaveClosedBlock.choose (keeps_pure hfirst)
    (.ite (keeps_skipToClose.bind fun _ _ => keeps_pure hfirst)
      ((hb ofProc).bind fun _ hothers => keeps_pure (List.forall_mem_append.mpr ⟨hfirst, hothers⟩)))

end Blocks

section Programs

theorem keeps_braced {body : Bool → Parse (List Expr)}
    (hbody : ∀ ofProc, Keeps P (fun es => ∀ e ∈ es, e.NamedBy P) (body ofProc)) (ofProc : Bool) :
    Keeps P (fun es => ∀ e ∈ es, e.NamedBy P) (braced body ofProc) :=
  (keeps_expect _).bind fun _ _ => hbody ofProc

variable (hbuiltin : ∀ name ∈ builtinTypes, P name)
include hbuiltin

theorem keeps_bodyUpTo (n : Nat) (ofProc : Bool) :
    Keeps P (fun es => ∀ e ∈ es, e.NamedBy P) (bodyUpTo n ofProc) := by
  induction n generalizing ofProc with
  | zero => exact keeps_failAtEnd _
  | succ n ih =>
    refine keeps_peek.bind fun next _ => ?_
    cases next with
    | none => exact keeps_failAtEnd _
    | some t =>
      exact .ite (keeps_advance.bind fun _ _ => keeps_pure (List.forall_mem_nil _))
        ((keeps_statementWith (keeps_braced ih) hbuiltin).bind fun _ he =>
          keeps_bodyRest ih ofProc he)

theorem keeps_block (ofProc : Bool) : Keeps P (fun es => ∀ e ∈ es, e.NamedBy P) (block ofProc) :=
  keeps_braced (fun ofProc => .bounded fun n => keeps_bodyUpTo hbuiltin n ofProc) ofProc

/-- Reading a program to its end keeps the property. -/
theorem namedBy_finish {s : Session} (hstate : s.state.NamedBy P)
    (hprogram : ∀ e ∈ s.program, e.NamedBy P) :
    s.finish.state.NamedBy P ∧ ∀ e ∈ s.finish.program, e.NamedBy P := by
  obtain ⟨program, s⟩ := s
  induction s using statement_induction generalizing program with
  | nil s hunread =>
    rw [Session.finish_of_nil hunread]
    exact ⟨hstate, hprogram⟩
  | cons s t rest hunread ih =>
    obtain ⟨hresult, hnext⟩ := keeps_statementWith (keeps_block hbuiltin) hbuiltin s hstate
    rw [Session.finish_of_cons hunread]
    refine ih _ hnext fun e he => ?_
    exact (List.mem_append.mp he).elim (hprogram e) fun he =>
      hresult e (Option.mem_toList.mp he)

end Programs
end Parse

section Texts

/-- A name stands in a text as an identifier, or it is that of a builtin type. -/
def Written (file : String) (source : List Char) (name : String) : Prop :=
  name ∈ builtinTypes ∨ ∃ t ∈ tokenize file source, t.kind = .identifier ∧ t.lexeme = name

/-- Every name in what is read of a text is written there, or it is that of a builtin type. -/
theorem parseProgram_names_written (file : String) (source : List Char) :
    ∀ e ∈ (parseProgram file source).trees, e.NamedBy (Written file source) := by
  have hstart : (State.ofSource file source).NamedBy (Written file source) :=
    ⟨fun t ht hk => .inr ⟨t, ht, hk, rfl⟩, nofun, nofun, nofun, nofun⟩
  obtain ⟨hstate, hprogram⟩ :=
    Parse.namedBy_finish (s := .ofSource file source) (fun _ => .inl) hstart nofun
  refine List.forall_mem_append.mpr ⟨hprogram, List.forall_mem_map.mpr fun p hp => ?_⟩
  rcases List.mem_append.mp hp with hp | hp
  · obtain ⟨e, he, rfl⟩ := List.mem_map.mp hp
    exact hstate.tables.procedures e he
  · obtain ⟨e, he, hp⟩ := List.mem_flatMap.mp hp
    exact (hstate.tables.impls e he).procs p hp

end Texts
end ScriptFront
