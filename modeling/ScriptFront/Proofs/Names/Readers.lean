import ScriptFront.Proofs.Layout.Statements
import ScriptFront.Proofs.Names.Declared

/-!
# Expressions have no names of their own making

A reader of expressions takes the lexeme of an identifier, or a name that the tables hold already.
So it keeps every property of the identifiers and of the names in the tables.

**Algorithm.** `Parse.Keeps` says of one reader that it keeps such a property, and what is true then
of what the reader gives.  It is proved of the readers one by one, in the order in which they are
built from each other.

**Results.**

* `Parse.Keeps.bind`, `Parse.Keeps.withVariables`: a step and then another one, and a step while
  some variables are declared.
* `Parse.keeps_expr`, `Parse.keeps_exprFrom`: expressions.
-/

namespace ScriptFront

namespace Parse

variable {α β : Type} {P : String → Prop} {V : α → Prop} {W : β → Prop}

/-- The property is true of the names behind a step, and `V` of what the step gives. -/
def NamedAfter (P : String → Prop) (V : α → Prop) : EStateM.Result Problem State α → Prop
  | .ok a t => V a ∧ t.NamedBy P
  | .error _ t => t.NamedBy P

/-- A step keeps the property of all names, and then `V` is true of what it gives. -/
def Keeps (P : String → Prop) (V : α → Prop) (p : Parse α) : Prop :=
  ∀ s : State, s.NamedBy P → NamedAfter P V (p s)

/-- Nothing is asked of what a step gives. -/
abbrev Anything {α : Type} (_ : α) : Prop :=
  True

namespace Keeps

theorem bind {p : Parse α} {f : α → Parse β} (hp : Keeps P V p) (hf : ∀ a, V a → Keeps P W (f a)) :
    Keeps P W (p >>= f) := by
  intro s hs
  have hafter := hp s hs
  cases hr : p s with
  | ok a t =>
    rw [hr] at hafter
    rw [bind_of_ok hr]
    exact hf a hafter.1 t hafter.2
  | error e t =>
    rw [hr] at hafter
    rw [bind_of_error hr]
    exact hafter

/-- Both ways on from a condition that reads at most a token. -/
theorem choose {c : Parse Bool} {p q : Parse β} (hc : Keeps P Anything c) (hp : Keeps P W p)
    (hq : Keeps P W q) : Keeps P W (c >>= fun b => if b then p else q) := by
  refine hc.bind fun b _ => ?_
  cases b
  · exact hq
  · exact hp

theorem ite {c : Prop} [Decidable c] {p q : Parse β} (hp : Keeps P W p) (hq : Keeps P W q) :
    Keeps P W (if c then p else q) := by
  split
  · exact hp
  · exact hq

theorem bounded {p : Nat → Parse α} (h : ∀ n, Keeps P V (p n)) : Keeps P V (bounded p) :=
  fun s hs => h s.unread.length s hs

theorem withVariables {bindings : List (Binding Expr)}
    {f : List (Entry (Binding Expr)) → Parse α} (hbindings : ∀ b ∈ bindings, b.NamedBy P)
    (hf : ∀ entries : List (Entry (Binding Expr)), (∀ e ∈ entries, e.decl.NamedBy P) →
      Keeps P V (f entries)) : Keeps P V (withVariables bindings f) := by
  intro s hs
  have hentries : ∀ e ∈ s.entriesFor bindings, e.decl.NamedBy P := by
    intro e he
    obtain ⟨⟨b, i⟩, hb, rfl⟩ := List.mem_map.mp he
    exact hbindings b (List.fst_mem_of_mem_zipIdx hb)
  have hafter := hf _ hentries _ (hs.openScope hbindings)
  unfold Parse.withVariables
  simp only
  cases hr : f (s.entriesFor bindings) (s.openScope bindings) with
  | ok a t =>
    rw [hr] at hafter
    exact ⟨hafter.1, hafter.2.closeScope _⟩
  | error p t =>
    rw [hr] at hafter
    exact hafter.closeScope _

end Keeps

section Smallest

theorem keeps_pure {a : α} (ha : V a) : Keeps P V (pure a : Parse α) :=
  fun _ hs => ⟨ha, hs⟩

theorem keeps_fail (cause : Cause) (pos : Position) : Keeps P V (fail cause pos : Parse α) :=
  fun _ hs => hs

theorem keeps_failAtEnd (expected : Expected) : Keeps P V (failAtEnd expected : Parse α) :=
  fun _ hs => hs

theorem keeps_report (cause : Cause) (pos : Position) : Keeps P Anything (report cause pos) :=
  fun _ hs => ⟨trivial, hs.report _⟩

theorem keeps_peek : Keeps P Anything peek :=
  fun _ hs => ⟨trivial, hs⟩

theorem keeps_check (k : TokenKind) : Keeps P Anything (check k) :=
  fun _ hs => ⟨trivial, hs⟩

theorem keeps_tables : Keeps P (Tables.NamedBy P) tables :=
  fun _ hs => ⟨hs.tables, hs⟩

/-- The lexeme of an identifier is a name. -/
abbrev Names (P : String → Prop) (t : Token) : Prop :=
  t.kind = .identifier → P t.lexeme

theorem keeps_advance : Keeps P (Names P) advance := by
  intro s hs
  cases hunread : s.unread with
  | nil =>
    rw [advance_of_nil hunread]
    exact hs
  | cons t rest =>
    rw [advance_of_cons hunread]
    exact hs.consume hunread

theorem keeps_accept (k : TokenKind) : Keeps P Anything (accept k) := by
  intro s hs
  rcases accept_eq (k := k) s with ⟨t, rest, hunread, _, haccept⟩ | ⟨_, haccept⟩ <;> rw [haccept]
  · exact ⟨trivial, (hs.consume hunread).2⟩
  · exact ⟨trivial, hs⟩

theorem keeps_expect (k : TokenKind) :
    Keeps P (fun t => k = .identifier → P t.lexeme) (expect k) := by
  intro s hs
  cases hunread : s.unread with
  | nil =>
    rw [expect_of_nil hunread]
    exact hs
  | cons t rest =>
    obtain ⟨hname, hread⟩ := hs.consume hunread
    by_cases hk : t.kind = k
    · rw [expect_of_cons hunread hk]
      exact ⟨fun hidentifier => hname (hk.trans hidentifier), hread⟩
    · rw [expect_of_ne hunread hk]
      exact hs

/-- A declaration, with the entry that is made for it. -/
theorem keeps_declareNew {decl : α} (symbol : Entry α → Symbol) {f : Entry α → Bool → Parse β}
    (hsymbol : ∀ id, (symbol ⟨id, decl⟩).NamedBy P)
    (hf : ∀ id shadowed, Keeps P W (f ⟨id, decl⟩ shadowed)) :
    Keeps P W (do
      let e ← newEntry decl
      let shadowed ← declare (symbol e)
      f e shadowed) :=
  fun s hs => hf s.nextId _ _ ⟨hs.unread, hs.tables.declare (hsymbol s.nextId)⟩

theorem keeps_currentBinding {e : Entry (Binding Expr)} (he : e.decl.NamedBy P) :
    Keeps P (Binding.NamedBy P) (currentBinding e) :=
  fun _ hs => ⟨hs.binding he, hs⟩

theorem keeps_currentImpl {e : Entry (Impl Expr)} (he : e.decl.NamedBy P) :
    Keeps P (Impl.NamedBy P) (currentImpl e) :=
  fun _ hs => ⟨hs.block he, hs⟩

theorem keeps_rebind (e : Entry (Binding Expr)) {value : Expr} (hvalue : value.NamedBy P) :
    Keeps P Anything (rebind e value) :=
  fun _ hs => ⟨trivial, hs.rebind e hvalue⟩

theorem keeps_addProc (e : Entry (Impl Expr)) {p : Proc Expr} (hp : p.NamedBy P) :
    Keeps P Anything (addProc e p) :=
  fun _ hs => ⟨trivial, hs.addProc e hp⟩

theorem keeps_completeProc : Keeps P Anything completeProc :=
  fun _ hs => ⟨trivial, hs.of_same (List.Subset.refl _) rfl⟩

theorem keeps_skipToClose : Keeps P Anything skipToClose := by
  intro s hs
  have happend := splitAtClose_append 0 s.unread
  cases hclose : splitAtClose 0 s.unread with
  | mk skipped rest? =>
    rw [hclose] at happend
    have hread := hs.consumeAll happend.symm
    cases rest? with
    | some rest =>
      rw [skipToClose_of_some hclose]
      exact ⟨trivial, hread⟩
    | none =>
      rw [skipToClose_of_none hclose]
      exact hread

theorem keeps_leaveClosedBlock : Keeps P Anything leaveClosedBlock := by
  intro s hs
  unfold leaveClosedBlock
  split
  · exact ⟨trivial, hs⟩
  · exact ⟨trivial, hs.of_same (List.Subset.refl _) rfl⟩

end Smallest

section Operands

theorem keeps_negativeLiteral (pos : Position) :
    Keeps P (Expr.NamedBy P) (negativeLiteral pos) :=
  keeps_advance.bind fun _ _ => .ite (keeps_pure (Expr.namedBy_literal ..)) (keeps_fail _ _)

theorem keeps_operand : Keeps P (Expr.NamedBy P) operand := by
  refine keeps_advance.bind fun t _ => ?_
  split
  · exact keeps_pure (Expr.namedBy_literal ..)
  · exact keeps_negativeLiteral _
  · refine keeps_tables.bind fun known hknown => ?_
    split
    · rename_i e hlookup
      have hdecl := hknown.vars e (SymbolTable.mem_of_lookup? hlookup)
      exact keeps_pure (Expr.namedBy_reference.mpr hdecl)
    · exact keeps_fail _ _
  · exact keeps_fail _ _
  · exact keeps_fail _ _

theorem keeps_rightSide (op : Operator) (pos : Position) :
    Keeps P (Expr.NamedBy P) (rightSide op pos) :=
  .ite (keeps_pure (Expr.namedBy_literal ..)) keeps_operand

theorem keeps_foldUpTo (n : Nat) {lhs : Expr} (hlhs : lhs.NamedBy P) :
    Keeps P (Expr.NamedBy P) (foldUpTo n lhs) := by
  induction n generalizing lhs with
  | zero => exact keeps_pure hlhs
  | succ n ih =>
    refine keeps_peek.bind fun next _ => ?_
    cases next with
    | none => exact keeps_pure hlhs
    | some t =>
      simp only
      split
      · exact keeps_pure hlhs
      · exact keeps_advance.bind fun _ _ => (keeps_rightSide _ _).bind fun _ hrhs =>
          ih (Expr.namedBy_binary hlhs hrhs)

theorem keeps_foldOperators {lhs : Expr} (hlhs : lhs.NamedBy P) :
    Keeps P (Expr.NamedBy P) (foldOperators lhs) :=
  .bounded fun n => keeps_foldUpTo n hlhs

end Operands

section Compounds

variable {expr : Parse Expr} (he : Keeps P (Expr.NamedBy P) expr)
include he

theorem keeps_commaSeparated (n : Nat) :
    Keeps P (fun values => ∀ e ∈ values, e.NamedBy P) (commaSeparated expr n) := by
  induction n with
  | zero => exact he.bind fun e hvalue => keeps_pure (List.forall_mem_singleton.mpr hvalue)
  | succ n ih =>
    exact he.bind fun e hvalue => (keeps_accept _).choose
      (ih.bind fun values hvalues => keeps_pure (List.forall_mem_cons.mpr ⟨hvalue, hvalues⟩))
      (keeps_pure (List.forall_mem_singleton.mpr hvalue))

theorem keeps_callValues :
    Keeps P (fun values => ∀ e ∈ values, e.NamedBy P) (callValues expr) :=
  (keeps_check _).choose (keeps_pure (List.forall_mem_nil _))
    (.bounded (keeps_commaSeparated he))

/-- Arguments have the names of the parameters. -/
theorem keeps_callArgs {callee : Proc Expr} (hcallee : callee.NamedBy P) (pos : Position) :
    Keeps P (fun args => ∀ b ∈ args, b.NamedBy P) (callArgs expr callee pos) := by
  refine (keeps_expect _).bind fun _ _ => (keeps_callValues he).bind fun values hvalues =>
    (keeps_expect _).bind fun _ _ => .ite (keeps_fail _ _) (keeps_pure fun b hb => ?_)
  rw [← List.map_uncurry_zip_eq_zipWith] at hb
  obtain ⟨⟨param, value⟩, hmem, rfl⟩ := List.mem_map.mp hb
  obtain ⟨hparam, hvalue⟩ := List.of_mem_zip hmem
  have hname (name : String) (hname : name ∈ param.names) : P name :=
    (Proc.namedBy_iff.mp hcallee).1 name
      (List.mem_append_right _ (List.mem_flatMap.mpr ⟨param, hparam, hname⟩))
  exact ⟨hname _ List.mem_cons_self, hname _ (List.mem_cons_of_mem _ List.mem_cons_self),
    hvalues value hvalue⟩

/-- The fields of a struct literal have the names that were declared. -/
theorem keeps_literalFields (struct : String) {declared : List TypedName}
    (hdeclared : ∀ name ∈ declared.flatMap TypedName.names, P name) :
    Keeps P (fun fields => ∀ b ∈ fields, b.NamedBy P) (literalFields expr struct declared) := by
  induction declared with
  | nil =>
    exact (keeps_check _).choose (keeps_pure (List.forall_mem_nil _))
      ((keeps_expect _).bind fun _ _ => keeps_fail _ _)
  | cons field others ih =>
    rw [List.flatMap_cons, List.forall_mem_append, TypedName.names, List.forall_mem_cons,
      List.forall_mem_singleton] at hdeclared
    obtain ⟨⟨hname, htype⟩, hothers⟩ := hdeclared
    refine (keeps_check _).choose (keeps_pure (List.forall_mem_nil _))
      ((keeps_expect _).bind fun t _ => .ite (keeps_fail _ _) ((keeps_expect _).bind fun _ _ =>
        he.bind fun value hvalue => ?_))
    have hbinding : Binding.NamedBy P ⟨field.name, field.typeName, value⟩ :=
      ⟨hname, htype, hvalue⟩
    exact (keeps_accept _).choose
      ((ih hothers).bind fun fields hfields =>
        keeps_pure (List.forall_mem_cons.mpr ⟨hbinding, hfields⟩))
      (keeps_pure (List.forall_mem_singleton.mpr hbinding))

theorem keeps_structLiteral (pos : Position) {struct : StructDef} (hstruct : struct.NamedBy P) :
    Keeps P (Expr.NamedBy P) (structLiteral expr pos struct) :=
  (keeps_expect _).bind fun _ _ =>
    (keeps_literalFields he _ (List.forall_mem_cons.mp hstruct).2).bind fun _ hfields =>
      (keeps_expect _).bind fun _ _ => .ite (keeps_fail _ _)
        (keeps_pure (Expr.namedBy_structInstance.mpr ⟨hstruct, hfields⟩))

theorem keeps_structUse (pos : Position) {struct : StructDef} (hstruct : struct.NamedBy P) :
    Keeps P (Expr.NamedBy P) (structUse expr pos struct) := by
  refine (keeps_accept _).choose ((keeps_expect _).bind fun method _ =>
    keeps_tables.bind fun known hknown => ?_) (keeps_structLiteral he pos hstruct)
  split
  · exact keeps_fail _ _
  · rename_i e hlookup
    have himpl := hknown.impls e (SymbolTable.mem_of_lookup? hlookup)
    split
    · exact keeps_fail _ _
    · rename_i callee hcallee
      have hproc := himpl.procs callee (List.mem_of_find?_eq_some hcallee)
      refine (keeps_callArgs he hproc _).bind fun args hargs => keeps_foldOperators ?_
      exact Expr.namedBy_implCall.mpr ⟨himpl.struct _ List.mem_cons_self, hproc, hargs⟩

theorem keeps_fieldUse (pos : Position) {e : Entry (Binding Expr)} (hdecl : e.decl.NamedBy P) :
    Keeps P (Expr.NamedBy P) (fieldUse expr pos e) := by
  refine (keeps_expect _).bind fun name _ => ?_
  split
  · exact keeps_fail _ _
  · rename_i v hv
    obtain ⟨hstruct, hfields⟩ := hdecl.value.instance? hv
    split
    · exact keeps_fail _ _
    · rename_i b hb
      have hfield : b.NamedBy P := by
        obtain ⟨i, _, hget⟩ := Option.bind_eq_some_iff.mp hb
        exact hfields b (List.mem_of_getElem? hget)
      refine (keeps_accept _).choose (he.bind fun value hvalue => ?_)
        (keeps_foldOperators (Expr.namedBy_fieldAccess hdecl hfield))
      refine (keeps_currentBinding hdecl).bind fun current _ =>
        (keeps_rebind e ?_).bind fun _ _ => (keeps_currentBinding hdecl).bind fun owner howner =>
          keeps_pure (Expr.namedBy_fieldAssign howner ⟨hfield.name, hfield.typeName, hvalue⟩ hvalue)
      obtain ⟨hsame, hupdated⟩ := Binding.namedBy_withField? hfields name.lexeme hvalue
      exact Expr.namedBy_structInstance.mpr ⟨hsame.symm ▸ hstruct, hupdated⟩

theorem keeps_variableUse (pos : Position) {e : Entry (Binding Expr)} (hdecl : e.decl.NamedBy P) :
    Keeps P (Expr.NamedBy P) (variableUse expr pos e) :=
  (keeps_accept _).choose
    (he.bind fun _ hvalue => (keeps_currentBinding hdecl).bind fun _ htarget =>
      keeps_pure (Expr.namedBy_assign htarget hvalue))
    ((keeps_accept _).choose (keeps_fieldUse he pos hdecl)
      (keeps_foldOperators (Expr.namedBy_reference.mpr hdecl)))

theorem keeps_nameUse (t : Token) : Keeps P (Expr.NamedBy P) (nameUse expr t) := by
  refine keeps_tables.bind fun known hknown => ?_
  unfold Tables.resolve?
  cases hvar : known.vars.lookup? t.lexeme with
  | some e => exact keeps_variableUse he _ (hknown.vars e (SymbolTable.mem_of_lookup? hvar))
  | none =>
    cases hproc : known.procedures.lookup? t.lexeme with
    | some e =>
      have hdecl := hknown.procedures e (SymbolTable.mem_of_lookup? hproc)
      exact (keeps_callArgs he hdecl _).bind fun args hargs =>
        keeps_foldOperators (Expr.namedBy_call.mpr ⟨hdecl, hargs⟩)
    | none =>
      cases hstruct : known.structs.lookup? t.lexeme with
      | some e => exact keeps_structUse he _ (hknown.structs e (SymbolTable.mem_of_lookup? hstruct))
      | none => exact keeps_fail _ _

theorem keeps_exprStep (t : Token) : Keeps P (Expr.NamedBy P) (exprStep expr t) := by
  unfold exprStep
  split
  · exact keeps_foldOperators (Expr.namedBy_literal ..)
  · exact keeps_nameUse he t
  · exact he.bind fun inner hinner => keeps_pure (Expr.namedBy_binary hinner
      (Expr.namedBy_literal ..))
  · exact (keeps_negativeLiteral _).bind fun _ => keeps_foldOperators
  · exact keeps_fail _ _
  · exact keeps_fail _ _

end Compounds

theorem keeps_exprUpTo (n : Nat) : Keeps P (Expr.NamedBy P) (exprUpTo n) := by
  induction n with
  | zero => exact keeps_failAtEnd _
  | succ n ih => exact keeps_advance.bind fun t _ => keeps_exprStep ih t

theorem keeps_expr : Keeps P (Expr.NamedBy P) expr :=
  .bounded keeps_exprUpTo

theorem keeps_exprFrom (t : Token) : Keeps P (Expr.NamedBy P) (exprFrom t) :=
  .bounded fun n => keeps_exprStep (keeps_exprUpTo n) t

end Parse
end ScriptFront
