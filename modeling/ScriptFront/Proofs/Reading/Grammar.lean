import ScriptFront.Proofs.Reading.StepLaw

/-!
# Every reader keeps every step law

The readers of expressions and statements are built from the smallest steps, so whatever step law
there is, they keep it.  The readers are given the reader for what stands inside of them; they are
shown to be related whenever the readers inside of them are.

**Results.**

* `StepLaw.relates_exprUpTo`, `StepLaw.relates_expr`: expressions.
* `StepLaw.relates_optionalStatement`: statements, for related readers of blocks.
-/

namespace ScriptFront
namespace StepLaw

open Parse

variable {L : StepLaw}

section Operands

theorem relates_negativeLiteral (pos : Position) :
    L.Relates (negativeLiteral pos) (negativeLiteral pos) := by
  refine relates_advance_bind (fun t _ _ => ?_) fun t ht => ?_
  · split
    · exact relates_pure _
    · exact relates_fail (by nofun) _
  · have hkind : ¬ (t.kind = .literal ∧ (t.lit = .number ∨ t.lit = .float)) := by
      rintro ⟨h, _⟩
      rcases ht with ht | ht <;> rw [ht] at h <;> cases h
    exact ⟨_, _, by nofun, rfl, if_neg hkind, if_neg hkind⟩

theorem relates_operand : L.Relates operand operand := by
  refine relates_advance_bind (fun t _ _ => ?_) fun t ht => ?_
  · split
    · exact relates_pure _
    · exact relates_negativeLiteral _
    · refine relates_tables.bind fun known => ?_
      split
      · exact relates_pure _
      · exact relates_fail (by nofun) _
    · exact relates_fail (by nofun) _
    · exact relates_fail (by nofun) _
  · rcases ht with ht | ht <;> simp only [ht] <;> exact ⟨_, _, by nofun, rfl, rfl, rfl⟩

theorem relates_rightSide (op : Operator) (pos : Position) :
    L.Relates (rightSide op pos) (rightSide op pos) := by
  unfold rightSide
  split
  · exact relates_pure _
  · exact relates_operand

/-- An operator that is folded is no brace, and so is read. -/
theorem relates_foldUpTo (n : Nat) (lhs : Expr) :
    L.Relates (foldUpTo n lhs) (foldUpTo n lhs) := by
  induction n generalizing lhs with
  | zero => exact relates_pure lhs
  | succ n ih =>
    intro s hs
    refine ⟨rfl, ?_⟩
    cases hunread : s.unread with
    | nil =>
      rw [foldUpTo, Parse.bind_of_ok (peek_of_nil hunread)]
      exact L.refl s
    | cons t rest =>
      rw [foldUpTo, Parse.bind_of_ok (peek_of_cons hunread)]
      cases hop : Operator.foldable? t.kind with
      | none =>
        simp only [hop]
        exact L.refl s
      | some op =>
        have hplain : t.kind ≠ .leftBrace ∧ t.kind ≠ .rightBrace := by
          constructor <;> intro h <;> rw [h] at hop <;> cases hop
        simp only [hop]
        rw [Parse.bind_of_ok (advance_of_cons hunread)]
        have hst := L.read hunread hplain.1 hplain.2
        have hrest : L.Relates (rightSide op t.pos >>= fun rhs =>
            foldUpTo n (.binary lhs.pos lhs op rhs)) (rightSide op t.pos >>= fun rhs =>
            foldUpTo n (.binary lhs.pos lhs op rhs)) :=
          (relates_rightSide op t.pos).bind fun rhs => ih _
        exact (hrest.after (L.good_of_ok hs hst)).of_ok hst

theorem relates_foldOperators (lhs : Expr) :
    L.Relates (foldOperators lhs) (foldOperators lhs) :=
  Relates.bounded fun n => relates_foldUpTo n lhs

end Operands

section Expressions

variable {e₁ e₂ : Parse Expr} (he : L.Relates e₁ e₂)
include he

theorem relates_commaSeparated (n : Nat) :
    L.Relates (commaSeparated e₁ n) (commaSeparated e₂ n) := by
  induction n with
  | zero => exact he.bind fun value => relates_pure _
  | succ n ih =>
    refine he.bind fun value => (relates_accept rfl).bind fun comma => ?_
    split
    · exact ih.bind fun others => relates_pure _
    · exact relates_pure _

theorem relates_callValues : L.Relates (callValues e₁) (callValues e₂) := by
  refine (relates_check _).bind fun closed => ?_
  split
  · exact relates_pure _
  · exact Relates.bounded (relates_commaSeparated he)

theorem relates_callArgs (callee : Proc Expr) (pos : Position) :
    L.Relates (callArgs e₁ callee pos) (callArgs e₂ callee pos) := by
  refine (relates_expect rfl).bind fun _ =>
    (relates_callValues he).bind fun values =>
      (relates_expect rfl).bind fun _ => ?_
  split
  · exact relates_fail (by nofun) _
  · exact relates_pure _

theorem relates_literalFields (struct : String) (declared : List TypedName) :
    L.Relates (literalFields e₁ struct declared) (literalFields e₂ struct declared) := by
  induction declared with
  | nil =>
    refine (relates_check _).bind fun closed => ?_
    split
    · exact relates_pure _
    · exact (relates_expect rfl).bind fun t => relates_fail (by nofun) _
  | cons field others ih =>
    refine (relates_check _).bind fun closed => ?_
    split
    · exact relates_pure _
    · refine (relates_expect rfl).bind fun t => ?_
      split
      · exact relates_fail (by nofun) _
      · refine (relates_expect rfl).bind fun _ => he.bind fun value =>
          (relates_accept rfl).bind fun comma => ?_
        split
        · exact ih.bind fun bindings => relates_pure _
        · exact relates_pure _

theorem relates_structLiteral (pos : Position) (struct : StructDef) :
    L.Relates (structLiteral e₁ pos struct) (structLiteral e₂ pos struct) := by
  refine relates_enclosed (relates_literalFields he _ _) fun fields => ?_
  split
  · exact relates_fail (by nofun) _
  · exact relates_pure _

theorem relates_structUse (pos : Position) (struct : StructDef) :
    L.Relates (structUse e₁ pos struct) (structUse e₂ pos struct) := by
  refine (relates_accept rfl).bind fun method => ?_
  split
  · refine (relates_expect rfl).bind fun name =>
      relates_tables.bind fun known => ?_
    split
    · exact relates_fail (by nofun) _
    · split
      · exact relates_fail (by nofun) _
      · exact (relates_callArgs he _ _).bind fun args => relates_foldOperators _
  · exact relates_structLiteral he _ _

theorem relates_fieldUse (pos : Position) (e : Entry (Binding Expr)) :
    L.Relates (fieldUse e₁ pos e) (fieldUse e₂ pos e) := by
  refine (relates_expect rfl).bind fun name => ?_
  split
  · exact relates_fail (by nofun) _
  · split
    · exact relates_fail (by nofun) _
    · refine (relates_accept rfl).bind fun assigned => ?_
      split
      · exact he.bind fun value => (relates_currentBinding e).bind fun current =>
          (relates_rebind _ _).bind fun _ => (relates_currentBinding e).bind fun owner =>
            relates_pure _
      · exact relates_foldOperators _

theorem relates_variableUse (pos : Position) (e : Entry (Binding Expr)) :
    L.Relates (variableUse e₁ pos e) (variableUse e₂ pos e) := by
  refine (relates_accept rfl).bind fun assigned => ?_
  split
  · exact he.bind fun value => (relates_currentBinding e).bind fun target => relates_pure _
  · refine (relates_accept rfl).bind fun dotted => ?_
    split
    · exact relates_fieldUse he _ _
    · exact relates_foldOperators _

theorem relates_nameUse (t : Token) : L.Relates (nameUse e₁ t) (nameUse e₂ t) := by
  refine relates_tables.bind fun known => ?_
  split
  · exact relates_variableUse he _ _
  · exact (relates_callArgs he _ _).bind fun args => relates_foldOperators _
  · exact relates_structUse he _ _
  · exact relates_fail (by nofun) _

theorem relates_exprStep (t : Token) : L.Relates (exprStep e₁ t) (exprStep e₂ t) := by
  unfold exprStep
  split
  · exact relates_foldOperators _
  · exact relates_nameUse he t
  · exact he.bind fun inner => relates_pure _
  · exact (relates_negativeLiteral _).bind fun value => relates_foldOperators _
  · exact relates_fail (by nofun) _
  · exact relates_fail (by nofun) _

theorem relates_advance_exprStep :
    L.Relates (do exprStep e₁ (← advance)) (do exprStep e₂ (← advance)) := by
  refine relates_advance_bind (fun t _ _ => relates_exprStep he t) fun t ht => ?_
  rcases ht with ht | ht <;> simp only [exprStep, ht] <;> exact ⟨_, _, by nofun, rfl, rfl, rfl⟩

end Expressions

theorem relates_exprUpTo (n : Nat) : L.Relates (exprUpTo n) (exprUpTo n) := by
  induction n with
  | zero => exact relates_failAtEnd _
  | succ n ih => exact relates_advance_exprStep ih

theorem relates_expr : L.Relates expr expr :=
  Relates.bounded relates_exprUpTo

theorem relates_exprFrom (t : Token) : L.Relates (exprFrom t) (exprFrom t) :=
  Relates.bounded fun n => relates_exprStep (relates_exprUpTo n) t

section Simple

theorem relates_typedName : L.Relates typedName typedName :=
  (relates_expect rfl).bind fun _ =>
    (relates_expect rfl).bind fun _ =>
      (relates_expect rfl).bind fun _ => relates_pure _

theorem relates_optionalType : L.Relates optionalType optionalType := by
  refine (relates_accept rfl).bind fun written => ?_
  split
  · exact (relates_expect rfl).bind fun _ => relates_pure _
  · exact relates_pure _

theorem relates_typedNames (n : Nat) : L.Relates (typedNames n) (typedNames n) := by
  induction n with
  | zero => exact relates_typedName.bind fun _ => relates_pure _
  | succ n ih =>
    refine relates_typedName.bind fun first =>
      (relates_accept rfl).bind fun comma => ?_
    split
    · exact ih.bind fun others => relates_pure _
    · exact relates_pure _

theorem relates_parameters : L.Relates parameters parameters := by
  refine (relates_check _).bind fun closed => ?_
  split
  · exact relates_pure _
  · exact Relates.bounded relates_typedNames

theorem relates_structFields (n : Nat) : L.Relates (structFields n) (structFields n) := by
  induction n with
  | zero => exact relates_typedName.bind fun _ => relates_pure _
  | succ n ih =>
    refine (relates_check _).bind fun closed => ?_
    split
    · exact relates_pure _
    · refine relates_typedName.bind fun first =>
        (relates_accept rfl).bind fun comma => ?_
      split
      · exact ih.bind fun others => relates_pure _
      · exact relates_pure _

theorem relates_checkWrittenType (written : Option String) (value : Expr) :
    L.Relates (checkWrittenType written value) (checkWrittenType written value) := by
  unfold checkWrittenType
  split
  · exact relates_pure _
  · split
    · exact relates_pure _
    · exact relates_report _ _

theorem relates_letStatement (keyword : Token) :
    L.Relates (letStatement keyword) (letStatement keyword) :=
  (relates_expect rfl).bind fun _ => relates_optionalType.bind fun _ =>
    (relates_expect rfl).bind fun _ => relates_expr.bind fun _ =>
      (relates_checkWrittenType _ _).bind fun _ =>
        relates_declareNew _ Symbol.variable (fun _ => rfl) fun _ _ => relates_pure _

theorem relates_returnStatement (keyword : Token) :
    L.Relates (returnStatement keyword) (returnStatement keyword) := by
  refine relates_peek.bind fun next => ?_
  split
  · exact relates_pure _
  · split
    · exact relates_pure _
    · exact relates_expr.bind fun _ => relates_pure _

theorem relates_condition : L.Relates condition condition := by
  refine relates_expr.bind fun e => ?_
  split
  · exact relates_fail (by nofun) _
  · exact relates_pure _

theorem relates_warnIfShadowed (shadowed : Bool) (sort : String) (name : Token) :
    L.Relates (warnIfShadowed shadowed sort name) (warnIfShadowed shadowed sort name) := by
  unfold warnIfShadowed
  split
  · exact relates_report _ _
  · exact relates_pure _

theorem relates_structStatement (keyword : Token) :
    L.Relates (structStatement keyword) (structStatement keyword) :=
  (relates_expect rfl).bind fun _ =>
    relates_enclosed (Relates.bounded relates_structFields) fun _ =>
      relates_declareNew _ Symbol.struct (fun _ => rfl) fun _ _ =>
        (relates_warnIfShadowed _ _ _).bind fun _ => relates_pure _

end Simple

section Compounds

variable {b₁ b₂ : Bool → Parse (List Expr)} (hb : ∀ ofProc, L.Relates (b₁ ofProc) (b₂ ofProc))
include hb

theorem relates_procedure (keyword : Token) :
    L.Relates (procedure b₁ keyword) (procedure b₂ keyword) :=
  (relates_expect rfl).bind fun _ =>
    (relates_expect rfl).bind fun _ => relates_parameters.bind fun _ =>
      (relates_expect rfl).bind fun _ => relates_optionalType.bind fun _ =>
        relates_tables.bind fun _ => (relates_withVariables _ fun _ => hb true).bind fun _ =>
          relates_completeProc.bind fun _ => relates_pure _

theorem relates_procStatement (keyword : Token) :
    L.Relates (procStatement b₁ keyword) (procStatement b₂ keyword) :=
  (relates_procedure hb keyword).bind fun _ =>
    relates_declareNew _ Symbol.procedure (fun _ => rfl) fun _ _ =>
      (relates_warnIfShadowed _ _ _).bind fun _ => relates_pure _

theorem relates_implProc : L.Relates (implProc b₁) (implProc b₂) :=
  (relates_expect rfl).bind fun keyword =>
    (relates_procedure hb keyword).bind fun _ => relates_pure _

/-- The procedures of an impl block that the step around them has declared. -/
theorem closes_implProcs {entry : Entry (Impl Expr)} (n : Nat) {s t : State} (hs : L.good s)
    (hst : L.ok s t) (hid : s.nextId ≤ entry.id) :
    implProcs b₁ entry n t = implProcs b₂ entry n t ∧ L.Closes s (implProcs b₁ entry n t) := by
  induction n generalizing t with
  | zero => exact ⟨rfl, nofun, L.err_of_ok hst⟩
  | succ n ih =>
    simp only [implProcs]
    rcases accept_eq (k := .rightBrace) t with ⟨closing, rest, hunread, hk, haccept⟩ | ⟨_, haccept⟩
    · rw [Parse.bind_of_ok haccept, Parse.bind_of_ok haccept]
      simp only [if_true, true_and]
      exact ⟨t, closing, rest, hst, hunread, hk, rfl⟩
    · rw [Parse.bind_of_ok haccept, Parse.bind_of_ok haccept]
      have hproc := relates_implProc hb
      have ht := L.good_of_ok hs hst
      have heq := hproc.eq ht
      cases hr : implProc b₁ t with
      | error e u =>
        simp only [Bool.false_eq_true, if_false]
        rw [Parse.bind_of_error hr, Parse.bind_of_error (heq ▸ hr)]
        obtain ⟨hstage, herr⟩ := hproc.error ht hr
        exact ⟨rfl, hstage, L.ok_err hst herr⟩
      | ok proc u =>
        have hr' : implProc b₂ t = .ok proc u := heq ▸ hr
        have hadd : Parse.addProc entry proc u = .ok () (u.addProc entry proc) := rfl
        simp only [Bool.false_eq_true, if_false]
        rw [Parse.bind_of_ok hr, Parse.bind_of_ok hr', Parse.bind_of_ok hadd,
          Parse.bind_of_ok hadd]
        exact ih (L.addProc proc (L.trans hst (hproc.ok ht hr)) hid)

theorem closes_implBody (struct : StructDef) (name : Token) {s : State} (hs : L.good s) :
    implBody b₁ struct name s = implBody b₂ struct name s ∧
      L.Closes s (implBody b₁ struct name s) := by
  have hdeclared := L.declare s (.impl ⟨s.nextId, ⟨struct, []⟩⟩) rfl
  have ht := L.good_of_ok hs hdeclared
  have hwarn := relates_warnIfShadowed (L := L)
    (s.tables.shadows (.impl ⟨s.nextId, ⟨struct, []⟩⟩)) "impl" name
  have hstart : ∀ b : Bool → Parse (List Expr), implBody b struct name s =
      (do
        warnIfShadowed (s.tables.shadows (.impl ⟨s.nextId, ⟨struct, []⟩⟩)) "impl" name
        bounded (implProcs b ⟨s.nextId, ⟨struct, []⟩⟩)
        return (⟨s.nextId, ⟨struct, []⟩⟩ : Entry (Impl Expr))) { s with
          nextId := s.nextId + 1
          tables := s.tables.declare (.impl ⟨s.nextId, ⟨struct, []⟩⟩) } := fun _ => rfl
  rw [hstart, hstart]
  cases hr : warnIfShadowed (s.tables.shadows (.impl ⟨s.nextId, ⟨struct, []⟩⟩)) "impl" name
      { s with
        nextId := s.nextId + 1
        tables := s.tables.declare (.impl ⟨s.nextId, ⟨struct, []⟩⟩) } with
  | error e u =>
    rw [Parse.bind_of_error hr, Parse.bind_of_error hr]
    obtain ⟨hstage, herr⟩ := hwarn.error ht hr
    exact ⟨rfl, hstage, L.ok_err hdeclared herr⟩
  | ok _ u =>
    rw [Parse.bind_of_ok hr, Parse.bind_of_ok hr]
    exact closes_bind_pure (closes_implProcs hb _ hs (L.trans hdeclared (hwarn.ok ht hr))
      (Nat.le_refl _))

theorem relates_implStatement (keyword : Token) :
    L.Relates (implStatement b₁ keyword) (implStatement b₂ keyword) := by
  refine (relates_expect rfl).bind fun name =>
    relates_tables.bind fun known => ?_
  split
  · exact relates_fail (by nofun) _
  · exact relates_braced
      (fun hs hunread _ => closes_implBody hb _ _ (L.good_consume hs hunread)) fun entry =>
      (relates_currentImpl entry).bind fun _ => relates_pure _

omit hb in
theorem relates_firstBinding (initial : Binding Expr) (entries : List (Entry (Binding Expr))) :
    L.Relates (firstBinding initial entries) (firstBinding initial entries) := by
  cases entries with
  | nil => exact relates_pure _
  | cons e _ => exact relates_currentBinding e

theorem relates_forStatement (keyword : Token) :
    L.Relates (forStatement b₁ keyword) (forStatement b₂ keyword) :=
  (relates_expect rfl).bind fun _ =>
    (relates_expect rfl).bind fun _ => relates_expr.bind fun _ =>
      (relates_expect rfl).bind fun _ => relates_expr.bind fun _ =>
        relates_withVariables _ fun entries => (hb false).bind fun _ =>
          (relates_firstBinding _ entries).bind fun _ => relates_pure _

theorem relates_statementFrom (t : Token) :
    L.Relates (statementFrom b₁ t) (statementFrom b₂ t) := by
  unfold statementFrom
  split
  · exact relates_letStatement t
  · exact relates_procStatement hb t
  · exact relates_structStatement t
  · exact relates_implStatement hb t
  · exact relates_condition.bind fun _ => (hb false).bind fun _ => relates_pure _
  · exact relates_condition.bind fun _ => (hb false).bind fun _ => relates_pure _
  · exact relates_forStatement hb t
  · exact relates_returnStatement t
  any_goals exact relates_exprFrom t
  exact relates_fail (by nofun) _

theorem relates_optionalStatement :
    L.Relates (optionalStatement b₁) (optionalStatement b₂) := by
  refine (relates_accept rfl).bind fun empty => ?_
  split
  · exact relates_pure _
  · have h : L.Relates (do let t ← advance; let e ← statementFrom b₁ t; pure (some e))
        (do let t ← advance; let e ← statementFrom b₂ t; pure (some e)) := by
      refine relates_advance_bind (fun t _ _ => ?_) fun t ht => ?_
      · exact (relates_statementFrom hb t).bind fun _ => relates_pure _
      · rcases ht with ht | ht <;> simp only [statementFrom, ht] <;>
          exact ⟨_, _, by nofun, rfl, rfl, rfl⟩
    exact h

end Compounds

/--
A law that does not look at braces: any token may be read at any place, and after a failure reading
goes on.
-/
structure Loose (L : StepLaw) : Prop where
  consumeAll {s : State} {ts rest : List Token} :
    s.unread = ts ++ rest → L.ok s (s.consumeAll ts rest)
  recover {s t : State} {p : Problem} (depth : Nat) : L.err p s t → L.ok s (t.recover depth p)
  leave (s : State) : L.ok s { s with closedBlocks := s.closedBlocks - 1 }

section Blocks

variable (hL : L.Loose)
include hL

theorem Loose.consume {s : State} {t : Token} {rest : List Token} (h : s.unread = t :: rest) :
    L.ok s (s.consume t rest) :=
  show L.ok s (s.consumeAll [t] rest) from hL.consumeAll h

theorem Loose.relates_advance : L.Relates advance advance := by
  intro s _
  refine ⟨rfl, ?_⟩
  cases hunread : s.unread with
  | nil =>
    rw [advance_of_nil hunread]
    exact ⟨nofun, L.err_of_ok (L.refl s)⟩
  | cons t rest =>
    rw [advance_of_cons hunread]
    exact hL.consume hunread

theorem Loose.relates_expect (k : TokenKind) : L.Relates (expect k) (expect k) := by
  intro s _
  refine ⟨rfl, ?_⟩
  cases hr : expect k s with
  | ok t u =>
    obtain ⟨_, rest, hunread, rfl⟩ := expect_eq_ok_iff.mp hr
    exact hL.consume hunread
  | error e u =>
    obtain ⟨rfl, hstage⟩ := expect_error hr
    exact ⟨by rw [hstage]; decide, L.err_of_ok (L.refl u)⟩

theorem Loose.relates_skipToClose : L.Relates skipToClose skipToClose := by
  intro s _
  refine ⟨rfl, ?_⟩
  have happend := splitAtClose_append 0 s.unread
  unfold skipToClose
  cases hsplit : splitAtClose 0 s.unread with
  | mk skipped rest? =>
    rw [hsplit] at happend
    cases rest? with
    | none => exact ⟨nofun, L.err_of_ok (hL.consumeAll (by simpa using happend.symm))⟩
    | some rest => exact hL.consumeAll happend.symm

theorem Loose.relates_leaveClosedBlock : L.Relates leaveClosedBlock leaveClosedBlock := by
  intro s _
  refine ⟨rfl, ?_⟩
  unfold leaveClosedBlock
  split
  · exact L.refl s
  · exact hL.leave s

variable {b₁ b₂ : Bool → Parse (List Expr)} (hb : ∀ ofProc, L.Relates (b₁ ofProc) (b₂ ofProc))
include hb

/-- A statement always leads on: after a problem it recovers. -/
theorem Loose.ok_statementWith {s : State} (hs : L.good s) :
    statementWith b₁ s = statementWith b₂ s ∧ L.ok s (statementWith b₁ s).2 := by
  have h := relates_optionalStatement hb
  have heq := h.eq hs
  unfold statementWith
  cases hr : optionalStatement b₁ s with
  | ok e t =>
    rw [hr] at heq
    rw [← heq]
    exact ⟨rfl, h.ok hs hr⟩
  | error p t =>
    rw [hr] at heq
    rw [← heq]
    exact ⟨rfl, hL.recover _ (h.error hs hr).2⟩

theorem Loose.relates_statementWith :
    L.Relates (always (statementWith b₁)) (always (statementWith b₂)) := by
  intro s hs
  obtain ⟨heq, hok⟩ := hL.ok_statementWith hb hs
  simp only [always, ← heq, true_and]
  exact hok

theorem Loose.relates_braced (ofProc : Bool) :
    L.Relates (braced b₁ ofProc) (braced b₂ ofProc) :=
  (hL.relates_expect _).bind fun _ => hb ofProc

end Blocks

section Bodies

variable (hL : L.Loose)
include hL

theorem Loose.relates_bodyRest {o₁ o₂ : Bool → Parse (List Expr)} (ofProc : Bool)
    (ho : L.Relates (o₁ ofProc) (o₂ ofProc)) (e : Option Expr) :
    L.Relates (bodyRest o₁ ofProc e) (bodyRest o₂ ofProc e) := by
  refine hL.relates_leaveClosedBlock.bind fun left => ?_
  split
  · exact relates_pure _
  · split
    · exact hL.relates_skipToClose.bind fun _ => relates_pure _
    · exact ho.bind fun _ => relates_pure _

theorem Loose.relates_bodyStep {r₁ r₂ : State → Option Expr × State}
    {o₁ o₂ : Bool → Parse (List Expr)} (hr : L.Relates (always r₁) (always r₂)) (ofProc : Bool)
    (ho : L.Relates (o₁ ofProc) (o₂ ofProc)) :
    L.Relates (bodyStep r₁ o₁ ofProc) (bodyStep r₂ o₂ ofProc) := by
  refine relates_peek.bind fun next => ?_
  split
  · exact relates_failAtEnd _
  · split
    · exact hL.relates_advance.bind fun _ => relates_pure _
    · exact hr.bind fun e => hL.relates_bodyRest ofProc ho e

theorem Loose.relates_bodyUpTo (n : Nat) (ofProc : Bool) :
    L.Relates (bodyUpTo n ofProc) (bodyUpTo n ofProc) := by
  induction n generalizing ofProc with
  | zero => exact relates_failAtEnd _
  | succ n ih =>
    exact hL.relates_bodyStep (hL.relates_statementWith fun o => hL.relates_braced ih o) ofProc
      (ih ofProc)

theorem Loose.relates_block (ofProc : Bool) : L.Relates (block ofProc) (block ofProc) :=
  hL.relates_braced (fun o => Relates.bounded fun n => hL.relates_bodyUpTo n o) ofProc

end Bodies
end StepLaw
end ScriptFront
