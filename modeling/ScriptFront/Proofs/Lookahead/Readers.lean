import ScriptFront.Proofs.Layout.Statements
import ScriptFront.Proofs.Lookahead.Forks

/-!
# Readers look one token ahead

Every reader does the same in front of a fork, whether it succeeds or fails, as long as it does not
read the token at the fork.  This holds of skipping after an error too: where it stops depends on
the tokens that are skipped and on the one behind them.

**Results.**

* `oneAhead_expr`, `oneAhead_block`: expressions and blocks.
* `oneAhead_optionalStatement`: a statement.
-/

namespace ScriptFront

open Parse StepLaw

variable {k : Fork} {n : Nat}

section Operands

theorem oneAhead_negativeLiteral (pos : Position) : OneAhead k n (negativeLiteral pos) :=
  oneAhead_advance.bind fun _ => .ite (oneAhead_pure _) (oneAhead_fail _ _)

theorem oneAhead_operand : OneAhead k n operand := by
  refine oneAhead_advance.bind fun t => ?_
  split
  · exact oneAhead_pure _
  · exact oneAhead_negativeLiteral t.pos
  · refine oneAhead_tables.bind fun known => ?_
    split
    · exact oneAhead_pure _
    · exact oneAhead_fail _ _
  · exact oneAhead_fail _ _
  · exact oneAhead_fail _ _

theorem oneAhead_rightSide (op : Operator) (pos : Position) : OneAhead k n (rightSide op pos) :=
  .ite (oneAhead_pure _) oneAhead_operand

theorem oneAhead_foldUpTo (m : Nat) (lhs : Expr) : OneAhead k n (foldUpTo m lhs) := by
  induction m generalizing lhs with
  | zero => exact oneAhead_pure _
  | succ m ih =>
    refine oneAhead_peek.bind fun next => ?_
    split
    · exact oneAhead_pure _
    · split
      · exact oneAhead_pure _
      · exact oneAhead_advance.bind fun _ => (oneAhead_rightSide _ _).bind fun _ => ih _

theorem oneAhead_foldOperators (lhs : Expr) : OneAhead k n (foldOperators lhs) :=
  .bounded (steady_foldUpTo lhs) fun m => oneAhead_foldUpTo m lhs

end Operands

section Compounds

variable (he : OneAhead k n expr)
include he

theorem oneAhead_commaSeparated (m : Nat) : OneAhead k n (commaSeparated expr m) := by
  induction m with
  | zero => exact he.bind fun _ => oneAhead_pure _
  | succ m ih =>
    exact he.bind fun _ => (oneAhead_accept _).choose (ih.bind fun _ => oneAhead_pure _)
      (oneAhead_pure _)

theorem oneAhead_callValues : OneAhead k n (callValues expr) :=
  (oneAhead_check _).choose (oneAhead_pure _)
    (.bounded steady_commaSeparated (oneAhead_commaSeparated he))

theorem oneAhead_callArgs (callee : Proc Expr) (pos : Position) :
    OneAhead k n (callArgs expr callee pos) :=
  (oneAhead_expect _).bind fun _ => (oneAhead_callValues he).bind fun _ =>
    (oneAhead_expect _).bind fun _ => .ite (oneAhead_fail _ _) (oneAhead_pure _)

theorem oneAhead_literalFields (struct : String) (declared : List TypedName) :
    OneAhead k n (literalFields expr struct declared) := by
  induction declared with
  | nil =>
    exact (oneAhead_check _).choose (oneAhead_pure _)
      ((oneAhead_expect _).bind fun _ => oneAhead_fail _ _)
  | cons field others ih =>
    exact (oneAhead_check _).choose (oneAhead_pure _) ((oneAhead_expect _).bind fun _ =>
      .ite (oneAhead_fail _ _) ((oneAhead_expect _).bind fun _ => he.bind fun _ =>
        (oneAhead_accept _).choose (ih.bind fun _ => oneAhead_pure _) (oneAhead_pure _)))

theorem oneAhead_structLiteral (pos : Position) (struct : StructDef) :
    OneAhead k n (structLiteral expr pos struct) :=
  (oneAhead_expect _).bind fun _ => (oneAhead_literalFields he _ _).bind fun _ =>
    (oneAhead_expect _).bind fun _ => .ite (oneAhead_fail _ _) (oneAhead_pure _)

theorem oneAhead_structUse (pos : Position) (struct : StructDef) :
    OneAhead k n (structUse expr pos struct) := by
  refine (oneAhead_accept _).choose ((oneAhead_expect _).bind fun name =>
    oneAhead_tables.bind fun known => ?_) (oneAhead_structLiteral he pos struct)
  split
  · exact oneAhead_fail _ _
  · split
    · exact oneAhead_fail _ _
    · exact (oneAhead_callArgs he _ _).bind fun _ => oneAhead_foldOperators _

theorem oneAhead_fieldUse (pos : Position) (e : Entry (Binding Expr)) :
    OneAhead k n (fieldUse expr pos e) := by
  refine (oneAhead_expect _).bind fun name => ?_
  split
  · exact oneAhead_fail _ _
  · split
    · exact oneAhead_fail _ _
    · exact (oneAhead_accept _).choose (he.bind fun _ => (oneAhead_currentBinding e).bind fun _ =>
        (oneAhead_rebind e _).bind fun _ => (oneAhead_currentBinding e).bind fun _ =>
          oneAhead_pure _) (oneAhead_foldOperators _)

theorem oneAhead_variableUse (pos : Position) (e : Entry (Binding Expr)) :
    OneAhead k n (variableUse expr pos e) :=
  (oneAhead_accept _).choose
    (he.bind fun _ => (oneAhead_currentBinding e).bind fun _ => oneAhead_pure _)
    ((oneAhead_accept _).choose (oneAhead_fieldUse he pos e) (oneAhead_foldOperators _))

theorem oneAhead_nameUse (t : Token) : OneAhead k n (nameUse expr t) := by
  refine oneAhead_tables.bind fun known => ?_
  split
  · exact oneAhead_variableUse he _ _
  · exact (oneAhead_callArgs he _ _).bind fun _ => oneAhead_foldOperators _
  · exact oneAhead_structUse he _ _
  · exact oneAhead_fail _ _

/-- An expression whose first token has been read. -/
theorem oneAhead_exprStep (t : Token) : OneAhead k n (exprStep expr t) := by
  unfold exprStep
  split
  · exact oneAhead_foldOperators _
  · exact oneAhead_nameUse he t
  · exact he.bind fun _ => oneAhead_pure _
  · exact (oneAhead_negativeLiteral t.pos).bind fun lit => oneAhead_foldOperators lit
  · exact oneAhead_fail _ _
  · exact oneAhead_fail _ _

end Compounds

/-- A token that is read in front of the fork leaves fewer of them there. -/
theorem lt_of_advance {s t : State} {tok : Token} {ts : List Token}
    (h : advance (s.inFront ts) = .ok tok (t.inFront ts)) :
    t.unread.length < s.unread.length := by
  obtain ⟨rest, hunread, hconsumed⟩ := advance_eq_ok_iff.mp h
  have hlength := congrArg (fun u : State => u.unread.length) hconsumed
  have hbefore := congrArg List.length hunread
  simp only [State.length_inFront] at hlength
  rw [State.length_inFront, List.length_cons] at hbefore
  have hrest : (State.consume (s.inFront ts) tok rest).unread.length = rest.length := rfl
  omega

theorem oneAhead_expr : OneAhead k n expr where
  shrinks := shrinks_of_relates fun _ => relates_expr
  alike := by
    -- The expressions inside of an expression have fewer tokens left, since its first one is read.
    induction n using Nat.strongRecOn with
    | ind n ih =>
      intro s hs
      rw [expr_eq]
      refine (oneAhead_advance.alike s hs).bind
        (fun t => shrinks_of_relates fun _ => relates_exprStep relates_expr t) fun t u hu => ?_
      have hless := Nat.lt_of_lt_of_le (lt_of_advance hu) hs
      exact (oneAhead_exprStep ⟨shrinks_of_relates fun _ => relates_expr, ih _ hless⟩ t).alike u
        (Nat.le_refl _)

theorem oneAhead_exprFrom (t : Token) : OneAhead k n (exprFrom t) := by
  rw [exprFrom_eq]
  exact oneAhead_exprStep oneAhead_expr t

section Simple

theorem oneAhead_typedName : OneAhead k n typedName :=
  (oneAhead_expect _).bind fun _ => (oneAhead_expect _).bind fun _ =>
    (oneAhead_expect _).bind fun _ => oneAhead_pure _

theorem oneAhead_optionalType : OneAhead k n optionalType :=
  (oneAhead_accept _).choose ((oneAhead_expect _).bind fun _ => oneAhead_pure _) (oneAhead_pure _)

theorem oneAhead_typedNames (m : Nat) : OneAhead k n (typedNames m) := by
  induction m with
  | zero => exact oneAhead_typedName.bind fun _ => oneAhead_pure _
  | succ m ih =>
    exact oneAhead_typedName.bind fun _ =>
      (oneAhead_accept _).choose (ih.bind fun _ => oneAhead_pure _) (oneAhead_pure _)

theorem oneAhead_parameters : OneAhead k n parameters :=
  (oneAhead_check _).choose (oneAhead_pure _) (.bounded steady_typedNames oneAhead_typedNames)

theorem oneAhead_structFields (m : Nat) : OneAhead k n (structFields m) := by
  induction m with
  | zero => exact oneAhead_typedName.bind fun _ => oneAhead_pure _
  | succ m ih =>
    exact (oneAhead_check _).choose (oneAhead_pure _) (oneAhead_typedName.bind fun _ =>
      (oneAhead_accept _).choose (ih.bind fun _ => oneAhead_pure _) (oneAhead_pure _))

theorem oneAhead_checkWrittenType (written : Option String) (value : Expr) :
    OneAhead k n (checkWrittenType written value) := by
  cases written with
  | none => exact oneAhead_pure _
  | some typeName => exact .ite (oneAhead_pure _) (oneAhead_report _ _)

theorem oneAhead_letStatement (keyword : Token) : OneAhead k n (letStatement keyword) :=
  (oneAhead_expect _).bind fun _ => oneAhead_optionalType.bind fun _ =>
    (oneAhead_expect _).bind fun _ => oneAhead_expr.bind fun _ =>
      (oneAhead_checkWrittenType _ _).bind fun _ => (oneAhead_newEntry _).bind fun _ =>
        (oneAhead_declare _).bind fun _ => oneAhead_pure _

theorem oneAhead_returnStatement (keyword : Token) : OneAhead k n (returnStatement keyword) := by
  refine oneAhead_peek.bind fun next => ?_
  split
  · exact oneAhead_pure _
  · exact .ite (oneAhead_pure _) (oneAhead_expr.bind fun _ => oneAhead_pure _)

theorem oneAhead_condition : OneAhead k n condition :=
  oneAhead_expr.bind fun _ => .ite (oneAhead_fail _ _) (oneAhead_pure _)

theorem oneAhead_warnIfShadowed (shadowed : Bool) (sort : String) (name : Token) :
    OneAhead k n (warnIfShadowed shadowed sort name) :=
  .ite (oneAhead_report _ _) (oneAhead_pure _)

theorem oneAhead_structStatement (keyword : Token) : OneAhead k n (structStatement keyword) :=
  (oneAhead_expect _).bind fun _ => (oneAhead_expect _).bind fun _ =>
    (OneAhead.bounded steady_structFields oneAhead_structFields).bind fun _ =>
      (oneAhead_expect _).bind fun _ => (oneAhead_newEntry _).bind fun _ =>
        (oneAhead_declare _).bind fun _ => (oneAhead_warnIfShadowed _ _ _).bind fun _ =>
          oneAhead_pure _

end Simple

section Blocks

variable (hb : ∀ ofProc, OneAhead k n (block ofProc))
include hb

theorem oneAhead_procedure (keyword : Token) : OneAhead k n (procedure block keyword) :=
  (oneAhead_expect _).bind fun _ => (oneAhead_expect _).bind fun _ =>
    oneAhead_parameters.bind fun _ => (oneAhead_expect _).bind fun _ =>
      oneAhead_optionalType.bind fun _ => oneAhead_tables.bind fun _ =>
        (oneAhead_withVariables _ fun _ => hb true).bind fun _ =>
          oneAhead_completeProc.bind fun _ => oneAhead_pure _

theorem oneAhead_procStatement (keyword : Token) : OneAhead k n (procStatement block keyword) :=
  (oneAhead_procedure hb keyword).bind fun _ => (oneAhead_newEntry _).bind fun _ =>
    (oneAhead_declare _).bind fun _ => (oneAhead_warnIfShadowed _ _ _).bind fun _ =>
      oneAhead_pure _

theorem oneAhead_implProc : OneAhead k n (implProc block) :=
  (oneAhead_expect _).bind fun keyword => (oneAhead_procedure hb keyword).bind fun _ =>
    oneAhead_pure _

theorem oneAhead_implProcs (entry : Entry (Impl Expr)) (m : Nat) :
    OneAhead k n (implProcs block entry m) := by
  induction m with
  | zero => exact oneAhead_failAtEnd _
  | succ m ih =>
    exact (oneAhead_accept _).choose (oneAhead_pure _) ((oneAhead_implProc hb).bind fun _ =>
      (oneAhead_addProc entry _).bind fun _ => ih)

theorem oneAhead_implBody (struct : StructDef) (name : Token) :
    OneAhead k n (implBody block struct name) :=
  (oneAhead_newEntry _).bind fun entry => (oneAhead_declare _).bind fun _ =>
    (oneAhead_warnIfShadowed _ _ _).bind fun _ =>
      (OneAhead.bounded (steady_implProcs entry) (oneAhead_implProcs hb entry)).bind fun _ =>
        oneAhead_pure _

theorem oneAhead_implStatement (keyword : Token) : OneAhead k n (implStatement block keyword) := by
  refine (oneAhead_expect _).bind fun name => oneAhead_tables.bind fun known => ?_
  split
  · exact oneAhead_fail _ _
  · exact (oneAhead_expect _).bind fun _ => (oneAhead_implBody hb _ name).bind fun entry =>
      (oneAhead_currentImpl entry).bind fun _ => oneAhead_pure _

omit hb in
theorem oneAhead_firstBinding (initial : Binding Expr) (entries : List (Entry (Binding Expr))) :
    OneAhead k n (firstBinding initial entries) := by
  cases entries with
  | nil => exact oneAhead_pure _
  | cons e _ => exact oneAhead_currentBinding e

theorem oneAhead_forStatement (keyword : Token) : OneAhead k n (forStatement block keyword) :=
  (oneAhead_expect _).bind fun _ => (oneAhead_expect _).bind fun _ => oneAhead_expr.bind fun _ =>
    (oneAhead_expect _).bind fun _ => oneAhead_expr.bind fun _ =>
      oneAhead_withVariables _ fun entries => (hb false).bind fun _ =>
        (oneAhead_firstBinding _ entries).bind fun _ => oneAhead_pure _

/-- A statement whose first token has been read. -/
theorem oneAhead_statementFrom (t : Token) : OneAhead k n (statementFrom block t) := by
  unfold statementFrom
  split
  · exact oneAhead_letStatement t
  · exact oneAhead_procStatement hb t
  · exact oneAhead_structStatement t
  · exact oneAhead_implStatement hb t
  · exact oneAhead_condition.bind fun _ => (hb false).bind fun _ => oneAhead_pure _
  · exact oneAhead_condition.bind fun _ => (hb false).bind fun _ => oneAhead_pure _
  · exact oneAhead_forStatement hb t
  · exact oneAhead_returnStatement t
  any_goals exact oneAhead_exprFrom t
  exact oneAhead_fail _ _

end Blocks

section Skipping

/-- What skipping to the end of a block does at a token depends on nothing behind it. -/
theorem splitAtClose_cons_cases (depth : Nat) (t : Token) :
    (∀ ts, splitAtClose depth (t :: ts) = ([t], some ts)) ∨
      ∃ d, ∀ ts, splitAtClose depth (t :: ts) =
        (t :: (splitAtClose d ts).1, (splitAtClose d ts).2) := by
  cases hk : t.kind
  case leftBrace => exact .inr ⟨depth + 1, fun ts => by simp only [splitAtClose, hk]⟩
  case rightBrace =>
    by_cases hzero : depth = 0
    · exact .inl fun ts => by simp only [splitAtClose, hk, if_pos hzero]
    · exact .inr ⟨depth - 1, fun ts => by simp only [splitAtClose, hk, if_neg hzero]⟩
  all_goals exact .inr ⟨depth, fun ts => by simp only [splitAtClose, hk]⟩

/-- What skipping to a boundary does at a token depends on nothing behind it. -/
theorem splitAtBoundary_cons_cases (depth : Nat) (t : Token) :
    (∀ ts, splitAtBoundary depth (t :: ts) = ([], t :: ts)) ∨
      (∀ ts, splitAtBoundary depth (t :: ts) = ([t], ts)) ∨
        ∃ d, ∀ ts, splitAtBoundary depth (t :: ts) =
          (t :: (splitAtBoundary d ts).1, (splitAtBoundary d ts).2) := by
  by_cases hstart : depth = 0 ∧ t.kind.startsStatement
  · exact .inl fun ts => by simp only [splitAtBoundary, if_pos hstart]
  · simp only [splitAtBoundary, if_neg hstart]
    cases hk : t.kind
    case leftBrace => exact .inr (.inr ⟨depth + 1, fun _ => rfl⟩)
    case rightBrace =>
      by_cases hzero : depth = 0
      · exact .inl fun _ => if_pos hzero
      · by_cases hone : depth = 1
        · exact .inr (.inl fun _ => (if_neg hzero).trans (if_pos hone))
        · exact .inr (.inr ⟨depth - 1, fun _ => (if_neg hzero).trans (if_neg hone)⟩)
    case semicolon =>
      by_cases hzero : depth = 0
      · exact .inr (.inl fun _ => if_pos hzero)
      · exact .inr (.inr ⟨depth, fun _ => if_neg hzero⟩)
    all_goals exact .inr (.inr ⟨depth, fun _ => rfl⟩)

/-- Skipping stops inside of some tokens, whatever is behind them, or goes on behind them all. -/
theorem splitAtClose_append_cases (depth : Nat) (us : List Token) :
    (∃ skipped rest, ∀ ts, splitAtClose depth (us ++ ts) = (skipped, some (rest ++ ts))) ∨
      ∃ d, ∀ ts, splitAtClose depth (us ++ ts) =
        (us ++ (splitAtClose d ts).1, (splitAtClose d ts).2) := by
  induction us generalizing depth with
  | nil => exact .inr ⟨depth, fun _ => rfl⟩
  | cons t us ih =>
    simp only [List.cons_append]
    rcases splitAtClose_cons_cases depth t with hstop | ⟨d, hskip⟩
    · exact .inl ⟨[t], us, fun ts => hstop _⟩
    · rcases ih d with ⟨skipped, rest, hstop⟩ | ⟨d', hon⟩
      · exact .inl ⟨t :: skipped, rest, fun ts => by rw [hskip, hstop]⟩
      · exact .inr ⟨d', fun ts => by rw [hskip, hon]⟩

theorem splitAtBoundary_append_cases (depth : Nat) (us : List Token) :
    (∃ skipped rest, ∀ ts, splitAtBoundary depth (us ++ ts) = (skipped, rest ++ ts)) ∨
      ∃ d, ∀ ts, splitAtBoundary depth (us ++ ts) =
        (us ++ (splitAtBoundary d ts).1, (splitAtBoundary d ts).2) := by
  induction us generalizing depth with
  | nil => exact .inr ⟨depth, fun _ => rfl⟩
  | cons t us ih =>
    simp only [List.cons_append]
    rcases splitAtBoundary_cons_cases depth t with hstop | hstop | ⟨d, hskip⟩
    · exact .inl ⟨[], t :: us, fun ts => hstop _⟩
    · exact .inl ⟨[t], us, fun ts => hstop _⟩
    · rcases ih d with ⟨skipped, rest, hstop⟩ | ⟨d', hon⟩
      · exact .inl ⟨t :: skipped, rest, fun ts => by rw [hskip, hstop]⟩
      · exact .inr ⟨d', fun ts => by rw [hskip, hon]⟩

theorem length_splitAtBoundary_le (depth : Nat) (ts : List Token) :
    (splitAtBoundary depth ts).2.length ≤ ts.length := by
  have hlength := congrArg List.length (splitAtBoundary_append depth ts)
  rw [List.length_append] at hlength
  omega

theorem length_splitAtClose_le (depth : Nat) (ts : List Token) :
    ((splitAtClose depth ts).2.getD []).length ≤ ts.length := by
  have hlength := congrArg List.length (splitAtClose_append depth ts)
  rw [List.length_append] at hlength
  omega

/-- After an error, both ways to go on are left at the same place, or both are gone into. -/
theorem parallel_recover {α : Type} (a : α) (s : State) (depth : Nat) (p : Problem) :
    Parallel k (.ok a ((s.inFront (k.token :: k.left)).recover depth p))
      (.ok a ((s.inFront (k.token :: k.right)).recover depth p)) := by
  unfold State.recover
  simp only [State.inFront_report]
  generalize s.report p = u
  by_cases hless : u.braceDepth < depth
  · have hclosed (ts : List Token) : (if (u.inFront ts).braceDepth < depth then
        { u.inFront ts with closedBlocks := depth - (u.inFront ts).braceDepth }
        else (u.inFront ts).skipToBoundary ((u.inFront ts).braceDepth - depth)) =
        State.inFront { u with closedBlocks := depth - u.braceDepth } ts := if_pos hless
    rw [hclosed, hclosed]
    exact .ok a _
  · have hskip (ts : List Token) : (if (u.inFront ts).braceDepth < depth then
        { u.inFront ts with closedBlocks := depth - (u.inFront ts).braceDepth }
        else (u.inFront ts).skipToBoundary ((u.inFront ts).braceDepth - depth)) =
        (u.inFront ts).consumeAll (splitAtBoundary (u.braceDepth - depth) (u.unread ++ ts)).1
          (splitAtBoundary (u.braceDepth - depth) (u.unread ++ ts)).2 := if_neg hless
    rw [hskip, hskip]
    rcases splitAtBoundary_append_cases (u.braceDepth - depth) u.unread with
      ⟨skipped, rest, hstop⟩ | ⟨d, hon⟩
    · rw [hstop, hstop]
      exact .ok a (u.consumeAll skipped rest)
    · rw [hon, hon]
      rcases splitAtBoundary_cons_cases d k.token with hstop | hread | ⟨d', hread⟩
      · rw [hstop, hstop]
        exact .ok a (u.consumeAll (u.unread ++ []) [])
      · rw [hread, hread]
        exact .past (Nat.le_refl _) (Nat.le_refl _)
      · rw [hread, hread]
        exact .past (length_splitAtBoundary_le d' _) (length_splitAtBoundary_le d' _)

theorem oneAhead_skipToClose {n : Nat} : OneAhead k n skipToClose where
  shrinks := shrinks_of_relates fun n => (readingLaw_loose n).relates_skipToClose
  alike s _ := by
    have hfinal (ts : List Token) : (finalState (skipToClose (s.inFront ts))).unread =
        (splitAtClose 0 (s.unread ++ ts)).2.getD [] := by
      unfold skipToClose
      rw [show (s.inFront ts).unread = s.unread ++ ts from rfl]
      rcases splitAtClose 0 (s.unread ++ ts) with ⟨skipped, _ | rest⟩
      · rfl
      · rfl
    rcases splitAtClose_append_cases 0 s.unread with ⟨skipped, rest, hstop⟩ | ⟨d, hon⟩
    · exact .of_ok () (t := s.consumeAll skipped rest) fun ts =>
        skipToClose_of_some (s := s.inFront _) (hstop _)
    · refine .of_past fun ts => ?_
      rw [hfinal, hon]
      rcases splitAtClose_cons_cases d k.token with hread | ⟨d', hread⟩
      · rw [hread]
        exact Nat.le_refl _
      · rw [hread]
        exact length_splitAtClose_le d' ts

end Skipping

section Bodies

theorem oneAhead_bodyRest {others : Bool → Parse (List Expr)} (ofProc : Bool)
    (ho : OneAhead k n (others ofProc)) (e : Option Expr) :
    OneAhead k n (bodyRest others ofProc e) :=
  oneAhead_leaveClosedBlock.choose (oneAhead_pure _)
    (.ite (oneAhead_skipToClose.bind fun _ => oneAhead_pure _) (ho.bind fun _ => oneAhead_pure _))

theorem shrinks_body (ofProc : Bool) : Shrinks (body ofProc) :=
  shrinks_of_relates fun n =>
    Relates.bounded fun m => (readingLaw_loose n).relates_bodyUpTo m ofProc

theorem shrinks_statementFrom (t : Token) : Shrinks (statementFrom block t) :=
  shrinks_of_relates fun n => relates_statementFrom (readingLaw_loose n).relates_block t

/-- A statement, if the blocks inside of it look one token ahead. -/
theorem alike_optionalStatement {s : State}
    (hb : ∀ m < s.unread.length, ∀ ofProc, OneAhead k m (block ofProc)) :
    Alike k s (optionalStatement block) := by
  have hfrom (t : Token) : Shrinks (do return some (← statementFrom block t)) :=
    (shrinks_statementFrom t).bind fun _ => shrinks_pure _
  have hadvance : Shrinks (do return some (← statementFrom block (← advance))) := by
    have hbind := shrinks_advance.bind hfrom
    simpa only [bind_assoc] using hbind
  refine ((oneAhead_accept .semicolon).alike s (Nat.le_refl _)).bind (fun empty => ?_)
    fun empty u hu => ?_
  · cases empty with
    | true => exact shrinks_pure none
    | false => exact hadvance
  · have hle := (shrinks_accept .semicolon).length_le hu
    cases empty with
    | true => exact (oneAhead_pure none).alike u (Nat.le_refl _)
    | false =>
      refine (oneAhead_advance.alike u (Nat.le_refl _)).bind hfrom fun t v hv => ?_
      have hless := Nat.lt_of_lt_of_le (lt_of_advance hv) hle
      exact ((oneAhead_statementFrom (hb _ hless) t).bind fun _ => oneAhead_pure _).alike v
        (Nat.le_refl _)

theorem always_statement_of_ok {s u : State} {e : Option Expr}
    (h : optionalStatement block s = .ok e u) : always statement s = .ok e u := by
  unfold always statement statementWith
  rw [h]

theorem always_statement_of_error {s u : State} {p : Problem}
    (h : optionalStatement block s = .error p u) :
    always statement s = .ok none (u.recover s.braceDepth p) := by
  unfold always
  rw [statement_eq_of_error h]

/-- Going on after an error puts no token back. -/
theorem length_always_statement_le (s : State) :
    (finalState (always statement s)).unread.length ≤
      (finalState (optionalStatement block s)).unread.length := by
  cases h : optionalStatement block s with
  | ok e u =>
    exact Nat.le_of_eq (by rw [always_statement_of_ok h])
  | error p u =>
    rw [always_statement_of_error h]
    exact (State.Later.recover u _ p).length_le

/-- A statement does the same in front of a fork, whether it succeeds or fails. -/
theorem alike_statement {s : State}
    (hb : ∀ m < s.unread.length, ∀ ofProc, OneAhead k m (block ofProc)) :
    Alike k s (always statement) := by
  refine Parallel.goOn (alike_optionalStatement hb) (fun e t hl hr => ?_) (fun p t hl hr => ?_)
    (length_always_statement_le _) (length_always_statement_le _)
  · rw [always_statement_of_ok hl, always_statement_of_ok hr]
    exact .ok e t
  · rw [always_statement_of_error hl, always_statement_of_error hr]
    exact parallel_recover none t s.braceDepth p

theorem oneAhead_block (hbody : ∀ ofProc, OneAhead k n (body ofProc)) (ofProc : Bool) :
    OneAhead k n (block ofProc) :=
  (oneAhead_expect _).bind fun _ => hbody ofProc

theorem shrinks_bodyRest (ofProc : Bool) (e : Option Expr) : Shrinks (bodyRest body ofProc e) :=
  shrinks_of_relates fun n => (readingLaw_loose n).relates_bodyRest ofProc
    (Relates.bounded fun m => (readingLaw_loose n).relates_bodyUpTo m ofProc) e

/-- A statement in front of the fork leaves fewer tokens there. -/
theorem lt_of_statement {s t : State} {e : Option Expr} {tok : Token} {ts : List Token}
    (h : always statement (s.inFront (tok :: ts)) = .ok e (t.inFront (tok :: ts))) :
    t.unread.length < s.unread.length := by
  obtain ⟨first, rest, hunread⟩ : ∃ first rest, (s.inFront (tok :: ts)).unread = first :: rest :=
    List.exists_cons_of_ne_nil (List.append_ne_nil_of_right_ne_nil _ (List.cons_ne_nil _ _))
  have hlater := (later_statement_of_cons hunread).length_le
  have hbefore := congrArg List.length hunread
  injection h with _ hfinal
  have hrest : (State.consume (s.inFront (tok :: ts)) first rest).unread.length = rest.length := rfl
  rw [hfinal, hrest] at hlater
  simp only [State.length_inFront, List.length_cons] at hlater hbefore
  omega

theorem oneAhead_body (ofProc : Bool) : OneAhead k n (body ofProc) where
  shrinks := shrinks_body ofProc
  alike := by
    -- Each statement of a block reads a token, and so do the blocks inside of it.
    induction n using Nat.strongRecOn generalizing ofProc with
    | ind n ih =>
      intro s hs
      have hothers (o : Bool) (u : State) (hu : u.unread.length < n) :
          OneAhead k u.unread.length (body o) := ⟨shrinks_body o, ih _ hu o⟩
      have hclose : OneAhead k n (do let _ ← advance; return ([] : List Expr)) :=
        oneAhead_advance.bind fun _ => oneAhead_pure _
      have hstatement (ofProc : Bool) : Shrinks (do bodyRest body ofProc (← always statement)) :=
        Shrinks.bind (fun u => (later_statement u).length_le) (shrinks_bodyRest ofProc)
      rw [body_eq]
      refine (oneAhead_peek.alike s hs).bind (fun next => ?_) fun next u hu => ?_
      · cases next with
        | none => exact (oneAhead_failAtEnd (k := k) (n := n) _).shrinks
        | some t =>
          show Shrinks (if t.kind = .rightBrace then _ else _)
          split
          · exact hclose.shrinks
          · exact hstatement ofProc
      · have hle := Nat.le_trans (Shrinks.length_le (fun _ => Nat.le_refl _) hu) hs
        cases next with
        | none => exact (oneAhead_failAtEnd _).alike u hle
        | some t =>
          show Alike k u (if t.kind = .rightBrace then _ else _)
          split
          · exact hclose.alike u hle
          · have hb : ∀ m < u.unread.length, ∀ o, OneAhead k m (block o) := fun m hm =>
              oneAhead_block fun o => ⟨shrinks_body o, ih m (Nat.lt_of_lt_of_le hm hle) o⟩
            refine (alike_statement hb).bind (shrinks_bodyRest ofProc) fun e v hv => ?_
            have hless := Nat.lt_of_lt_of_le (lt_of_statement hv) hle
            exact (oneAhead_bodyRest ofProc (hothers ofProc v hless) e).alike v (Nat.le_refl _)

theorem shrinks_optionalStatement : Shrinks (optionalStatement block) :=
  shrinks_of_relates fun n => relates_optionalStatement (readingLaw_loose n).relates_block

theorem oneAhead_optionalStatement : OneAhead k n (optionalStatement block) where
  shrinks := shrinks_optionalStatement
  alike _ _ := alike_optionalStatement fun _ _ => oneAhead_block oneAhead_body

end Bodies
end ScriptFront
