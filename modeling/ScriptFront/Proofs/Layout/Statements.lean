import ScriptFront.Proofs.Layout.Expressions

/-!
# Statements within a setting

Every reader of statements does the same within a setting, and so does a whole statement, whether
it succeeds or fails: where reading goes on after an error depends on the kinds of the tokens only.

**Results.**

* `State.within_recover`: going on after an error.
* `mirrors_body`: the statements of a block.
* `statement_within`: a statement.
* `Session.finish_within`: all statements that are left.
-/

namespace ScriptFront

open Parse

variable {m : Setting} {n : Nat}

section Simple

theorem mirrors_typedName : Mirrors m n id typedName typedName :=
  (mirrors_expect _).bind fun _ => (mirrors_expect _).bind fun _ =>
    (mirrors_expect _).bind fun _ => mirrors_pure rfl

theorem mirrors_optionalType : Mirrors m n id optionalType optionalType :=
  (mirrors_accept _).choose ((mirrors_expect _).bind fun _ => mirrors_pure rfl) (mirrors_pure rfl)

theorem mirrors_typedNames (k : Nat) : Mirrors m n id (typedNames k) (typedNames k) := by
  induction k with
  | zero => exact mirrors_typedName.bind fun _ => mirrors_pure rfl
  | succ k ih =>
    exact mirrors_typedName.bind fun _ =>
      (mirrors_accept _).choose (ih.bind fun _ => mirrors_pure rfl) (mirrors_pure rfl)

theorem mirrors_parameters : Mirrors m n id parameters parameters :=
  (mirrors_check _).choose (mirrors_pure rfl) (.bounded steady_typedNames mirrors_typedNames)

theorem mirrors_structFields (k : Nat) : Mirrors m n id (structFields k) (structFields k) := by
  induction k with
  | zero => exact mirrors_typedName.bind fun _ => mirrors_pure rfl
  | succ k ih =>
    exact (mirrors_check _).choose (mirrors_pure rfl) (mirrors_typedName.bind fun _ =>
      (mirrors_accept _).choose (ih.bind fun _ => mirrors_pure rfl) (mirrors_pure rfl))

theorem mirrors_checkWrittenType (written : Option String) (value : Expr) :
    Mirrors m n id (checkWrittenType written value)
      (checkWrittenType written (value.moved m.place)) := by
  unfold checkWrittenType
  rw [Expr.moved_valueType, Expr.moved_pos]
  cases written with
  | none => exact mirrors_pure rfl
  | some typeName => exact .ite .rfl (mirrors_pure rfl) (mirrors_report rfl rfl)

theorem mirrors_letStatement (keyword : Token) :
    Mirrors m n (Expr.moved m.place) (letStatement keyword)
      (letStatement (keyword.moved m.place)) := by
  refine (mirrors_expect _).bind fun name => mirrors_optionalType.bind fun written =>
    (mirrors_expect _).bind fun _ => mirrors_expr.bind fun value =>
      (mirrors_checkWrittenType written value).bind fun _ => ?_
  rw [Expr.moved_valueType, Expr.moved_boundValue]
  exact mirrors_declareNew (Binding.map (Expr.moved m.place)) _ .variable (fun _ => rfl)
    fun _ _ => mirrors_pure rfl

theorem mirrors_returnStatement (keyword : Token) :
    Mirrors m n (Expr.moved m.place) (returnStatement keyword)
      (returnStatement (keyword.moved m.place)) := by
  refine mirrors_peek.bind fun next => ?_
  cases next with
  | none => exact mirrors_pure rfl
  | some t =>
    exact .ite .rfl (mirrors_pure rfl) (mirrors_expr.bind fun value => mirrors_pure rfl)

theorem mirrors_condition : Mirrors m n (Expr.moved m.place) condition condition := by
  refine mirrors_expr.bind fun e => ?_
  rw [Expr.moved_kind, Expr.moved_valueType, Expr.moved_pos]
  exact .ite .rfl (mirrors_fail rfl rfl) (mirrors_pure rfl)

theorem mirrors_warnIfShadowed (shadowed : Bool) (sort : String) (name : Token) :
    Mirrors m n id (warnIfShadowed shadowed sort name)
      (warnIfShadowed shadowed sort (name.moved m.place)) :=
  .ite .rfl (mirrors_report rfl rfl) (mirrors_pure rfl)

theorem mirrors_structStatement (keyword : Token) :
    Mirrors m n (Expr.moved m.place) (structStatement keyword)
      (structStatement (keyword.moved m.place)) := by
  refine (mirrors_expect _).bind fun name => (mirrors_expect _).bind fun _ =>
    (Mirrors.bounded steady_structFields mirrors_structFields).bind fun fields =>
      (mirrors_expect _).bind fun _ => ?_
  exact mirrors_declareNew id _ .struct (fun _ => rfl) fun _ shadowed =>
    (mirrors_warnIfShadowed shadowed "struct" name).bind fun _ => mirrors_pure rfl

end Simple

section Compounds

variable (hb : ∀ ofProc,
  Mirrors m n (List.map (Expr.moved m.place)) (block ofProc) (block ofProc))
include hb

theorem mirrors_procedure (keyword : Token) :
    Mirrors m n (Prod.map (Token.moved m.place) (Proc.map m.place (Expr.moved m.place)))
      (procedure block keyword) (procedure block (keyword.moved m.place)) := by
  refine (mirrors_expect _).bind fun name => (mirrors_expect _).bind fun _ =>
    mirrors_parameters.bind fun params => (mirrors_expect _).bind fun _ =>
      mirrors_optionalType.bind fun returnType => mirrors_tables.bind fun known => ?_
  have hparams : (params.map (·.defaultBinding known.structs name.pos)).map
      (Binding.map (Expr.moved m.place)) =
      params.map (·.defaultBinding known.structs (m.place name.pos)) := by
    rw [List.map_map]
    exact List.map_congr_left fun param _ => param.defaultBinding_moved _ _ _
  have hbody : Mirrors m n (List.map (Expr.moved m.place))
      (withVariables (params.map (·.defaultBinding known.structs name.pos)) fun _ => block true)
      (withVariables (params.map (·.defaultBinding known.structs (m.place name.pos)))
        fun _ => block true) := by
    rw [← hparams]
    exact mirrors_withVariables _ fun _ => hb true
  exact hbody.bind fun body => mirrors_completeProc.bind fun number => mirrors_pure rfl

theorem mirrors_procStatement (keyword : Token) :
    Mirrors m n (Expr.moved m.place) (procStatement block keyword)
      (procStatement block (keyword.moved m.place)) := by
  refine (mirrors_procedure hb keyword).bind fun named => ?_
  exact mirrors_declareNew (Proc.map m.place (Expr.moved m.place)) _ .procedure (fun _ => rfl)
    fun _ shadowed => (mirrors_warnIfShadowed shadowed "procedure" named.1).bind fun _ =>
      mirrors_pure (Expr.moved_procDef ..).symm

theorem mirrors_implProc :
    Mirrors m n (Proc.map m.place (Expr.moved m.place)) (implProc block) (implProc block) :=
  (mirrors_expect _).bind fun keyword => (mirrors_procedure hb keyword).bind fun _ =>
    mirrors_pure rfl

theorem mirrors_implProcs (entry : Entry (Impl Expr)) (k : Nat) :
    Mirrors m n id (implProcs block entry k)
      (implProcs block (entry.map (Impl.map m.place (Expr.moved m.place))) k) := by
  induction k with
  | zero => exact mirrors_failAtEnd _
  | succ k ih =>
    exact (mirrors_accept _).choose (mirrors_pure rfl) ((mirrors_implProc hb).bind fun proc =>
      (mirrors_addProc entry proc).bind fun _ => ih)

theorem mirrors_implBody (struct : StructDef) (name : Token) :
    Mirrors m n (Entry.map (Impl.map m.place (Expr.moved m.place))) (implBody block struct name)
      (implBody block struct (name.moved m.place)) :=
  mirrors_declareNew (Impl.map m.place (Expr.moved m.place)) _ .impl (fun _ => rfl)
    fun entry shadowed => (mirrors_warnIfShadowed shadowed "impl" name).bind fun _ =>
      (Mirrors.bounded (steady_implProcs entry) (mirrors_implProcs hb entry)).bind fun _ =>
        mirrors_pure rfl

theorem mirrors_implStatement (keyword : Token) :
    Mirrors m n (Expr.moved m.place) (implStatement block keyword)
      (implStatement block (keyword.moved m.place)) := by
  refine (mirrors_expect _).bind fun name => mirrors_tables.bind fun known => ?_
  rw [show (known.moved m.place).structs.lookup? (name.moved m.place).lexeme =
    known.structs.lookup? name.lexeme from rfl]
  cases known.structs.lookup? name.lexeme with
  | none => exact mirrors_fail rfl rfl
  | some struct =>
    exact (mirrors_expect _).bind fun _ => (mirrors_implBody hb struct.decl name).bind fun entry =>
      (mirrors_currentImpl entry).bind fun _ => mirrors_pure (Expr.moved_implBlock ..).symm

omit hb in
theorem mirrors_firstBinding (initial : Binding Expr) (entries : List (Entry (Binding Expr))) :
    Mirrors m n (Binding.map (Expr.moved m.place)) (firstBinding initial entries)
      (firstBinding (initial.map (Expr.moved m.place))
        (entries.map (Entry.map (Binding.map (Expr.moved m.place))))) := by
  cases entries with
  | nil => exact mirrors_pure rfl
  | cons e _ => exact mirrors_currentBinding e

theorem mirrors_forStatement (keyword : Token) :
    Mirrors m n (Expr.moved m.place) (forStatement block keyword)
      (forStatement block (keyword.moved m.place)) := by
  refine (mirrors_expect _).bind fun name => (mirrors_expect _).bind fun _ =>
    mirrors_expr.bind fun start => (mirrors_expect _).bind fun _ => mirrors_expr.bind fun stop => ?_
  rw [Expr.moved_pos]
  exact mirrors_withVariables [⟨name.lexeme, "i32", start⟩] fun entries =>
    (hb false).bind fun body => (mirrors_firstBinding _ entries).bind fun counter =>
      mirrors_pure (by rw [Expr.moved_forLoop]; rfl)

/-- A statement whose first token has been read. -/
theorem mirrors_statementFrom (t : Token) :
    Mirrors m n (Expr.moved m.place) (statementFrom block t)
      (statementFrom block (t.moved m.place)) := by
  unfold statementFrom
  simp only [Token.moved]
  split
  · exact mirrors_letStatement t
  · exact mirrors_procStatement hb t
  · exact mirrors_structStatement t
  · exact mirrors_implStatement hb t
  · exact mirrors_condition.bind fun _ => (hb false).bind fun _ =>
      mirrors_pure (Expr.moved_ifStatement ..).symm
  · exact mirrors_condition.bind fun _ => (hb false).bind fun _ =>
      mirrors_pure (Expr.moved_whileStatement ..).symm
  · exact mirrors_forStatement hb t
  · exact mirrors_returnStatement t
  any_goals exact mirrors_exprFrom t
  exact mirrors_fail rfl rfl

end Compounds

section Skipping

/-- Where the next boundary is depends on the kinds of the tokens up to it. -/
theorem splitAtBoundary_within (depth : Nat) (ts : List Token)
    (hides : m.behind = [] ∨ (splitAtBoundary depth ts).2 ≠ []) :
    splitAtBoundary depth (ts.map (Token.moved m.place) ++ m.behind) =
      ((splitAtBoundary depth ts).1.map (Token.moved m.place),
        (splitAtBoundary depth ts).2.map (Token.moved m.place) ++ m.behind) := by
  induction ts generalizing depth with
  | nil =>
    rw [hides.resolve_right fun hne => hne rfl]
    rfl
  | cons t ts ih =>
    have hskip (d : Nat) (hd : m.behind = [] ∨ (splitAtBoundary d ts).2 ≠ []) :=
      congrArg (fun parts => (t.moved m.place :: parts.1, parts.2)) (ih d hd)
    simp only [splitAtBoundary, List.map_cons, List.cons_append, Token.kind_moved] at hides ⊢
    by_cases hstart : depth = 0 ∧ t.kind.startsStatement
    · simp only [if_pos hstart]
      rfl
    · simp only [if_neg hstart] at hides ⊢
      cases hk : t.kind <;> simp only [hk] at hides ⊢
      case leftBrace => exact hskip _ hides
      case rightBrace =>
        by_cases hzero : depth = 0
        · simp only [if_pos hzero]
          rfl
        · by_cases hone : depth = 1
          · simp only [if_neg hzero, if_pos hone]
            rfl
          · simp only [if_neg hzero, if_neg hone] at hides ⊢
            exact hskip _ hides
      case semicolon =>
        by_cases hzero : depth = 0
        · simp only [if_pos hzero]
          rfl
        · simp only [if_neg hzero] at hides ⊢
          exact hskip _ hides
      all_goals exact hskip _ hides

/-- The end of a block depends on the kinds of the tokens up to it. -/
theorem splitAtClose_within (depth : Nat) (ts : List Token)
    (hides : m.behind = [] ∨ (splitAtClose depth ts).2.isSome) :
    splitAtClose depth (ts.map (Token.moved m.place) ++ m.behind) =
      ((splitAtClose depth ts).1.map (Token.moved m.place),
        (splitAtClose depth ts).2.map fun rest => rest.map (Token.moved m.place) ++ m.behind) := by
  induction ts generalizing depth with
  | nil =>
    rw [hides.resolve_right nofun]
    rfl
  | cons t ts ih =>
    have hskip (d : Nat) (hd : m.behind = [] ∨ (splitAtClose d ts).2.isSome) :=
      congrArg (fun parts => (t.moved m.place :: parts.1, parts.2)) (ih d hd)
    simp only [splitAtClose, List.map_cons, List.cons_append, Token.kind_moved] at hides ⊢
    cases hk : t.kind <;> simp only [hk] at hides ⊢
    case rightBrace =>
      by_cases hzero : depth = 0
      · simp only [if_pos hzero]
        rfl
      · simp only [if_neg hzero] at hides ⊢
        exact hskip _ hides
    all_goals exact hskip _ hides

namespace State

theorem within_consumeAll (s : State) (ts rest : List Token) :
    (s.consumeAll ts rest).within m = (s.within m).consumeAll (ts.map (Token.moved m.place))
      (rest.map (Token.moved m.place) ++ m.behind) := by
  have hdepth : (ts.map (Token.moved m.place)).foldl depthAfter s.braceDepth =
      ts.foldl depthAfter s.braceDepth := by
    rw [List.foldl_map]
    rfl
  unfold consumeAll within
  rw [hdepth, List.map_append, List.map_reverse, List.append_assoc]

theorem within_skipToBoundary {s : State} {depth : Nat} (hides : m.Hides (s.skipToBoundary depth)) :
    (s.skipToBoundary depth).within m = (s.within m).skipToBoundary depth := by
  have hsplit : splitAtBoundary depth (s.within m).unread = _ := splitAtBoundary_within _ _ hides
  unfold skipToBoundary
  rw [hsplit]
  exact within_consumeAll ..

/-- Reading goes on at the same place after an error. -/
theorem within_recover {s : State} {depth : Nat} {p : Problem}
    (hides : m.Hides (s.recover depth p)) :
    (s.recover depth p).within m = (s.within m).recover depth (p.moved m.place) := by
  unfold recover at hides ⊢
  simp only [← within_report] at hides ⊢
  split
  · exact (if_pos ‹_›).symm
  · rw [if_neg ‹_›] at hides
    exact (within_skipToBoundary hides).trans (if_neg ‹_›).symm

end State

theorem skipToClose_of_some {s : State} {skipped rest : List Token}
    (h : splitAtClose 0 s.unread = (skipped, some rest)) :
    skipToClose s = .ok () (s.consumeAll skipped rest) := by
  simp only [skipToClose, h]

theorem skipToClose_of_none {s : State} {skipped : List Token}
    (h : splitAtClose 0 s.unread = (skipped, none)) :
    skipToClose s = failAtEnd (.words "more input") (s.consumeAll skipped []) := by
  simp only [skipToClose, h]

theorem mirrors_skipToClose : Mirrors m n id skipToClose skipToClose := by
  intro s hs
  have hsplit := splitAtClose_within (m := m) 0 s.unread
  have happend := splitAtClose_append 0 s.unread
  cases hclose : splitAtClose 0 s.unread with
  | mk skipped rest? =>
    rw [hclose] at hsplit happend
    have hlater := State.Later.consumeAll happend.symm
    cases rest? with
    | some rest =>
      refine .of_ok (skipToClose_of_some hclose) hlater fun _ => ?_
      rw [skipToClose_of_some (hsplit (.inr rfl)), State.within_consumeAll]
    | none =>
      refine (mirrors_failAtEnd (.words "more input") _ (hs.later hlater)).of_eq hlater
        (skipToClose_of_none hclose) fun hides => ?_
      have hnil : m.behind = [] := hides.resolve_right fun hne => hne rfl
      rw [skipToClose_of_none (hsplit (.inl hnil)), State.within_consumeAll, hnil]
      rfl

theorem mirrors_leaveClosedBlock : Mirrors m n id leaveClosedBlock leaveClosedBlock := by
  intro s _
  by_cases hopen : s.closedBlocks = 0
  · refine .of_ok (if_pos hopen) (.refl s) fun _ => if_pos hopen
  · refine .of_ok (if_neg hopen) (.of_same rfl rfl rfl rfl List.prefix_rfl) fun _ => if_neg hopen

end Skipping

section Blocks

theorem mirrors_bodyRest {others : Bool → Parse (List Expr)} (ofProc : Bool)
    (ho : Mirrors m n (List.map (Expr.moved m.place)) (others ofProc) (others ofProc))
    (e : Option Expr) :
    Mirrors m n (List.map (Expr.moved m.place)) (bodyRest others ofProc e)
      (bodyRest others ofProc (e.map (Expr.moved m.place))) := by
  have hbare : isBareReturn (e.map (Expr.moved m.place)) = isBareReturn e := by
    cases e with
    | none => rfl
    | some e =>
      cases e with
      | returnStatement pos value => cases value <;> rfl
      | _ => rfl
  have hlist : (e.map (Expr.moved m.place)).toList = e.toList.map (Expr.moved m.place) := by
    cases e <;> rfl
  unfold bodyRest
  rw [hbare, hlist]
  exact mirrors_leaveClosedBlock.choose (mirrors_pure rfl) (.ite .rfl
    (mirrors_skipToClose.bind fun _ => mirrors_pure rfl)
    (ho.bind fun _ => mirrors_pure List.map_append.symm))

theorem follows_optionalStatement {s : State} {t : Token} {rest : List Token}
    (hunread : s.unread = t :: rest) (hb : ∀ ofProc,
      Mirrors m rest.length (List.map (Expr.moved m.place)) (block ofProc) (block ofProc)) :
    Follows m (Option.map (Expr.moved m.place)) s (optionalStatement block)
      (optionalStatement block) := by
  have hcons := State.within_unread_of_cons (m := m) hunread
  have heq := optionalStatement_of_cons block hunread
  have heq' := optionalStatement_of_cons block hcons
  by_cases hk : t.kind = .semicolon
  · rw [if_pos hk] at heq
    refine .of_ok heq (.consume hunread) fun _ => ?_
    rw [heq', if_pos (show (t.moved m.place).kind = .semicolon from hk)]
    rfl
  · rw [if_neg hk] at heq
    rw [if_neg (show ¬ (t.moved m.place).kind = .semicolon from hk)] at heq'
    have hfrom : Mirrors m rest.length (Option.map (Expr.moved m.place))
        (do return some (← statementFrom block t))
        (do return some (← statementFrom block (t.moved m.place))) :=
      (mirrors_statementFrom hb t).bind fun _ => mirrors_pure rfl
    exact (hfrom _ (.consume t rest)).of_eq (.consume hunread) heq fun _ => heq'

/-- A statement in front of a token does the same, whether it succeeds or fails. -/
theorem follows_statement {s : State} {t : Token} {rest : List Token}
    (hunread : s.unread = t :: rest) (hb : ∀ ofProc,
      Mirrors m rest.length (List.map (Expr.moved m.place)) (block ofProc) (block ofProc)) :
    Follows m (Option.map (Expr.moved m.place)) s (always statement) (always statement) := by
  refine .of_ok (a := (statement s).1) rfl (later_statement s) fun hides => ?_
  have hopt := (follows_optionalStatement (m := m) hunread hb).same
  unfold always
  suffices statement (s.within m) =
      ((statement s).1.map (Expr.moved m.place), (statement s).2.within m) by rw [this]
  unfold statement statementWith at hides ⊢
  cases hr : optionalStatement block s with
  | ok e u =>
    rw [hr] at hopt hides
    rw [hopt hides]
    rfl
  | error p u =>
    rw [hr] at hopt hides
    rw [hopt (hides.of_later (.recover _ _ _))]
    exact congrArg (none, ·) (State.within_recover hides).symm

theorem mirrors_block (hbody : ∀ ofProc,
      Mirrors m n (List.map (Expr.moved m.place)) (body ofProc) (body ofProc)) (ofProc : Bool) :
    Mirrors m n (List.map (Expr.moved m.place)) (block ofProc) (block ofProc) :=
  (mirrors_expect _).bind fun _ => hbody ofProc

theorem mirrors_body (ofProc : Bool) :
    Mirrors m n (List.map (Expr.moved m.place)) (body ofProc) (body ofProc) := by
  -- Each statement of a block reads a token, and so do the blocks inside of it.
  induction n using Nat.strongRecOn generalizing ofProc with
  | ind n ih =>
    intro s hs
    rw [body_eq]
    refine (mirrors_peek s hs).bind fun next u hu _ => ?_
    cases hunread : s.unread with
    | nil =>
      rw [peek_of_nil hunread] at hu
      injection hu with hnext hsu
      subst hnext hsu
      exact mirrors_failAtEnd _ s hs
    | cons t rest =>
      rw [peek_of_cons hunread] at hu
      injection hu with hnext hsu
      subst hnext hsu
      by_cases hk : t.kind = .rightBrace
      · have hclose : Mirrors m n (List.map (Expr.moved m.place))
            (do let _ ← advance; return ([] : List Expr))
            (do let _ ← advance; return ([] : List Expr)) :=
          mirrors_advance.bind fun _ => mirrors_pure rfl
        show Follows m _ s (if t.kind = .rightBrace then _ else _)
          (if (t.moved m.place).kind = .rightBrace then _ else _)
        rw [if_pos hk, if_pos (show (t.moved m.place).kind = .rightBrace from hk)]
        exact hclose s hs
      · have ihrest := ih rest.length (hs.lt hunread)
        have hstep := follows_statement (m := m) hunread (mirrors_block ihrest)
        show Follows m _ s (if t.kind = .rightBrace then _ else _)
          (if (t.moved m.place).kind = .rightBrace then _ else _)
        rw [if_neg hk, if_neg (show ¬ (t.moved m.place).kind = .rightBrace from hk)]
        refine hstep.bind fun e u hu _ => ?_
        refine mirrors_bodyRest ofProc (ihrest ofProc) e u ?_
        injection hu with _ hsu
        subst hsu
        exact (State.Begun.consume t rest).later (later_statement_of_cons hunread)

end Blocks

section Programs

/-- A statement does the same within a setting. -/
theorem statement_within {s : State} {t : Token} {rest : List Token}
    (hunread : s.unread = t :: rest) (hides : m.Hides (statement s).2) :
    statement (s.within m) =
      ((statement s).1.map (Expr.moved m.place), (statement s).2.within m) := by
  have hsame := (follows_statement (m := m) hunread (mirrors_block mirrors_body)).same hides
  unfold always at hsame
  injection hsame with hfirst hsecond
  exact Prod.ext hfirst hsecond

/-- All statements that are left do the same when nothing is behind them. -/
theorem State.statements_within (hbehind : m.behind = []) (s : State) :
    (s.within m).statements =
      s.statements.map fun step => (step.1.map (Expr.moved m.place), step.2.within m) := by
  induction s using statement_induction with
  | nil s hunread =>
    rw [statements_of_nil hunread, statements_of_nil (within_unread_of_nil hunread (.inl hbehind))]
    rfl
  | cons s t rest hunread ih =>
    rw [statements_of_cons (within_unread_of_cons hunread), statements_of_cons hunread,
      statement_within hunread (.inl hbehind), ih]
    rfl

/-- The rest of a program, behind the statements that are given. -/
theorem Session.finish_within (hbehind : m.behind = []) (program : Program) (s : State) :
    Session.finish ⟨program, s.within m⟩ =
      ⟨program ++ (Session.finish ⟨[], s⟩).program.map (Expr.moved m.place),
        (Session.finish ⟨[], s⟩).state.within m⟩ := by
  unfold finish
  simp only [State.statements_within hbehind, List.filterMap_map, List.getLast?_map, Option.map_map,
    List.nil_append, List.map_filterMap]
  congr 1
  cases s.statements.getLast? <;> rfl

end Programs

end ScriptFront
