import ScriptFront.Parse.Program
import ScriptFront.Proofs.Reading.Levels

/-!
# Every statement reads on

A statement reads its first token before anything inside of it is read, whether it succeeds or
fails in the end.  So reading statements comes to an end, and at the end every token of the text
has been read once and in order.

**Results.**

* `body_eq`, `implProcs_eq`, `State.statements_of_cons`: the equations of the recursion.
* `later_statement_of_cons`: a statement in front of a token reads that token at least.
* `statement_induction`: an induction on the statements that are left.
* `parseProgram_reads_all`: reading a program reads all of its tokens; the levels of every reader
  suffice, and no error leaves a statement.
-/

namespace ScriptFront
namespace Parse

section Statements

theorem optionalStatement_of_cons (block : Bool → Parse (List Expr)) {s : State} {t : Token}
    {rest : List Token} (hunread : s.unread = t :: rest) :
    optionalStatement block s =
      if t.kind = .semicolon then .ok none (s.consume t rest)
      else (do return some (← statementFrom block t)) (s.consume t rest) := by
  unfold optionalStatement
  by_cases hk : t.kind = .semicolon
  · rw [if_pos hk, bind_of_ok (accept_of_eq hunread hk)]
    rfl
  · rw [if_neg hk, bind_of_ok (accept_of_ne hunread hk)]
    simp only [Bool.false_eq_true, if_false]
    rw [bind_of_ok (advance_of_cons hunread)]

section Outcomes

variable {s u : State} {t : Token} {rest : List Token} (hunread : s.unread = t :: rest)
include hunread

/-- A lone semicolon is read and gives nothing. -/
theorem statement_of_semicolon (hk : t.kind = .semicolon) :
    statement s = (none, s.consume t rest) := by
  unfold statement statementWith
  rw [optionalStatement_of_cons block hunread, if_pos hk]

/-- A statement that is read behind its first token is its own result. -/
theorem statement_of_ok {e : Expr} (hk : t.kind ≠ .semicolon)
    (h : statementFrom block t (s.consume t rest) = .ok e u) : statement s = (some e, u) := by
  unfold statement statementWith
  rw [optionalStatement_of_cons block hunread, if_neg hk, bind_of_ok h]
  rfl

theorem optionalStatement_of_error {p : Problem} (hk : t.kind ≠ .semicolon)
    (h : statementFrom block t (s.consume t rest) = .error p u) :
    optionalStatement block s = .error p u := by
  rw [optionalStatement_of_cons block hunread, if_neg hk, bind_of_error h]

end Outcomes

/-- Where a statement fails, reading goes on, and nothing comes of the statement. -/
theorem statement_eq_of_error {s u : State} {p : Problem}
    (h : optionalStatement block s = .error p u) :
    statement s = (none, u.recover s.braceDepth p) := by
  unfold statement statementWith
  rw [h]

variable {n : Nat} {b₁ b₂ : Bool → Parse (List Expr)}

/-- A statement reads its first token before it asks for the blocks inside of it. -/
theorem statementWith_of_cons (hb : ∀ ofProc, (readingLaw n).Relates (b₁ ofProc) (b₂ ofProc))
    {s : State} {t : Token} {rest : List Token} (hunread : s.unread = t :: rest)
    (hs : s.unread.length ≤ n) :
    statementWith b₁ s = statementWith b₂ s ∧
      (s.consume t rest).Later (statementWith b₁ s).2 := by
  have hgood : (readingLaw n).good (s.consume t rest) := by
    rw [hunread, List.length_cons] at hs
    exact hs
  have hfrom : (readingLaw n).Relates (do return some (← statementFrom b₁ t))
      (do return some (← statementFrom b₂ t)) :=
    (StepLaw.relates_statementFrom hb t).bind fun e => StepLaw.relates_pure (some e)
  unfold statementWith
  rw [optionalStatement_of_cons b₁ hunread, optionalStatement_of_cons b₂ hunread]
  by_cases hk : t.kind = .semicolon
  · rw [if_pos hk, if_pos hk]
    exact ⟨rfl, .refl _⟩
  · rw [if_neg hk, if_neg hk, ← hfrom.eq hgood]
    refine ⟨rfl, ?_⟩
    cases hr : (do return some (← statementFrom b₁ t)) (s.consume t rest) with
    | ok e u => exact hfrom.ok hgood hr
    | error p u => exact (hfrom.error hgood hr).2.trans (.recover _ _ p)

theorem bodyStep_congr {q r : Bool → Parse (List Expr)}
    (h : ∀ ofProc, (readingLaw n).Relates (q ofProc) (r ofProc)) (ofProc : Bool) {s : State}
    (hs : s.unread.length ≤ n) :
    bodyStep (statementWith (braced q)) q ofProc s =
      bodyStep (statementWith (braced r)) r ofProc s := by
  unfold bodyStep
  cases hunread : s.unread with
  | nil => rw [bind_of_ok (peek_of_nil hunread), bind_of_ok (peek_of_nil hunread)]
  | cons t rest =>
    rw [bind_of_ok (peek_of_cons hunread), bind_of_ok (peek_of_cons hunread)]
    by_cases hk : t.kind = .rightBrace
    · simp only [if_pos hk]
    · simp only [if_neg hk]
      have hbraced := fun o => (readingLaw_loose n).relates_braced h o
      obtain ⟨heq, hlater⟩ := statementWith_of_cons hbraced hunread hs
      have halways : always (statementWith (braced q)) s =
          .ok (statementWith (braced q) s).1 (statementWith (braced q) s).2 := rfl
      have halways' : always (statementWith (braced r)) s =
          .ok (statementWith (braced q) s).1 (statementWith (braced q) s).2 := by
        rw [heq]
        rfl
      rw [bind_of_ok halways, bind_of_ok halways']
      refine ((readingLaw_loose n).relates_bodyRest ofProc (h ofProc) _).eq ?_
      have hless := hlater.length_le
      rw [hunread, List.length_cons] at hs
      exact Nat.lt_of_le_of_lt hless hs

end Statements

section Blocks

theorem levels_bodyUpTo :
    Levels (fun q ofProc => bodyStep (statementWith (braced q)) q ofProc) bodyUpTo where
  later n m ofProc := (readingLaw_loose n).relates_bodyUpTo m ofProc
  succ _ _ := rfl
  zero q ofProc s hs := by
    unfold bodyStep
    rw [bind_of_ok (peek_of_nil hs)]
    rfl
  step h ofProc _ hs := bodyStep_congr h ofProc hs

theorem steady_bodyUpTo (ofProc : Bool) : Steady fun n => bodyUpTo n ofProc :=
  levels_bodyUpTo.steady ofProc

/-- A block is read statement by statement. -/
theorem body_eq (ofProc : Bool) : body ofProc = bodyStep statement body ofProc :=
  levels_bodyUpTo.bounded_eq ofProc

theorem body_of_nil (ofProc : Bool) {s : State} (h : s.unread = []) :
    body ofProc s = failAtEnd (.kind .rightBrace) s := by
  rw [body_eq]
  unfold bodyStep
  rw [bind_of_ok (peek_of_nil h)]

/-- A brace ends a block. -/
theorem body_of_close (ofProc : Bool) {s : State} {t : Token} {rest : List Token}
    (hunread : s.unread = t :: rest) (hk : t.kind = .rightBrace) :
    body ofProc s = .ok [] (s.consume t rest) := by
  rw [body_eq]
  unfold bodyStep
  rw [bind_of_ok (peek_of_cons hunread)]
  simp only [if_pos hk]
  rw [bind_of_ok (advance_of_cons hunread)]
  rfl

/-- Any other token starts a statement of the block. -/
theorem body_of_cons (ofProc : Bool) {s : State} {t : Token} {rest : List Token}
    (hunread : s.unread = t :: rest) (hk : t.kind ≠ .rightBrace) :
    body ofProc s = bodyRest body ofProc (statement s).1 (statement s).2 := by
  have hbody : body ofProc s = bodyStep statement body ofProc s := congrFun (body_eq ofProc) s
  have hstatement : always statement s = .ok (statement s).1 (statement s).2 := rfl
  rw [hbody]
  unfold bodyStep
  rw [bind_of_ok (peek_of_cons hunread)]
  simp only [if_neg hk]
  rw [bind_of_ok hstatement]

theorem implProc_lt {s u : State} {proc : Proc Expr} (h : implProc block s = .ok proc u) :
    u.unread.length < s.unread.length := by
  obtain ⟨keyword, v, hkeyword, hproc⟩ := bind_eq_ok_iff.mp h
  obtain ⟨_, rest, hunread, rfl⟩ := expect_eq_ok_iff.mp hkeyword
  have hlater := later_of_ok (fun n => (StepLaw.relates_procedure
    (fun o => (readingLaw_loose n).relates_block o) keyword).bind fun np =>
      StepLaw.relates_pure np.2) hproc
  have hless := hlater.length_le
  rw [hunread, List.length_cons]
  exact Nat.lt_succ_of_le hless

theorem later_addProc (n : Nat) (entry : Entry (Impl Expr)) (proc : Proc Expr) :
    (readingLaw n).Relates (addProc entry proc) (addProc entry proc) :=
  fun _ _ => ⟨rfl, .of_same rfl rfl rfl rfl List.prefix_rfl⟩

theorem later_acceptBrace (n : Nat) :
    (readingLaw n).Relates (accept .rightBrace) (accept .rightBrace) := by
  intro s _
  refine ⟨rfl, ?_⟩
  rcases accept_eq (k := .rightBrace) s with ⟨t, rest, hunread, _, haccept⟩ | ⟨_, haccept⟩
  · rw [haccept]
    exact State.Later.consume hunread
  · rw [haccept]
    exact State.Later.refl s

theorem later_implProcs {b : Bool → Parse (List Expr)} {n : Nat}
    (hb : ∀ ofProc, (readingLaw n).Relates (b ofProc) (b ofProc)) (m : Nat)
    (entry : Entry (Impl Expr)) :
    (readingLaw n).Relates (implProcs b entry m) (implProcs b entry m) := by
  induction m with
  | zero => exact StepLaw.relates_failAtEnd _
  | succ m ih =>
    refine (later_acceptBrace n).bind fun closed => ?_
    split
    · exact StepLaw.relates_pure _
    · exact (StepLaw.relates_implProc hb).bind
        fun proc => (later_addProc n entry proc).bind fun _ => ih

theorem levels_implProcs (entry : Entry (Impl Expr)) :
    Levels (fun q (_ : Unit) => do
      if ← accept .rightBrace then
        return ()
      else
        let proc ← implProc block
        addProc entry proc
        q ()) fun n _ => implProcs block entry n where
  later n m _ := later_implProcs (fun o => (readingLaw_loose n).relates_block o) m entry
  succ _ _ := rfl
  zero q _ s hs := by
    have herr : implProc block s = .error ⟨.unexpectedEnd (.kind .procWord), s.endPosition⟩ s :=
      bind_of_error (expect_of_nil hs)
    rw [bind_of_ok (accept_of_nil hs)]
    exact (bind_of_error herr).symm
  step {n q r} h _ s hs := by
    refine bind_congr_of_ok fun closed s' haccept => ?_
    have hs' := (later_of_ok later_acceptBrace haccept).length_le
    cases closed with
    | true => rfl
    | false =>
      refine bind_congr_of_ok fun proc u hproc => ?_
      have hu := implProc_lt hproc
      refine ((later_addProc n entry proc).bind fun _ => h ()).eq ?_
      exact Nat.lt_of_lt_of_le hu (Nat.le_trans hs' hs)

theorem steady_implProcs (entry : Entry (Impl Expr)) : Steady (implProcs block entry) :=
  (levels_implProcs entry).steady ()

/-- An impl block is read procedure by procedure. -/
theorem implProcs_eq (entry : Entry (Impl Expr)) : bounded (implProcs block entry) = (do
    if ← accept .rightBrace then
      return ()
    else
      let proc ← implProc block
      addProc entry proc
      bounded (implProcs block entry)) :=
  (levels_implProcs entry).bounded_eq ()

end Blocks

section Recovering

/-- A statement in front of a token reads that token at least. -/
theorem later_statement_of_cons {s : State} {t : Token} {rest : List Token}
    (hunread : s.unread = t :: rest) : (s.consume t rest).Later (statement s).2 :=
  (statementWith_of_cons (fun o => (readingLaw_loose _).relates_block o) hunread
    (Nat.le_refl _)).2

/-- An induction on the statements that are left: each of them reads a token, so that fewer tokens
are unread behind it. -/
@[elab_as_elim]
theorem statement_induction {motive : State → Prop} (nil : ∀ s, s.unread = [] → motive s)
    (cons : ∀ s t rest, s.unread = t :: rest → motive (statement s).2 → motive s) (s : State) :
    motive s := by
  induction hn : s.unread.length using Nat.strongRecOn generalizing s with
  | ind n ih =>
    cases hunread : s.unread with
    | nil => exact nil s hunread
    | cons t rest =>
      have hless : (statement s).2.unread.length < n := by
        rw [← hn, hunread, List.length_cons]
        exact Nat.lt_succ_of_le (later_statement_of_cons hunread).length_le
      exact cons s t rest hunread (ih _ hless _ rfl)

/-- A problem has been reported, or it is the end of the input and that has been reported. -/
def Reported (p : Problem) (s : State) : Prop :=
  p ∈ s.problems ∨ p.cause.isUnexpectedEnd ∧ s.endReported

theorem reported_report (s : State) (p : Problem) : Reported p (s.report p) := by
  unfold State.report
  split
  · rename_i h
    rw [Bool.and_eq_true] at h
    exact .inr h
  · exact .inl (by simp)

theorem recover_problems (s : State) (depth : Nat) (p : Problem) :
    (s.recover depth p).problems = (s.report p).problems := by
  unfold State.recover
  simp only
  split <;> rfl

/-- An error inside of a statement is reported there, and leaves it with no result. -/
theorem statement_of_error {s u : State} {p : Problem}
    (h : optionalStatement block s = .error p u) :
    (statement s).1 = none ∧ Reported p (statement s).2 := by
  rw [statement_eq_of_error h]
  refine ⟨rfl, ?_⟩
  have hreported := reported_report u p
  unfold Reported State.endReported at hreported ⊢
  rw [recover_problems]
  exact hreported

end Recovering
end Parse

namespace State

theorem statements_of_nil {s : State} (h : s.unread = []) : s.statements = [] := by
  unfold statements
  rw [h]
  rfl

/-- As many statements as there are unread tokens, or more, are all statements that are left. -/
theorem statementsUpTo_eq (n : Nat) (s : State) (hs : s.unread.length ≤ n) :
    s.statementsUpTo n = s.statements := by
  have key : ∀ n m (s : State), s.unread.length ≤ n → n ≤ m →
      s.statementsUpTo n = s.statementsUpTo m := by
    intro n
    induction n with
    | zero =>
      intro m s hs _
      have hnil : s.unread = [] := List.length_eq_zero_iff.mp (Nat.le_zero.mp hs)
      cases m with
      | zero => rfl
      | succ m => simp only [statementsUpTo, hnil]
    | succ n ih =>
      intro m s hs hnm
      obtain ⟨k, rfl⟩ : ∃ k, m = k + 1 := ⟨m - 1, by omega⟩
      cases hunread : s.unread with
      | nil => simp only [statementsUpTo, hunread]
      | cons t rest =>
        have hlater := (Parse.later_statement_of_cons hunread).length_le
        rw [hunread, List.length_cons] at hs
        simp only [statementsUpTo, hunread]
        rw [ih k _ (Nat.le_trans hlater (Nat.le_of_succ_le_succ hs))
          (Nat.le_of_succ_le_succ hnm)]
  exact (key s.unread.length n s (Nat.le_refl _) hs).symm

/-- The statements that are left are the next one and those after it. -/
theorem statements_of_cons {s : State} {t : Token} {rest : List Token} (h : s.unread = t :: rest) :
    s.statements = Parse.statement s :: (Parse.statement s).2.statements := by
  have hlater := (Parse.later_statement_of_cons h).length_le
  rw [← statementsUpTo_eq rest.length (Parse.statement s).2 hlater]
  unfold statements
  rw [h]
  simp only [List.length_cons, statementsUpTo, h]

end State

namespace Session

theorem finish_of_nil {s : Session} (h : s.state.unread = []) : s.finish = s := by
  unfold finish
  rw [State.statements_of_nil h]
  simp

/-- Reading a program reads its next statement and goes on. -/
theorem finish_of_cons {s : Session} {t : Token} {rest : List Token}
    (h : s.state.unread = t :: rest) :
    s.finish = Session.finish ⟨s.program ++ (Parse.statement s.state).1.toList,
      (Parse.statement s.state).2⟩ := by
  have hprogram : (Parse.statement s.state :: (Parse.statement s.state).2.statements).filterMap
      Prod.fst = (Parse.statement s.state).1.toList ++
        (Parse.statement s.state).2.statements.filterMap Prod.fst := by
    rw [List.filterMap_cons]
    cases (Parse.statement s.state).1 <;> rfl
  unfold finish
  rw [State.statements_of_cons h]
  simp only [hprogram, List.getLast?_cons, List.append_assoc]
  cases (Parse.statement s.state).2.statements.getLast? <;> rfl

theorem finish_later (s : Session) : s.state.Later s.finish.state ∧ s.finish.state.unread = [] := by
  obtain ⟨program, s⟩ := s
  induction s using Parse.statement_induction generalizing program with
  | nil s hunread =>
    rw [finish_of_nil hunread]
    exact ⟨.refl _, hunread⟩
  | cons s t rest hunread ih =>
    rw [finish_of_cons hunread]
    obtain ⟨hfinal, hnil⟩ := ih (program ++ (Parse.statement s).1.toList)
    have hlater := Parse.later_statement_of_cons hunread
    exact ⟨((State.Later.consume hunread).trans hlater).trans hfinal, hnil⟩

end Session

section Programs

/-- When a program has been read, no token is left, and those read are the tokens of the text. -/
theorem parseProgram_read (file : String) (source : List Char) :
    (parseProgram file source).state.read.reverse = tokenize file source ∧
      (parseProgram file source).state.unread = [] := by
  obtain ⟨hlater, hnil⟩ := Session.finish_later (.ofSource file source)
  obtain ⟨ts, hts⟩ := hlater.reads
  have hunread := hts.unread
  have hread := hts.read
  rw [show (Session.ofSource file source).finish = parseProgram file source from rfl] at *
  rw [hnil, List.append_nil] at hunread
  refine ⟨?_, hnil⟩
  rw [hread, List.reverse_append, List.reverse_reverse, ← hunread]
  rfl

/--
Reading a program comes to an end with every token read once and in order.  It does so because a
statement in front of a token reads that token at least, however it ends; an error inside of a
statement is reported and goes no further.  As many levels as there are unread tokens suffice for
every reader: more of them change nothing.
-/
theorem parseProgram_reads_all :
    (∀ file source, (parseProgram file source).state.read.reverse = tokenize file source ∧
      (parseProgram file source).state.unread = []) ∧
    (∀ (s : State) t rest, s.unread = t :: rest →
      ∃ ts, s.Reads (t :: ts) (Parse.statement s).2) ∧
    (∀ s p u, Parse.optionalStatement Parse.block s = .error p u →
      (Parse.statement s).1 = none ∧ Parse.Reported p (Parse.statement s).2) ∧
    Parse.Steady Parse.exprUpTo ∧
    (∀ lhs, Parse.Steady fun n => Parse.foldUpTo n lhs) ∧
    Parse.Steady (Parse.commaSeparated Parse.expr) ∧
    Parse.Steady Parse.typedNames ∧
    Parse.Steady Parse.structFields ∧
    (∀ entry, Parse.Steady (Parse.implProcs Parse.block entry)) ∧
    (∀ ofProc, Parse.Steady fun n => Parse.bodyUpTo n ofProc) ∧
    (∀ (s : State) n, s.unread.length ≤ n → s.statementsUpTo n = s.statements) := by
  refine ⟨parseProgram_read, ?_, ?_, Parse.steady_exprUpTo, Parse.steady_foldUpTo,
    Parse.steady_commaSeparated, Parse.steady_typedNames, Parse.steady_structFields,
    Parse.steady_implProcs, Parse.steady_bodyUpTo, ?_⟩
  · intro s t rest hunread
    obtain ⟨ts, hts⟩ := (Parse.later_statement_of_cons hunread).reads
    exact ⟨ts, (State.Reads.consume hunread).trans hts⟩
  · intro s p u h
    exact Parse.statement_of_error h
  · intro s n hs
    exact State.statementsUpTo_eq n s hs

/-- A statement that fails has read its first token and reports why. -/
theorem parseProgram_reads_all_failed :
    ∃ (s u : State) (p : Problem), Parse.optionalStatement Parse.block s = .error p u ∧
      (Parse.statement s).1 = none ∧ Parse.Reported p (Parse.statement s).2 ∧
      ∃ t ts, s.Reads (t :: ts) (Parse.statement s).2 := by
  let s : State := {
    unread := [⟨.letWord, "let", ⟨"p", 0, 0⟩, .none⟩, ⟨.assign, "=", ⟨"p", 0, 4⟩, .none⟩]
    finish := ⟨"p", 0, 5⟩ }
  have hfails : Parse.optionalStatement Parse.block s = .error _ _ := rfl
  obtain ⟨_, hconsumes, hreported, _⟩ := parseProgram_reads_all
  obtain ⟨hnone, hproblem⟩ := hreported _ _ _ hfails
  obtain ⟨ts, hts⟩ := hconsumes s _ _ rfl
  exact ⟨_, _, _, hfails, hnone, hproblem, _, ts, hts⟩

end Programs
end ScriptFront
