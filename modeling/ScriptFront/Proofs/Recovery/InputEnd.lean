import ScriptFront.Proofs.Reading.Braces
import ScriptFront.Proofs.Rules.States

/-!
# The end of the input is reported once and last

An input that ends inside of a construct lets that construct fail.  The failure is reported where it
is met, in the innermost statement; every block around that statement then fails in its turn, since
it waits for its closing brace.  No token is left for anything else to be found wrong, so that the
report stays the only one of its kind and the last one of all.

**Results.**

* `endRules`: how steps fail before the end of the input and at it.
* `State.FailsWith.ended`: what is reported at the end of the input.
* `after_block_end`, `ends_statement_end`: blocks and statements.
* `input_end_reported_last`: whole programs.
-/

namespace ScriptFront
namespace State

/-- The braces are counted right, and no end of the input has been reported. -/
structure Going (s : State) : Prop where
  settled : s.Settled
  unreported : s.endReported = false

/-- The input has ended, which is the last problem reported and the only one of its kind. -/
structure Ended (s : State) : Prop where
  unread : s.unread = []
  last : ∃ before p, s.problems = before ++ [p] ∧ p.cause.isUnexpectedEnd ∧
    p.pos = s.endPosition ∧ ∀ q ∈ before, q.cause.isUnexpectedEnd = false

/-- A step has failed before the end of the input, or at it.  In the latter case a statement inside
of the step may have failed there as well. -/
inductive FailsWith (p : Problem) (s : State) : Prop
  | early : p.cause.isUnexpectedEnd = false → s.endReported = false → FailsWith p s
  | late : p.cause.isUnexpectedEnd → s.unread = [] → p.pos = s.endPosition →
      s.endReported = false ∨ s.Ended → FailsWith p s

theorem endReported_eq_false_iff {s : State} :
    s.endReported = false ↔ ∀ p ∈ s.problems, p.cause.isUnexpectedEnd = false := by
  simp [endReported]

/-- What is written down in the tables changes neither the braces nor the problems. -/
theorem Going.of_same {s t : State} (h : s.Going) (hread : t.read = s.read)
    (hdepth : t.braceDepth = s.braceDepth) (hclosed : t.closedBlocks = s.closedBlocks)
    (hproblems : t.problems = s.problems) : t.Going where
  settled := ⟨by rw [hdepth, hread, h.settled.depth], hclosed.trans h.settled.closed⟩
  unreported := by
    unfold endReported
    rw [hproblems]
    exact h.unreported

theorem Going.consume {s : State} {t : Token} {rest : List Token} (h : s.Going)
    (hunread : s.unread = t :: rest) : (s.consume t rest).Going :=
  ⟨braceLaw.good_consume h.settled hunread, h.unreported⟩

theorem Going.consumeAll {s : State} {ts rest : List Token} (h : s.Going)
    (hunread : s.unread = ts ++ rest) : (s.consumeAll ts rest).Going :=
  ⟨(Later.consumeAll hunread).settled h.settled h.settled.closed, h.unreported⟩

theorem Ended.endReported {s : State} (h : s.Ended) : s.endReported = true := by
  obtain ⟨before, p, hproblems, hp, _⟩ := h.last
  simp [State.endReported, hproblems, hp]

section Reporting

variable {s : State} {p : Problem}

theorem endReported_report (hp : p.cause.isUnexpectedEnd = false) :
    (s.report p).endReported = s.endReported := by
  simp [report, endReported, hp]

theorem endReported_recover (depth : Nat) (hp : p.cause.isUnexpectedEnd = false) :
    (s.recover depth p).endReported = s.endReported := by
  have hproblems := Parse.recover_problems s depth p
  have hreport := endReported_report (s := s) hp
  unfold endReported at hreport ⊢
  rw [hproblems, hreport]

theorem Going.report (hs : s.Going) (hp : p.cause.isUnexpectedEnd = false) :
    (s.report p).Going where
  settled := (Even.report s p).settled hs.settled
  unreported := (endReported_report hp).trans hs.unreported

theorem skipToBoundary_of_nil (depth : Nat) (h : s.unread = []) : s.skipToBoundary depth = s := by
  cases s
  cases h
  rfl

/-- At the end of the input nothing is skipped after a problem. -/
theorem recover_of_nil {depth : Nat} (hnil : s.unread = []) (hle : depth ≤ s.braceDepth) :
    s.recover depth p = s.report p := by
  have hunread : (s.report p).unread = [] := (unread_report s p).trans hnil
  have hdepth : (s.report p).braceDepth = s.braceDepth := (Even.report s p).braceDepth
  unfold recover
  simp only
  rw [if_neg (by omega), skipToBoundary_of_nil _ hunread]

/-- The end of the input is reported unless it has been. -/
theorem FailsWith.ended (h : s.FailsWith p) (hp : p.cause.isUnexpectedEnd) :
    (s.report p).Ended := by
  cases h with
  | early hother _ => simp [hother] at hp
  | late _ hnil hpos hreported =>
    rcases hreported with hfirst | hended
    · have hreport : s.report p = { s with problems := s.problems ++ [p] } := by
        simp [State.report, hfirst]
      rw [hreport]
      exact ⟨hnil, s.problems, p, rfl, hp, hpos, endReported_eq_false_iff.mp hfirst⟩
    · have hreport : s.report p = s := by simp [State.report, hp, hended.endReported]
      rw [hreport]
      exact hended

theorem FailsWith.closeScope (h : s.FailsWith p) (entries : List (Entry (Binding Expr))) :
    (s.closeScope entries).FailsWith p := by
  cases h with
  | early hp hunreported => exact .early hp hunreported
  | late hp hnil hpos hreported =>
    exact .late hp hnil hpos (hreported.imp_right fun h => ⟨h.unread, h.last⟩)

end Reporting
end State

/-- Steps that succeed report no end of the input, and those that fail at it leave no token. -/
def endRules : StateRules where
  holds := State.Going
  failed p s := s.FailsWith p
  read hs hunread _ := hs.consume hunread
  fail hp hs := .early hp hs.unreported
  failAtEnd _ hs hnil := .late rfl hnil rfl (.inl hs.unreported)
  stop _ hs _ _ := .early rfl hs.unreported
  assigned _ _ _ hu := hu.of_same rfl rfl rfl rfl
  report hp hs := hs.report hp
  declare _ hs := hs.of_same rfl rfl rfl rfl
  addProc _ _ hs := hs.of_same rfl rfl rfl rfl
  complete hs := hs.of_same rfl rfl rfl rfl
  openScope _ hs := hs.of_same rfl rfl rfl rfl
  close _ hs := hs.of_same rfl rfl rfl rfl
  failed_close entries h := h.closeScope entries

namespace Parse

open ExprRules StatementRules

variable {n : Nat} {s : State}

/--
A statement goes through without a word of the end of the input, or the input has ended in it; then
it gives nothing and leaves no block.
-/
theorem ends_statement_end {t : Token} {rest : List Token}
    (hb : ∀ ofProc u, endRules.statementRules.Fits n u →
      endRules.statementRules.After n Nothing (block ofProc u))
    (hs : s.Going) (hunread : s.unread = t :: rest) (hlength : rest.length ≤ n) :
    (statement s).2.endReported = false ∨
      (statement s).1 = none ∧ (statement s).2.Ended ∧ (statement s).2.closedBlocks = 0 := by
  by_cases hk : t.kind = .semicolon
  · rw [statement_of_semicolon hunread hk]
    exact .inl hs.unreported
  · have hafter := after_statementFrom
      (fun ofProc u hu => (hb ofProc u hu).mono fun _ _ _ _ => trivial) hs hunread hlength hk
    cases hr : statementFrom block t (s.consume t rest) with
    | ok e u =>
      rw [hr] at hafter
      rw [statement_of_ok hunread hk hr]
      exact .inl hafter.2.holds.unreported
    | error p u =>
      rw [hr] at hafter
      have herror := optionalStatement_of_error hunread hk hr
      rw [statement_eq_of_error herror]
      have hfailed : u.FailsWith p := hafter
      cases hafter with
      | early hp hunreported =>
        exact .inl ((State.endReported_recover s.braceDepth hp).trans hunreported)
      | late hp hnil _ _ =>
        -- The closing brace of the block around the statement is not among the tokens read.
        have habove : s.StaysAbove u :=
          ((StepLaw.relates_optionalStatement relates_block).error hs.settled herror).2.2 hp
        have hclosed := habove.closedBlocks.trans hs.settled.closed
        rw [State.recover_of_nil hnil habove.braceDepth_le]
        exact .inr ⟨rfl, hfailed.ended hp, (State.Even.report u p).closedBlocks.trans hclosed⟩

/-- Behind a statement in which the input has ended, the block around it ends with it. -/
theorem bodyRest_of_nil (ofProc : Bool) (hnil : s.unread = []) (hzero : s.closedBlocks = 0) :
    bodyRest body ofProc none s = failAtEnd (.kind .rightBrace) s := by
  have hbare : (ofProc && isBareReturn none) = false := Bool.and_false ofProc
  rw [bodyRest_of_zero body ofProc none hzero, hbare]
  exact bind_of_error (body_of_nil ofProc hnil)

/-- What follows a statement in a block, whichever way the statement ends. -/
theorem after_bodyRest_end (ofProc : Bool) {e : Option Expr}
    (hdepth : s.braceDepth = s.read.reverse.foldl depthAfter 0) (hone : s.closedBlocks ≤ 1)
    (hlength : s.unread.length ≤ n)
    (hend : s.endReported = false ∨ e = none ∧ s.Ended ∧ s.closedBlocks = 0)
    (hbody : endRules.statementRules.Fits n s →
      endRules.statementRules.After n Nothing (body ofProc s)) :
    endRules.statementRules.After n Nothing (bodyRest body ofProc e s) := by
  -- The statement leaves its block open, has read its brace, or has come to the end of the input.
  rcases hend with hunreported | ⟨rfl, hended, hzero⟩
  · rcases Nat.le_one_iff_eq_zero_or_eq_one.mp hone with hzero | hone
    · have hs : endRules.statementRules.Fits n s := ⟨⟨⟨hdepth, hzero⟩, hunreported⟩, hlength⟩
      rw [bodyRest_of_zero body ofProc e hzero]
      split
      · exact (after_skipToClose hs fun _ _ => hs.holds.consumeAll).bind
          fun _ u _ _ hu => .pure hu trivial
      · exact (hbody hs).bind fun es u _ _ hu => .pure hu trivial
    · rw [bodyRest_of_one body ofProc e hone]
      exact ⟨trivial, ⟨⟨hdepth, rfl⟩, hunreported⟩, hlength⟩
  · rw [bodyRest_of_nil ofProc hended.unread hzero]
    exact State.FailsWith.late rfl hended.unread rfl (.inr hended)

/-- A block is read to its closing brace, or fails before the end of the input or at it. -/
theorem after_block_end (ofProc : Bool) (s : State) (hs : endRules.statementRules.Fits n s) :
    endRules.statementRules.After n Nothing (block ofProc s) := by
  refine after_braces (after_statements trivial fun ofProc hs hunread hlength ih => ?_) ofProc s hs
  obtain ⟨ts, hts⟩ := (later_statement _).reads
  exact after_bodyRest_end ofProc (hts.depth_eq hs.settled.depth)
    (ends_statement hs.settled).closedBlocks_le
    (Nat.le_trans (later_statement_of_cons hunread).length_le hlength)
    (ends_statement_end (after_braces ih) hs hunread hlength) (ih ofProc _)

end Parse

section Programs

/--
Reading the statements that are left does not come to report the end of the input, or it is reported
in the last of them, which gives nothing.
-/
theorem statements_end {s : State} (hs : s.Going) (hzero : s.unread ≠ [] → s.braceDepth = 0) :
    (∀ step ∈ s.statements, step.2.endReported = false) ∨
      ∃ before final, s.statements = before ++ [(none, final)] ∧
        (∀ step ∈ before, step.2.endReported = false) ∧ final.Ended := by
  induction s using Parse.statement_induction with
  | nil s hnil =>
    rw [State.statements_of_nil hnil]
    exact .inl (List.forall_mem_nil _)
  | cons s t rest hunread ih =>
    have hnext := settled_statement hs.settled (hzero (by rw [hunread]; exact List.cons_ne_nil _ _))
    have hend := Parse.ends_statement_end Parse.after_block_end hs hunread (Nat.le_refl _)
    rw [State.statements_of_cons hunread]
    rcases hend with hunreported | ⟨hnone, hended, _⟩
    · rcases ih ⟨hnext.1, hunreported⟩ hnext.2 with
        hothers | ⟨before, final, hothers, hfree, hfinal⟩
      · exact .inl (List.forall_mem_cons.mpr ⟨hunreported, hothers⟩)
      · refine .inr ⟨Parse.statement s :: before, final, ?_, ?_, hfinal⟩
        · rw [hothers, List.cons_append]
        · exact List.forall_mem_cons.mpr ⟨hunreported, hfree⟩
    · refine .inr ⟨[], (Parse.statement s).2, ?_, List.forall_mem_nil _, hended⟩
      rw [State.statements_of_nil hended.unread, ← hnone]
      rfl

/-- Only the end of the input has its code. -/
theorem Cause.code_eq_end_iff (c : Cause) : c.code = "P010" ↔ c.isUnexpectedEnd := by
  cases c <;> simp [Cause.code, Cause.isUnexpectedEnd]

theorem Problem.code_ne_end {p : Problem} (h : p.cause.isUnexpectedEnd = false) :
    p.diagnostic.code ≠ some "P010" := by
  intro hcode
  have hend := (Cause.code_eq_end_iff p.cause).mp (Option.some.inj hcode)
  exact Bool.eq_false_iff.mp h hend

namespace State

variable {s : State}

theorem code_ne_of_not_endReported (h : s.endReported = false) :
    ∀ d ∈ s.diagnostics, d.code ≠ some "P010" := by
  refine List.forall_mem_map.mpr fun p hp => ?_
  exact Problem.code_ne_end (endReported_eq_false_iff.mp h p hp)

/-- The diagnostics of an input that has ended too early. -/
theorem Ended.diagnostics (h : s.Ended) : ∃ earlier d, s.diagnostics = earlier ++ [d] ∧
    d.code = some "P010" ∧ d.pos = s.endPosition ∧ ∀ q ∈ earlier, q.code ≠ some "P010" := by
  obtain ⟨before, p, hproblems, hp, hpos, hbefore⟩ := h.last
  refine ⟨before.map Problem.diagnostic, p.diagnostic, ?_, ?_, hpos, ?_⟩
  · rw [State.diagnostics, hproblems, List.map_append]
    rfl
  · exact congrArg some ((Cause.code_eq_end_iff p.cause).mpr hp)
  · exact List.forall_mem_map.mpr fun q hq => Problem.code_ne_end (hbefore q hq)

end State

/-- A program is the results of its statements, and ends in the state behind the last of them. -/
theorem Session.finish_of_statements {s : Session} {before : List (Option Expr × State)}
    {e : Option Expr} {final : State} (h : s.state.statements = before ++ [(e, final)]) :
    s.finish = ⟨s.program ++ (before.filterMap Prod.fst ++ e.toList), final⟩ := by
  unfold finish
  cases e <;> simp [h]

/-- A program ends behind one of its statements, if it has any. -/
theorem Session.finish_state (s : Session) : s.finish.state = s.state ∨
    ∃ step ∈ s.state.statements, s.finish.state = step.2 := by
  have hstate : s.finish.state = (s.state.statements.getLast?.map Prod.snd).getD s.state := rfl
  rw [hstate]
  cases hlast : s.state.statements.getLast? with
  | none => exact .inl rfl
  | some step => exact .inr ⟨step, List.mem_of_getLast? hlast, rfl⟩

/-- A program that has tokens ends at the last of them. -/
theorem parseProgram_endPosition {file : String} {source : List Char}
    (h : tokenize file source ≠ []) : (tokenize file source).getLast?.map Token.pos =
      some (parseProgram file source).state.endPosition := by
  have hread := (parseProgram_read file source).1
  rw [← hread] at h ⊢
  obtain ⟨t, read, hlast⟩ := List.exists_cons_of_ne_nil (List.reverse_ne_nil_iff.mp h)
  simp [State.endPosition, hlast]

/-- Where only the last of some things has a property, it has it once. -/
theorem countP_concat_le_one {α : Type} {p : α → Prop} [DecidablePred p] {xs : List α} (x : α)
    (h : ∀ y ∈ xs, ¬ p y) : (xs ++ [x]).countP p ≤ 1 ∧ ∀ y ∈ xs ++ [x], p y → y = x := by
  constructor
  · rw [List.countP_append, List.countP_eq_zero.mpr fun y hy => by simpa using h y hy,
      Nat.zero_add]
    exact List.countP_le_length
  · intro y hy hp
    rcases List.mem_append.mp hy with hy | hy
    · exact absurd hp (h y hy)
    · exact List.mem_singleton.mp hy

/--
The end of the input is reported at most once.  If it is, it is the last diagnostic and stands at
the last token of the text.  It is then the last statement of the program in which the input has
ended; nothing comes of that statement, and the program consists of the statements read before it,
none of which came to report the end.
-/
theorem input_end_reported_last (file : String) (source : List Char) :
    ((parseProgram file source).diagnostics.countP fun d => d.code = some "P010") ≤ 1 ∧
    ∀ d ∈ (parseProgram file source).diagnostics, d.code = some "P010" →
      (parseProgram file source).diagnostics.getLast? = some d ∧
      (tokenize file source).getLast?.map Token.pos = some d.pos ∧
      ∃ before final, (State.ofSource file source).statements = before ++ [(none, final)] ∧
        (∀ step ∈ before, ∀ d ∈ step.2.diagnostics, d.code ≠ some "P010") ∧
        parseProgram file source = ⟨before.filterMap Prod.fst, final⟩ := by
  have hstart : (State.ofSource file source).Going := ⟨⟨rfl, rfl⟩, rfl⟩
  rcases statements_end hstart fun _ => rfl with hfree | ⟨before, final, hsteps, hfree, hended⟩
  · have hunreported : (parseProgram file source).state.endReported = false := by
      rcases Session.finish_state (.ofSource file source) with hstate | ⟨step, hstep, hstate⟩
      · exact hstate ▸ hstart.unreported
      · exact hstate ▸ hfree step hstep
    have hnone := State.code_ne_of_not_endReported hunreported
    refine ⟨?_, fun d hd hcode => absurd hcode (hnone d hd)⟩
    have hzero : (parseProgram file source).diagnostics.countP (·.code = some "P010") = 0 :=
      List.countP_eq_zero.mpr fun d hd => by simpa using hnone d hd
    exact hzero ▸ Nat.zero_le 1
  · have hprogram : parseProgram file source = ⟨before.filterMap Prod.fst, final⟩ := by
      refine (Session.finish_of_statements (s := .ofSource file source) hsteps).trans ?_
      rw [Option.toList_none, List.append_nil]
      rfl
    have htokens : tokenize file source ≠ [] := by
      intro hnil
      rw [State.statements_of_nil hnil] at hsteps
      exact absurd hsteps.symm (List.append_ne_nil_of_right_ne_nil _ (List.cons_ne_nil _ _))
    have hlast := parseProgram_endPosition htokens
    obtain ⟨earlier, d, hdiagnostics, _, hpos, hearlier⟩ := hended.diagnostics
    have hall : (parseProgram file source).diagnostics = earlier ++ [d] := by
      rw [hprogram]
      exact hdiagnostics
    obtain ⟨honce, honly⟩ := countP_concat_le_one d hearlier
    rw [hall]
    refine ⟨honce, fun d' hd' hcode' => ?_⟩
    obtain rfl := honly d' hd' hcode'
    refine ⟨List.getLast?_concat, ?_, before, final, hsteps, ?_, hprogram⟩
    · rw [hlast, hprogram, hpos]
    · exact fun step hstep => State.code_ne_of_not_endReported (hfree step hstep)

/-- A loop that is not closed, in a procedure that is not closed, behind another error. -/
theorem input_end_reported_last_nested :
    let source := "let a = 1; a = zzz; proc f() \x7b while a < 2 \x7b let b = ".toList
    let r := parseProgram "p" source
    ∃ d ∈ r.diagnostics, d.code = some "P010" ∧ r.diagnostics.getLast? = some d ∧
      (tokenize "p" source).getLast?.map Token.pos = some d.pos ∧
      r.diagnostics.length = 2 ∧ r.program.length = 1 := by
  intro source r
  obtain ⟨d, hd, hcode⟩ : ∃ d ∈ r.diagnostics, d.code = some "P010" := by decide +kernel
  obtain ⟨hlast, hpos, _⟩ := (input_end_reported_last "p" source).2 d hd hcode
  exact ⟨d, hd, hcode, hlast, hpos, by decide +kernel, by decide +kernel⟩

end Programs
end ScriptFront
