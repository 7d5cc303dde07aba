import ScriptFront.Proofs.Rules.States
import ScriptFront.Proofs.Values.Course
import ScriptFront.Proofs.Values.Sound

/-!
# What a failed statement leaves in the tables

A statement without a block that fails has declared nothing.  What has been assigned to fields
before the failure stays: nothing is taken back.

**Results.**

* `course_of_statement_error`: up to its failure such a statement takes a course.
* `failed_statement_changes`: behind it the tables are those at the failure, and these differ from
  those in front of it by the assignments that were completed.
* `failed_statement_assigns`: it may have assigned a field, and then the tables are not the same.
-/

namespace ScriptFront

open Parse

section Errors

variable {s u : State} {p : Problem}

theorem course_of_optionalType (s : State) :
    (∀ written u, optionalType s = .ok written u → ∃ ds, Course s ds u) ∧
      ∀ p u, optionalType s = .error p u → ∃ ds, Course s ds u := by
  have hafter := ExprRules.after_optionalType (courseRules_fits s)
  refine ⟨fun written u h => ?_, fun p u h => ?_⟩
  · rw [h] at hafter
    exact hafter.2.holds.2
  · rw [h] at hafter
    exact hafter

theorem course_of_expr_error (hawaits : s.Awaits) (h : expr s = .error p u) :
    ∃ ds, Course s ds u := by
  have hafter := ExprRules.after_expr (courseRules_fits s) hawaits
  rw [h] at hafter
  exact hafter

/-- A new variable is declared at the end, when nothing can fail any more. -/
theorem course_of_letStatement_error {keyword : Token}
    (h : letStatement keyword s = .error p u) : ∃ ds, Course s ds u := by
  rcases bind_eq_error_iff.mp h with h | ⟨name, _, hname, h⟩
  · obtain ⟨rfl, _⟩ := expect_error h
    exact ⟨[], .refl u⟩
  obtain ⟨_, rest, hunread, rfl⟩ := expect_eq_ok_iff.mp hname
  rcases bind_eq_error_iff.mp h with h | ⟨written, s₁, hwritten, h⟩
  · obtain ⟨ds, hds⟩ := (course_of_optionalType _).2 _ _ h
    exact ⟨_, (Course.token hunread).trans hds⟩
  obtain ⟨ds, hds⟩ := (course_of_optionalType _).1 _ _ hwritten
  have htype := (Course.token hunread).trans hds
  rcases bind_eq_error_iff.mp h with h | ⟨eq, _, heq, h⟩
  · obtain ⟨rfl, _⟩ := expect_error h
    exact ⟨_, htype⟩
  obtain ⟨hk, rest', hunread', rfl⟩ := expect_eq_ok_iff.mp heq
  have hassign := htype.trans (.token hunread')
  rcases bind_eq_error_iff.mp h with h | ⟨value, s₂, hvalue, h⟩
  · obtain ⟨es, hes⟩ := course_of_expr_error (State.awaits_consume (by rw [hk]; rfl)) h
    exact ⟨_, hassign.trans hes⟩
  · rcases bind_eq_error_iff.mp h with h | ⟨_, s₃, _, h⟩
    · unfold checkWrittenType at h
      split at h
      · cases h
      · split at h <;> cases h
    · cases h

theorem course_of_returnStatement_error {keyword : Token} (hawaits : s.Awaits)
    (h : returnStatement keyword s = .error p u) : ∃ ds, Course s ds u := by
  unfold returnStatement at h
  cases hunread : s.unread with
  | nil =>
    rw [bind_of_ok (peek_of_nil hunread)] at h
    cases h
  | cons t rest =>
    rw [bind_of_ok (peek_of_cons hunread)] at h
    simp only at h
    split at h
    · cases h
    · rcases bind_eq_error_iff.mp h with h | ⟨value, v, _, h⟩
      · exact course_of_expr_error hawaits h
      · cases h

/-- Up to its failure a statement without a block takes a course. -/
theorem course_of_statement_error {t : Token} {rest : List Token}
    (hunread : s.unread = t :: rest)
    (hk : t.kind = .letWord ∨ t.kind = .returnWord ∨ t.kind.startsValue)
    (h : optionalStatement block s = .error p u) : ∃ ds, Course s ds u := by
  have hsemicolon : t.kind ≠ .semicolon := by
    rcases hk with hk | hk | hk
    · rw [hk]; decide
    · rw [hk]; decide
    · intro hs
      rw [hs] at hk
      cases hk
  rw [optionalStatement_of_cons block hunread, if_neg hsemicolon] at h
  have htoken := Course.token hunread
  rcases bind_eq_error_iff.mp h with h | ⟨e, v, _, h⟩
  · rcases hk with hk | hk | hk
    · rw [statementFrom, hk] at h
      obtain ⟨ds, hds⟩ := course_of_letStatement_error h
      exact ⟨_, htoken.trans hds⟩
    · rw [statementFrom, hk] at h
      obtain ⟨ds, hds⟩ := course_of_returnStatement_error
        (State.awaits_consume (by rw [hk]; rfl)) h
      exact ⟨_, htoken.trans hds⟩
    · have hfrom : statementFrom block t = exprFrom t := by
        unfold statementFrom
        cases hkind : t.kind <;> rw [hkind] at hk <;> first | rfl | cases hk
      rw [hfrom] at h
      have hafter := ExprRules.after_exprFrom (n := rest.length) (courseRules_fits s).holds hunread
        (Nat.le_refl _) hk
      rw [h] at hafter
      exact hafter
  · cases h

end Errors

/--
A statement without a block that fails leaves every table with the entries that it had, in the same
order, under the same names and types.  The values of variables are those before the statement as
well, but for the fields to which assignments were completed before the failure; if there were none,
the tables are the same.

Nothing is taken back.  The tables are those at the failure, so the variables are those before the
statement after the completed assignments, one after the other: each binds its variable to the
instance that this had when the target was read, with the one field bound anew, so that it may
overwrite what its value has assigned.
-/
theorem failed_statement_changes {s u : State} {t : Token} {rest : List Token} {p : Problem}
    (hs : Reached s) (hunread : s.unread = t :: rest)
    (hk : t.kind = .letWord ∨ t.kind = .returnWord ∨ t.kind.startsValue)
    (h : optionalStatement block s = .error p u) :
    (statement s).2.tables = u.tables ∧
    ∃ ds, Course s ds u ∧ Changes ds s (statement s).2 ∧
      (∃ as : List Assignment, as.map Assignment.target = ds ∧
        (∀ a ∈ as, a.owner.decl.value.instance? = some a.read) ∧
        (statement s).2.tables.vars = as.foldl Assignment.apply s.tables.vars) ∧
      (ds = [] → (statement s).2.tables = s.tables) := by
  obtain ⟨ds, hds⟩ := course_of_statement_error hunread hk h
  have hrecover : (statement s).2 = u.recover s.braceDepth p := by
    unfold statement statementWith
    rw [h]
  obtain ⟨htables, hid⟩ := u.tables_recover p s.braceDepth
  rw [← hrecover] at htables hid
  have hafter : Changes ds s (statement s).2 := (hds.changes hs.sound.numbered).of_same htables hid
  refine ⟨htables, ds, hds, hafter, ?_, ?_⟩
  · rw [htables]
    exact hds.exists_assigned
  · rintro rfl
    exact hafter.tables_eq_of_nil

/-- Where the value stands that a field of a variable has. -/
def State.valuePos? (s : State) (name field : String) : Option Position := do
  let e ← s.tables.vars.lookup? name
  let v ← e.decl.value.instance?
  let b ← v.field? field
  return b.value.pos

/-- An argument assigns a field, and then the call around it is not closed. -/
theorem exists_failing_call : ∃ (s u : State) (t : Token) (rest : List Token) (p : Problem),
    Reached s ∧ s.unread = t :: rest ∧ t.kind.startsValue ∧ optionalStatement block s = .error p u ∧
      (statement s).2.valuePos? "p" "a" ≠ s.valuePos? "p" "a" := by
  let s₀ := State.ofSource "p"
    "struct P { a: i32 } let p = P { a: 1 } proc f(x: i32) { } f(p.a = 2;".toList
  let s₁ := (statement s₀).2
  let s₂ := (statement s₁).2
  let s₃ := (statement s₂).2
  have hs₁ : Reached s₁ := .statement (.start _ _) (by decide +kernel)
  have hs₂ : Reached s₂ := .statement hs₁ (by decide +kernel)
  have hs₃ : Reached s₃ := .statement hs₂ (by decide +kernel)
  have hkind : s₃.unread.head?.map Token.kind = some .identifier := by decide +kernel
  obtain ⟨p, u, hr⟩ := exists_error (p := optionalStatement block) (s := s₃) (by decide +kernel)
  have hpos : (statement s₃).2.valuePos? "p" "a" ≠ s₃.valuePos? "p" "a" := by decide +kernel
  obtain ⟨t, ht, hk⟩ := Option.map_eq_some_iff.mp hkind
  obtain ⟨rest, hunread⟩ := List.head?_eq_some_iff.mp ht
  exact ⟨s₃, u, t, rest, p, hs₃, hunread, by rw [hk]; rfl, hr, hpos⟩

/-- The tables need not be those before a statement that fails. -/
theorem failed_statement_assigns :
    ¬ ∀ (s u : State) (t : Token) (rest : List Token) (p : Problem), Reached s →
      s.unread = t :: rest →
      (t.kind = .letWord ∨ t.kind = .returnWord ∨ t.kind.startsValue) →
      optionalStatement block s = .error p u → (statement s).2.tables = s.tables := by
  intro h
  obtain ⟨s, u, t, rest, p, hs, hunread, hk, hr, hpos⟩ := exists_failing_call
  refine hpos ?_
  unfold State.valuePos?
  rw [h s u t rest p hs hunread (.inr (.inr hk)) hr]

/-- The field that the argument has assigned is the one that differs after the failure. -/
theorem failed_statement_changes_call :
    ∃ (s u : State) (ds : List (Nat × String)), Reached s ∧
      (statement s).2.tables = u.tables ∧ ds ≠ [] ∧ Course s ds u ∧
      Changes ds s (statement s).2 := by
  obtain ⟨s, u, t, rest, p, hs, hunread, hk, hr, hpos⟩ := exists_failing_call
  obtain ⟨htables, ds, hcourse, hchanges, -, hnil⟩ :=
    failed_statement_changes hs hunread (.inr (.inr hk)) hr
  refine ⟨s, u, ds, hs, htables, fun hds => hpos ?_, hcourse, hchanges⟩
  unfold State.valuePos?
  rw [hnil hds]

end ScriptFront
