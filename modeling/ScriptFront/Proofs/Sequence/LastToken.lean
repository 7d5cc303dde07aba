import ScriptFront.Proofs.Reading.Braces
import ScriptFront.Proofs.Rules.States

/-!
# What a statement ends with

No statement ends with a semicolon: the semicolon behind it is a statement of its own.  So when the
last token of a text is a semicolon, no statement looks at what is behind the text.

**Results.**

* `lastRules`: the rules of the last token that has been read.
* `unread_ne_nil_of_ok`: a statement in front of a semicolon leaves it.
-/

namespace ScriptFront

/--
The counter of open braces is right, and what has been read behind the tokens `before` does not end
with a semicolon.
-/
def State.PlainEnd (before : List Token) (s : State) : Prop :=
  s.braceDepth = s.read.reverse.foldl depthAfter 0 ∧ s.closedBlocks = 0 ∧
    (s.read = before ∨ ∃ t ts, s.read = t :: ts ∧ t.kind ≠ .semicolon)

/-- Reading goes past no semicolon. -/
def lastRules (before : List Token) : StateRules where
  holds s := s.PlainEnd before
  failed _ _ := True
  read := by
    rintro s t rest ⟨hdepth, hclosed, _⟩ hunread hk
    exact ⟨(State.Reads.consume hunread).depth_eq hdepth, hclosed, .inr ⟨t, s.read, rfl, hk⟩⟩
  fail _ _ := trivial
  failAtEnd _ _ _ := trivial
  stop _ _ _ _ := trivial
  assigned _ _ _ hu := hu
  report _ hs := by
    unfold State.report
    split
    · exact hs
    · exact hs
  declare _ hs := hs
  addProc _ _ hs := hs
  complete hs := hs
  openScope _ hs := hs
  close _ hs := hs
  failed_close _ _ := trivial

open Parse

/-- A block ends with its closing brace. -/
theorem after_block_lastRules {before : List Token} {n : Nat} {s : State} (ofProc : Bool)
    (hs : (lastRules before).statementRules.Fits n s) :
    (lastRules before).statementRules.After n
      (fun es => ∀ e ∈ es, (lastRules before).statementRules.statement e) (block ofProc s) := by
  cases hr : block ofProc s with
  | error p u => trivial
  | ok es u =>
    obtain ⟨hdepth, hclosed, _⟩ := hs.holds
    obtain ⟨opening, inner, closing, hreads, _, hk, _, hzero⟩ := block_reads ⟨hdepth, hclosed⟩ hr
    have hlength : u.unread.length ≤ s.unread.length := by
      rw [hreads.unread, List.length_append]
      exact Nat.le_add_left _ _
    have hread : u.read = closing :: ((opening :: inner).reverse ++ s.read) := by
      rw [hreads.read, List.reverse_append]
      rfl
    have hplain : closing.kind ≠ .semicolon := by
      rw [hk]
      decide
    exact ⟨fun _ _ => trivial, ⟨hreads.depth_eq hdepth, hzero, .inr ⟨closing, _, hread, hplain⟩⟩,
      Nat.le_trans hlength hs.length_le⟩

/-- A statement that succeeds and is no semicolon itself leaves the semicolon behind it. -/
theorem unread_ne_nil_of_ok {s u : State} {t semi : Token} {rest : List Token} {r : Option Expr}
    (hs : s.Settled) (hunread : s.unread = t :: rest) (hk : t.kind ≠ .semicolon)
    (hlast : s.unread.getLast? = some semi) (hsemi : semi.kind = .semicolon)
    (h : optionalStatement block s = .ok r u) : u.unread ≠ [] := by
  have hlater := (later_of_ok (fun n => StepLaw.relates_optionalStatement
    fun ofProc => (readingLaw_loose n).relates_block ofProc) h).reads
  have hafter := StatementRules.after_statementFrom
    (fun ofProc _ hs => after_block_lastRules ofProc hs)
    (I := (lastRules s.read).statementRules) ⟨hs.depth, hs.closed, .inl rfl⟩ hunread
    (Nat.le_refl _) hk
  rw [optionalStatement_of_cons block hunread, if_neg hk] at h
  obtain ⟨e, v, he, h⟩ := bind_eq_ok_iff.mp h
  injection h with _ hvu
  subst hvu
  rw [he] at hafter
  obtain ⟨_, ⟨_, _, hend⟩, _⟩ := hafter
  intro hnil
  -- All tokens have been read, and the semicolon was the last of them.
  obtain ⟨us, hus⟩ := hlater
  have hread := hus.read
  have hall : s.unread = us := by rw [hus.unread, hnil, List.append_nil]
  rw [← hall] at hread
  rcases hend with hsame | ⟨last, ts, hcons, hplain⟩
  · rw [hsame, hunread] at hread
    have hlength := congrArg List.length hread
    rw [List.length_append, List.length_reverse, List.length_cons] at hlength
    omega
  · have hhead := congrArg List.head? (hcons.symm.trans hread)
    rw [List.head?_append, List.head?_reverse, hlast] at hhead
    injection hhead with hsame
    exact hplain (hsame ▸ hsemi)

end ScriptFront
