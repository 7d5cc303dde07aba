import ScriptFront.Proofs.Reading.Balance
import ScriptFront.Proofs.Rules.States

/-!
# Where recovery stops after a failed statement

A statement of plain tokens ends at its semicolon, which none of its rules reads.  If the statement
fails in front of the semicolon, recovery skips to it and stops behind it.  But what stands in the
place of a value is read before it is refused, and if this is the semicolon itself, recovery starts
behind it and skips what follows, too.

**Results.**

* `splitAtBoundary_of_plain`: plain tokens are skipped up to their semicolon.
* `semicolonRules`: only a place for a value uses up the semicolon of a statement.
* `recovery_stops_at_semicolon`: where recovery stops after a failed statement.
-/

namespace ScriptFront

open Parse

/-- Neither a brace nor a semicolon. -/
def Token.Plain (t : Token) : Prop :=
  t.kind.isBrace = false ∧ t.kind ≠ .semicolon

section Skipping

variable {ts : List Token}

theorem balanced_of_plain (h : ∀ t ∈ ts, t.Plain) : Balanced ts := by
  induction ts with
  | nil => exact .nil
  | cons t ts ih =>
    obtain ⟨ht, hts⟩ := List.forall_mem_cons.mp h
    obtain ⟨hopen, hclose⟩ := TokenKind.ne_of_isBrace ht.1
    exact (Balanced.plain hopen hclose).append (ih hts)

/-- Plain tokens without a keyword that starts a statement are skipped with their semicolon. -/
theorem splitAtBoundary_of_plain {semi : Token} {rest : List Token}
    (h : ∀ t ∈ ts, t.Plain ∧ t.kind.startsStatement = false) (hsemi : semi.kind = .semicolon) :
    splitAtBoundary 0 (ts ++ semi :: rest) = (ts ++ [semi], rest) := by
  induction ts with
  | nil => simp [splitAtBoundary, hsemi, TokenKind.startsStatement]
  | cons t ts ih =>
    obtain ⟨⟨hplain, hword⟩, hts⟩ := List.forall_mem_cons.mp h
    obtain ⟨hopen, hclose⟩ := TokenKind.ne_of_isBrace hplain.1
    have hsemicolon := hplain.2
    rw [List.cons_append, splitAtBoundary, if_neg (by simp [hword])]
    split
    · contradiction
    · contradiction
    · contradiction
    · simp only [ih hts, List.cons_append]

/-- Recovery from the depth of the statement skips to the next boundary. -/
theorem State.unread_recover (s : State) (p : Problem) :
    (s.recover s.braceDepth p).unread = (splitAtBoundary 0 s.unread).2 := by
  have hreport : (s.report p).braceDepth = s.braceDepth := by
    unfold report
    split <;> rfl
  unfold recover skipToBoundary
  simp only [hreport, Nat.lt_irrefl, if_false, Nat.sub_self, State.unread_report]
  rfl

end Skipping

section Rules

variable {semi : Token} {rest : List Token}

/-- The semicolon is unread, and there is no block in front of it. -/
def State.InFrontOf (s : State) (semi : Token) (rest : List Token) : Prop :=
  ∃ ts, (∀ t ∈ ts, t.kind ≠ .leftBrace) ∧ s.unread = ts ++ semi :: rest

/-- The semicolon has been read in the place of a value, and is refused. -/
def State.Refuses (s : State) (semi : Token) (rest : List Token) (p : Problem) : Prop :=
  s.unread = rest ∧ (∃ context, p = ⟨.invalidExpression context semi.lexeme, semi.pos⟩) ∧
    ∃ t read, s.read = semi :: t :: read ∧ t.kind.awaitsValue

/-- Only a place for a value uses up the semicolon of a statement. -/
def semicolonRules (hsemi : semi.kind = .semicolon) (rest : List Token) : StateRules where
  holds s := s.InFrontOf semi rest
  failed p s := s.InFrontOf semi rest ∨ s.Refuses semi rest p
  read := by
    rintro s t others ⟨ts, hts, hunread⟩ hnext hk
    cases ts with
    | nil =>
      obtain ⟨rfl, _⟩ := List.cons.inj (hnext.symm.trans hunread)
      exact absurd hsemi hk
    | cons t' ts =>
      obtain ⟨_, rfl⟩ := List.cons.inj (hnext.symm.trans hunread)
      exact ⟨ts, (List.forall_mem_cons.mp hts).2, rfl⟩
  fail _ := .inl
  failAtEnd _ hs _ := .inl hs
  stop := by
    rintro s t others context ⟨ts, hts, hunread⟩ ⟨last, hlast, hawaits⟩ hnext
    cases ts with
    | nil =>
      obtain ⟨rfl, rfl⟩ := List.cons.inj (hnext.symm.trans hunread)
      obtain ⟨read, hread⟩ := List.head?_eq_some_iff.mp hlast
      exact .inr ⟨rfl, ⟨context, rfl⟩, last, read, congrArg (t :: ·) hread, hawaits⟩
    | cons t' ts =>
      obtain ⟨_, rfl⟩ := List.cons.inj (hnext.symm.trans hunread)
      exact .inl ⟨ts, (List.forall_mem_cons.mp hts).2, rfl⟩
  assigned _ _ _ hu := hu
  report _ := by
    rintro ⟨ts, hts, hunread⟩
    exact ⟨ts, hts, (State.unread_report _ _).trans hunread⟩
  declare _ hs := hs
  addProc _ _ hs := hs
  complete hs := hs
  openScope _ hs := hs
  close _ hs := hs
  failed_close _ hs := hs

/-- A block cannot start in front of the semicolon. -/
theorem after_block_of_inFrontOf (hsemi : semi.kind = .semicolon) {n : Nat} {s : State}
    {V : List Expr → Prop} (ofProc : Bool)
    (hs : (semicolonRules hsemi rest).statementRules.Fits n s) :
    (semicolonRules hsemi rest).statementRules.After n V (block ofProc s) := by
  refine .expect hs (by decide) fun t others hnext hk _ => ?_
  obtain ⟨ts, hts, hunread⟩ := hs.holds
  cases ts with
  | nil =>
    obtain ⟨rfl, _⟩ := List.cons.inj (hnext.symm.trans hunread)
    rw [hsemi] at hk
    cases hk
  | cons t' ts =>
    obtain ⟨rfl, _⟩ := List.cons.inj (hnext.symm.trans hunread)
    exact absurd hk (hts t List.mem_cons_self)

/-- A failed statement has read plain tokens only, or the semicolon in the place of a value. -/
theorem reads_of_error {s u : State} {first : Token} {ts : List Token} {p : Problem}
    (hunread : s.unread = first :: (ts ++ semi :: rest)) (hsemi : semi.kind = .semicolon)
    (hplain : ∀ t ∈ first :: ts, t.Plain) (h : optionalStatement block s = .error p u) :
    (∃ us vs, ts = us ++ vs ∧ s.Reads (first :: us) u ∧ u.unread = vs ++ semi :: rest) ∨
      s.Reads (first :: (ts ++ [semi])) u ∧ u.Refuses semi rest p := by
  have hk : first.kind ≠ .semicolon := (hplain first List.mem_cons_self).2
  rw [optionalStatement_of_cons block hunread, if_neg hk] at h
  have herror : statementFrom block first (s.consume first (ts ++ semi :: rest)) = .error p u := by
    rcases bind_eq_error_iff.mp h with h | ⟨_, _, _, h⟩
    · exact h
    · cases h
  have hlater : (s.consume first (ts ++ semi :: rest)).Later u := by
    have hloose := readingLaw_loose ((ts ++ semi :: rest).length + 1)
    have hrelates := StepLaw.relates_statementFrom hloose.relates_block first
    have hafter := hrelates.after
      (Nat.lt_succ_self (s.consume first (ts ++ semi :: rest)).unread.length)
    rw [herror] at hafter
    exact hafter.2
  obtain ⟨us, hus⟩ := hlater.reads
  have hreads : s.Reads (first :: us) u := (State.Reads.consume hunread).trans hus
  have hsplit : ts ++ semi :: rest = us ++ u.unread := hus.unread
  have hstart : s.InFrontOf semi rest :=
    ⟨first :: ts, fun t ht => (TokenKind.ne_of_isBrace (hplain t ht).1).1, hunread⟩
  have hafter := StatementRules.after_statementFrom
    (fun ofProc _ hs => after_block_of_inFrontOf hsemi ofProc hs)
    (I := (semicolonRules hsemi rest).statementRules) hstart hunread (Nat.le_refl _) hk
  rw [herror] at hafter
  rcases hafter with ⟨vs, _, hvs⟩ | hrefuses
  · refine .inl ⟨us, vs, ?_, hreads, hvs⟩
    rw [hvs, ← List.append_assoc] at hsplit
    exact List.append_cancel_right hsplit
  · refine .inr ⟨?_, hrefuses⟩
    rw [hrefuses.1, List.append_cons] at hsplit
    rw [List.append_cancel_right hsplit]
    exact hreads

end Rules

/--
If a statement fails whose tokens, up to its semicolon, are plain and only the first of which may
be a keyword that starts a statement, nothing comes of it, and recovery stops behind the semicolon.
Or the semicolon is refused because it stands in the place of a value, and then recovery goes on to
the next boundary behind it.
-/
theorem recovery_stops_at_semicolon {s u : State} {ts rest : List Token} {semi : Token}
    {p : Problem} (hunread : s.unread = ts ++ semi :: rest) (hsemi : semi.kind = .semicolon)
    (hplain : ∀ t ∈ ts, t.Plain) (hwords : ∀ t ∈ ts.tail, t.kind.startsStatement = false)
    (h : optionalStatement block s = .error p u) :
    (statement s).1 = none ∧
      ((statement s).2.unread = rest ∨
        (∃ context, p = ⟨.invalidExpression context semi.lexeme, semi.pos⟩) ∧
          (∃ last, ts.getLast? = some last ∧ last.kind.awaitsValue) ∧
          (statement s).2.unread = (splitAtBoundary 0 rest).2) := by
  have hresult : statement s = (none, u.recover s.braceDepth p) := by
    unfold statement statementWith
    rw [h]
  rw [hresult]
  refine ⟨rfl, ?_⟩
  cases ts with
  | nil =>
    rw [optionalStatement_of_cons block hunread, if_pos hsemi] at h
    cases h
  | cons first ts =>
    obtain ⟨hfirst, hts⟩ := List.forall_mem_cons.mp hplain
    have hunchanged {us : List Token} (hreads : s.Reads us u) (hus : Balanced us) :
        (u.recover s.braceDepth p).unread = (splitAtBoundary 0 u.unread).2 := by
      have hdepth : u.braceDepth = s.braceDepth := by rw [hreads.depth, hus.foldl_depthAfter]
      rw [← hdepth]
      exact u.unread_recover p
    rcases reads_of_error hunread hsemi hplain h with
      ⟨us, vs, rfl, hreads, hvs⟩ | ⟨hreads, hrest, hcause, last, read, hread, hawaits⟩
    · left
      obtain ⟨hus, hvs'⟩ := List.forall_mem_append.mp hts
      have hskipped : ∀ t ∈ vs, t.Plain ∧ t.kind.startsStatement = false := fun t ht =>
        ⟨hvs' t ht, hwords t (List.mem_append_right us ht)⟩
      rw [hunchanged hreads (balanced_of_plain (List.forall_mem_cons.mpr ⟨hfirst, hus⟩)), hvs,
        splitAtBoundary_of_plain hskipped hsemi]
    · right
      refine ⟨hcause, ⟨last, ?_, hawaits⟩, ?_⟩
      · rw [hreads.read, ← List.cons_append, List.reverse_append] at hread
        have hbefore : (first :: ts).reverse ++ s.read = last :: read := (List.cons.inj hread).2
        rw [← List.head?_reverse, ← List.head?_append_of_ne_nil _ (by simp), hbefore]
        rfl
      · have hbalanced : Balanced (first :: (ts ++ [semi])) :=
          (balanced_of_plain hplain).append
            (.plain (by rw [hsemi]; decide) (by rw [hsemi]; decide))
        rw [hunchanged hreads hbalanced, hrest]

/-- A declaration without a name is left behind its semicolon. -/
theorem recovery_stops_at_semicolon_let :
    ∃ (s : State) (rest : List Token), s = .ofSource "p" "let = 1; x = 2;".toList ∧
      rest.map Token.lexeme = ["x", "=", "2", ";"] ∧ (statement s).1 = none ∧
      (statement s).2.unread = rest := by
  let s := State.ofSource "p" "let = 1; x = 2;".toList
  let ts : List Token := [⟨.letWord, "let", ⟨"p", 0, 0⟩, .none⟩, ⟨.assign, "=", ⟨"p", 0, 4⟩, .none⟩,
    ⟨.literal, "1", ⟨"p", 0, 6⟩, .number⟩]
  let semi : Token := ⟨.semicolon, ";", ⟨"p", 0, 7⟩, .none⟩
  let rest : List Token := [⟨.identifier, "x", ⟨"p", 0, 9⟩, .none⟩,
    ⟨.assign, "=", ⟨"p", 0, 11⟩, .none⟩, ⟨.literal, "2", ⟨"p", 0, 13⟩, .number⟩,
    ⟨.semicolon, ";", ⟨"p", 0, 14⟩, .none⟩]
  have hunread : s.unread = ts ++ semi :: rest := by decide +kernel
  obtain ⟨p, u, hfails⟩ := exists_error (p := optionalStatement block) (s := s) (by decide +kernel)
  have hplain : ∀ t ∈ ts, t.kind.isBrace = false ∧ t.kind ≠ .semicolon := by decide
  obtain ⟨hnone, hrest⟩ := recovery_stops_at_semicolon hunread rfl hplain (by decide) hfails
  refine ⟨s, rest, rfl, rfl, hnone, hrest.resolve_right ?_⟩
  rintro ⟨_, ⟨last, hlast, hawaits⟩, _⟩
  obtain rfl := Option.some.inj hlast
  cases hawaits

end ScriptFront
