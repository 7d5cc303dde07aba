import ScriptFront.Proofs.Surface.SoundExpressions

/-!
# Programs are read from their text

When no problem but advice is reported, every statement has been read from a text that stands for
it, and the text of a program is that of its statements one after the other.

**Results.**

* `statementFrom_denotes`, `block_denotes`: statements and blocks.
* `parseProgram_denotes`: the tokens of a source text spell the program.
-/

namespace ScriptFront

open Surface

namespace State

/-- Nothing but advice has been reported. -/
def Advisory (s : State) : Prop :=
  ∀ p ∈ s.problems, p.cause.stage = .advisory

theorem Advisory.of_prefix {s t : State} (h : t.Advisory) (hst : s.problems <+: t.problems) :
    s.Advisory :=
  fun p hp => h p (hst.subset hp)

theorem report_same (s : State) (p : Problem) :
    (s.report p).unread = s.unread ∧ (s.report p).tables = s.tables := by
  unfold State.report
  split
  · exact ⟨rfl, rfl⟩
  · exact ⟨rfl, rfl⟩

namespace Regular

theorem report {s : State} (h : s.Regular) (p : Problem) : (s.report p).Regular := by
  refine h.of_even (.report s p) (Extends.report h.numbered p).numbered ?_
  unfold State.report
  split
  · exact h.faithful
  · exact h.faithful

theorem declare {s : State} (h : s.Regular) (symbol : Symbol) (hid : symbol.id = s.nextId)
    (hvalue : ∀ e, symbol = .variable e → e.decl.value.Faithful) :
    Regular { s with nextId := s.nextId + 1, tables := s.tables.declare symbol } :=
  h.of_even (.of_same rfl rfl rfl rfl) (Extends.declare h.numbered symbol hid).numbered
    (h.faithful.declare symbol hvalue)

theorem addProc {s : State} (h : s.Regular) (e : Entry (Impl Expr)) (p : Proc Expr) :
    (s.addProc e p).Regular :=
  h.of_even (.of_same rfl rfl rfl rfl) (h.numbered.addProc e p) h.faithful

theorem complete {s : State} (h : s.Regular) :
    Regular { s with completed := s.completed + 1 } :=
  h.of_even (.of_same rfl rfl rfl rfl) (Extends.complete h.numbered).numbered h.faithful

theorem openScope {s : State} (h : s.Regular) {bindings : List (Binding Expr)}
    (hbindings : ∀ b ∈ bindings, b.value.Faithful) : (s.openScope bindings).Regular :=
  h.of_even (.openScope s bindings) (Extends.openScope h.numbered bindings).numbered
    (faithful_openScope h.faithful hbindings)

theorem closeScope {s t : State} {bindings : List (Binding Expr)} (ht : t.Regular)
    (hs : s.Numbered) (hst : (s.openScope bindings).Extends t) :
    (t.closeScope (s.entriesFor bindings)).Regular :=
  ht.of_even (.closeScope t _) (Extends.scope hs hst).numbered
    (faithful_closeScope ht.faithful _)

end Regular
end State

namespace Parse

section Simple

variable {s u : State}

theorem typedName_spells {x : TypedName} (hs : s.Regular) (h : typedName s = .ok x u) :
    s.Spells (spellTyped x) u := by
  obtain ⟨name, v, hname, h⟩ := bind_eq_ok_iff.mp h
  obtain ⟨_, v', hcolon, h⟩ := bind_eq_ok_iff.mp h
  obtain ⟨typeName, v'', htype, h⟩ := bind_eq_ok_iff.mp h
  obtain ⟨hword, _⟩ := expect_spells_name hs hname
  obtain ⟨hmark, _⟩ := expect_spells hword.regular hcolon rfl
  obtain ⟨hword', _⟩ := expect_spells_name hmark.regular htype
  injection h with hx hu
  rw [← hx, ← hu]
  exact (hword.trans hmark).trans hword'

theorem optionalType_spells {written : Option String} (hs : s.Regular)
    (h : optionalType s = .ok written u) : s.Spells (spellType written) u := by
  rcases accept_bind_spells hs h rfl with ⟨v, hmark, _, h⟩ | h
  · obtain ⟨typeName, v', htype, h⟩ := bind_eq_ok_iff.mp h
    obtain ⟨hword, _⟩ := expect_spells_name hmark.regular htype
    injection h with hwritten hu
    rw [← hwritten, ← hu]
    exact hmark.trans hword
  · injection h with hwritten hu
    rw [← hwritten, ← hu]
    exact .refl hs

theorem map_ne_nil {α β : Type} {f : α → β} {xs : List α} (h : xs ≠ []) : xs.map f ≠ [] :=
  fun hnil => h (List.map_eq_nil_iff.mp hnil)

theorem typedNames_spells (n : Nat) {xs : List TypedName} (hs : s.Regular)
    (h : typedNames n s = .ok xs u) :
    xs ≠ [] ∧ s.Spells (joined (xs.map spellTyped) false) u := by
  induction n generalizing s xs with
  | zero =>
    obtain ⟨x, v, hx, h⟩ := bind_eq_ok_iff.mp h
    have hspells := typedName_spells hs hx
    injection h with hxs hu
    rw [← hxs, ← hu]
    exact ⟨List.cons_ne_nil _ _, hspells⟩
  | succ n ih =>
    obtain ⟨x, v, hx, h⟩ := bind_eq_ok_iff.mp h
    have hspells := typedName_spells hs hx
    rcases accept_bind_spells hspells.regular h rfl with
      ⟨v', hmark, _, h⟩ | h
    · obtain ⟨others, v'', hothers, h⟩ := bind_eq_ok_iff.mp h
      injection h with hxs hu
      rw [hu] at hothers
      obtain ⟨hne, hrest⟩ := ih hmark.regular hothers
      rw [← hxs, List.map_cons, joined_cons (.inl (map_ne_nil hne))]
      exact ⟨List.cons_ne_nil _ _, hspells.trans (hmark.trans hrest)⟩
    · injection h with hxs hu
      rw [← hxs, ← hu]
      exact ⟨List.cons_ne_nil _ _, hspells⟩

theorem parameters_spells {xs : List TypedName} (hs : s.Regular)
    (h : parameters s = .ok xs u) : s.Spells (joined (xs.map spellTyped) false) u := by
  unfold parameters at h
  rw [check_bind] at h
  split at h
  · injection h with hxs hu
    rw [← hxs, ← hu]
    exact .refl hs
  · exact (typedNames_spells _ hs h).2

theorem structFields_spells (n : Nat) {xs : List TypedName} (hs : s.Regular)
    (h : structFields n s = .ok xs u) :
    ∃ comma, s.Spells (joined (xs.map spellTyped) comma) u := by
  induction n generalizing s xs with
  | zero =>
    obtain ⟨x, v, hx, h⟩ := bind_eq_ok_iff.mp h
    have hspells := typedName_spells hs hx
    injection h with hxs hu
    rw [← hxs, ← hu]
    exact ⟨false, hspells⟩
  | succ n ih =>
    rw [structFields, check_bind] at h
    split at h
    · injection h with hxs hu
      rw [← hxs, ← hu]
      exact ⟨false, .refl hs⟩
    · obtain ⟨x, v, hx, h⟩ := bind_eq_ok_iff.mp h
      have hspells := typedName_spells hs hx
      rcases accept_bind_spells hspells.regular h rfl with
        ⟨v', hmark, _, h⟩ | h
      · obtain ⟨others, v'', hothers, h⟩ := bind_eq_ok_iff.mp h
        injection h with hxs hu
        rw [hu] at hothers
        obtain ⟨comma, hrest⟩ := ih hmark.regular hothers
        rw [← hxs]
        cases others with
        | nil => exact ⟨true, hspells.trans (hmark.trans hrest)⟩
        | cons y ys =>
          refine ⟨comma, ?_⟩
          rw [List.map_cons, joined_cons (.inl (map_ne_nil (List.cons_ne_nil _ _)))]
          exact hspells.trans (hmark.trans hrest)
      · injection h with hxs hu
        rw [← hxs, ← hu]
        exact ⟨false, hspells⟩

theorem checkWrittenType_state {written : Option String} {value : Expr} (hs : s.Regular)
    (h : checkWrittenType written value s = .ok () u) :
    u.Regular ∧ u.unread = s.unread := by
  unfold checkWrittenType at h
  split at h
  · injection h with _ hu
    rw [← hu]
    exact ⟨hs, rfl⟩
  · split at h
    · injection h with _ hu
      rw [← hu]
      exact ⟨hs, rfl⟩
    · injection h with _ hu
      rw [← hu]
      exact ⟨hs.report _, (State.report_same s _).1⟩

/-- After the terminals `first` the rest of a statement has been read, which stands for `e`. -/
def CompletesStatement (first : List Terminal) (e : Expr) (s t : State) : Prop :=
  ∃ (x : Statement) (w : List Terminal), x.Denotes e ∧ x.spell = first ++ w ∧ s.Spells w t

theorem letStatement_denotes {keyword : Token} {e : Expr} (hs : s.Regular)
    (h : letStatement keyword s = .ok e u) : CompletesStatement [.mark .letWord] e s u := by
  obtain ⟨name, v₁, hname, h⟩ := bind_eq_ok_iff.mp h
  obtain ⟨written, v₂, hwritten, h⟩ := bind_eq_ok_iff.mp h
  obtain ⟨_, v₃, hassign, h⟩ := bind_eq_ok_iff.mp h
  obtain ⟨value, v₄, hvalue, h⟩ := bind_eq_ok_iff.mp h
  obtain ⟨_, v₅, hcheck, h⟩ := bind_eq_ok_iff.mp h
  obtain ⟨hword, _⟩ := expect_spells_name hs hname
  have htype := optionalType_spells hword.regular hwritten
  obtain ⟨hmark, _⟩ := expect_spells htype.regular hassign rfl
  obtain ⟨x, hx, hspells, hfaithful⟩ := expr_denotes hmark.regular hvalue
  obtain ⟨hv₅, hunread⟩ := checkWrittenType_state hspells.regular hcheck
  injection h with he hu
  have hregular := hv₅.declare (.variable ⟨v₅.nextId, ⟨name.lexeme,
    written.getD value.valueType, value.boundValue⟩⟩) rfl
    (by rintro _ ⟨⟩; exact hfaithful.boundValue)
  rw [← he, ← hu]
  refine ⟨_, _, .letStatement hx, rfl, ?_⟩
  exact (hword.trans htype).trans (hmark.trans (hspells.then_stay hregular hunread))

theorem returnStatement_denotes {keyword : Token} {e : Expr} (hs : s.Regular)
    (h : returnStatement keyword s = .ok e u) :
    CompletesStatement [.mark .returnWord] e s u := by
  unfold returnStatement at h
  rw [peek_bind] at h
  cases hunread : s.unread with
  | nil =>
    simp only [hunread] at h
    injection h with he hu
    rw [← he, ← hu]
    exact ⟨_, [], .bareReturn, rfl, .refl hs⟩
  | cons t rest =>
    simp only [hunread, List.head?_cons] at h
    split at h
    · injection h with he hu
      rw [← he, ← hu]
      exact ⟨_, [], .bareReturn, rfl, .refl hs⟩
    · obtain ⟨value, v, hvalue, h⟩ := bind_eq_ok_iff.mp h
      obtain ⟨x, hx, hspells, _⟩ := expr_denotes hs hvalue
      injection h with he hu
      rw [← he, ← hu]
      exact ⟨_, _, .returnStatement hx, rfl, hspells⟩

theorem exprStatement_denotes {t : Token} {e : Expr} (hs : s.Regular) (ht : t.terminal.Lexed)
    (h : exprFrom t s = .ok e u) : CompletesStatement [t.terminal] e s u := by
  obtain ⟨x, w, hx, hspell, hspells⟩ := exprFrom_denotes hs ht h
  exact ⟨.phrase x, w, .phrase hx, hspell, hspells⟩

theorem condition_denotes {e : Expr} (hs : s.Regular) (h : condition s = .ok e u) :
    ∃ x : Phrase, x.Denotes e ∧ s.Spells x.spell u := by
  obtain ⟨value, v, hvalue, h⟩ := bind_eq_ok_iff.mp h
  obtain ⟨x, hx, hspells, _⟩ := expr_denotes hs hvalue
  split at h
  · cases h
  · injection h with he hu
    rw [← he, ← hu]
    exact ⟨x, hx, hspells⟩

theorem warnIfShadowed_state {shadowed : Bool} {sort : String} {name : Token} (hs : s.Regular)
    (h : warnIfShadowed shadowed sort name s = .ok () u) :
    u.Regular ∧ u.unread = s.unread ∧ u.tables = s.tables := by
  unfold warnIfShadowed at h
  split at h
  · injection h with _ hu
    rw [← hu]
    exact ⟨hs.report _, State.report_same s _⟩
  · injection h with _ hu
    rw [← hu]
    exact ⟨hs, rfl, rfl⟩

/-- A new entry that is declared at once. -/
theorem declareNew_bind {α γ : Type} {decl : γ} {symbol : Entry γ → Symbol}
    {f : Entry γ → Bool → Parse α} :
    (do let e ← newEntry decl; let shadowed ← declare (symbol e); f e shadowed) s =
      f ⟨s.nextId, decl⟩ (s.tables.shadows (symbol ⟨s.nextId, decl⟩))
        { s with
          nextId := s.nextId + 1
          tables := s.tables.declare (symbol ⟨s.nextId, decl⟩) } :=
  rfl

theorem structStatement_denotes {keyword : Token} {e : Expr} (hs : s.Regular)
    (h : structStatement keyword s = .ok e u) :
    CompletesStatement [.mark .structWord] e s u := by
  obtain ⟨name, v₁, hname, h⟩ := bind_eq_ok_iff.mp h
  obtain ⟨_, v₂, hopen, h⟩ := bind_eq_ok_iff.mp h
  obtain ⟨fields, v₃, hfields, h⟩ := bind_eq_ok_iff.mp h
  obtain ⟨_, v₄, hclose, h⟩ := bind_eq_ok_iff.mp h
  obtain ⟨hword, _⟩ := expect_spells_name hs hname
  obtain ⟨hleft, _⟩ := expect_spells hword.regular hopen rfl
  obtain ⟨comma, hspells⟩ := structFields_spells _ hleft.regular hfields
  obtain ⟨hright, _⟩ := expect_spells hspells.regular hclose rfl
  have hdeclared := hright.regular.declare
    (.struct ⟨v₄.nextId, ⟨name.lexeme, fields⟩⟩) rfl nofun
  rw [declareNew_bind] at h
  obtain ⟨_, v₅, hwarn, h⟩ := bind_eq_ok_iff.mp h
  obtain ⟨hv₅, hunread, _⟩ := warnIfShadowed_state hdeclared hwarn
  injection h with he hu
  rw [← he, ← hu]
  have hdenotes := @Statement.Denotes.structDef keyword.pos ⟨name.lexeme, fields⟩ comma
  refine ⟨_, _, hdenotes, rfl, ?_⟩
  exact ((hword.trans hleft).trans hspells).trans (hright.then_stay hv₅ hunread)

end Simple

/-- What may stand between the last statement of a block and its closing brace. -/
def Skips (ofProc : Bool) (items : Items) (skipped : List Terminal) : Prop :=
  skipped = [] ∨ ofProc = true ∧ endsBare items ∧
    ∃ ts : List Token, Balanced ts ∧ skipped = ts.map Token.terminal

/-- Statements have been read up to the end of their block. -/
def ClosesItems (ofProc : Bool) (es : List Expr) (s t : State) : Prop :=
  ∃ items skipped, ItemsDenote items es ∧ Skips ofProc items skipped ∧
    s.Spells (spellItems items ++ skipped ++ [.mark .rightBrace]) t

/-- A reader of blocks that reads statements and their braces, if nothing is reported but advice. -/
structure ReadsBlock (b : Bool → Parse (List Expr)) : Prop where
  denotes {ofProc : Bool} {s u : State} {es : List Expr} : s.Regular → u.Advisory →
    b ofProc s = .ok es u → ∃ v, s.Spells [.mark .leftBrace] v ∧ ClosesItems ofProc es v u
  declares (ofProc : Bool) : declarationLaw.Relates (b ofProc) (b ofProc)
  later (n : Nat) (ofProc : Bool) : (readingLaw n).Relates (b ofProc) (b ofProc)

section Compounds

variable {b : Bool → Parse (List Expr)} (hb : ReadsBlock b) {s u : State}

/-- While some variables are declared, what is read is read as without them. -/
theorem withVariables_spells {α : Type} {bindings : List (Binding Expr)}
    {f : List (Entry (Binding Expr)) → Parse α} {a : α} (hs : s.Regular)
    (hbindings : ∀ b ∈ bindings, b.value.Faithful)
    (hd : ∀ entries, declarationLaw.Relates (f entries) (f entries))
    (h : withVariables bindings f s = .ok a u) :
    ∃ t, f (s.entriesFor bindings) (s.openScope bindings) = .ok a t ∧
      (s.openScope bindings).Regular ∧ t.problems = u.problems ∧
      ∀ w, (s.openScope bindings).Spells w t → s.Spells w u := by
  have hopen := hs.openScope hbindings
  unfold withVariables at h
  simp only at h
  cases hf : f (s.entriesFor bindings) (s.openScope bindings) with
  | error p t =>
    rw [hf] at h
    cases h
  | ok a' t =>
    rw [hf] at h
    injection h with ha hu
    have hextends := (hd _).ok trivial hf hopen.numbered
    rw [← ha, ← hu]
    refine ⟨t, rfl, hopen, rfl, fun w hw => ?_⟩
    exact ⟨hw.regular.closeScope hs.numbered hextends, hw.terminals⟩

include hb

/-- A block that is not the body of a procedure is read up to its end. -/
theorem plainBlock_denotes {es : List Expr} (hs : s.Regular)
    (hu : u.Advisory) (h : b false s = .ok es u) :
    ∃ items, ItemsDenote items es ∧
      s.Spells (.mark .leftBrace :: spellItems items ++ [.mark .rightBrace]) u := by
  obtain ⟨v, hleft, items, skipped, hitems, hskips, hspells⟩ := hb.denotes hs hu h
  rcases hskips with rfl | ⟨hfalse, _⟩
  · rw [List.append_nil] at hspells
    exact ⟨items, hitems, hleft.trans hspells⟩
  · cases hfalse

/-- A condition and the block that it guards. -/
theorem guarded_denotes {F : Expr → List Expr → Expr} {e : Expr} (hs : s.Regular)
    (hu : u.Advisory)
    (h : (do let test ← condition; return F test (← b false)) s = .ok e u) :
    ∃ (x : Phrase) (items : Items) (test : Expr) (body : List Expr), x.Denotes test ∧
      ItemsDenote items body ∧ e = F test body ∧
      s.Spells (x.spell ++ .mark .leftBrace :: spellItems items ++ [.mark .rightBrace]) u := by
  obtain ⟨test, v, htest, h⟩ := bind_eq_ok_iff.mp h
  obtain ⟨body, v', hbody, h⟩ := bind_eq_ok_iff.mp h
  injection h with he hu'
  rw [← hu'] at hu ⊢
  obtain ⟨x, hx, hspells⟩ := condition_denotes hs htest
  obtain ⟨items, hitems, hbraces⟩ := plainBlock_denotes hb hspells.regular hu hbody
  refine ⟨x, items, test, body, hx, hitems, he.symm, ?_⟩
  rw [List.append_assoc]
  exact hspells.trans hbraces

theorem procedure_denotes {keyword : Token}
    {r : Token × Proc Expr} (hs : s.Regular) (hu : u.Advisory)
    (h : procedure b keyword s = .ok r u) :
    ∃ p, ProcDenotes p r.2 ∧ s.Spells (spellProc p) u := by
  obtain ⟨name, v₁, hname, h⟩ := bind_eq_ok_iff.mp h
  obtain ⟨_, v₂, hopen, h⟩ := bind_eq_ok_iff.mp h
  obtain ⟨params, v₃, hparams, h⟩ := bind_eq_ok_iff.mp h
  obtain ⟨_, v₄, hclose, h⟩ := bind_eq_ok_iff.mp h
  obtain ⟨returnType, v₅, htype, h⟩ := bind_eq_ok_iff.mp h
  obtain ⟨hword, _⟩ := expect_spells_name hs hname
  obtain ⟨hleft, _⟩ := expect_spells hword.regular hopen rfl
  have hparams := parameters_spells hleft.regular hparams
  obtain ⟨hright, _⟩ := expect_spells hparams.regular hclose rfl
  have htype := optionalType_spells hright.regular htype
  rw [tables_bind] at h
  obtain ⟨body, v₆, hbody, h⟩ := bind_eq_ok_iff.mp h
  have hfaithful : ∀ binding ∈ params.map (·.defaultBinding v₅.tables.structs name.pos),
      binding.value.Faithful := by
    intro binding hbinding
    obtain ⟨param, _, rfl⟩ := List.mem_map.mp hbinding
    exact faithful_defaultValue _ _ _ _
  obtain ⟨t, hblock, hscope, hproblems, hclosed⟩ :=
    withVariables_spells htype.regular hfaithful (fun _ => hb.declares true) hbody
  injection h with hr hu'
  have hadvisory : t.Advisory := by
    rw [← hu'] at hu
    unfold State.Advisory
    rw [hproblems]
    exact hu
  obtain ⟨w, hbrace, items, skipped, hitems, hskips, hspells⟩ := hb.denotes hscope hadvisory hblock
  have hinside := hclosed _ (hbrace.trans hspells)
  have hall := (((hword.trans hleft).trans hparams).trans (hright.trans htype)).trans
    (hinside.then_stay hinside.regular.complete rfl)
  rw [← hr, ← hu']
  refine ⟨⟨name.lexeme, params, returnType, items, skipped⟩, @ProcDenotes.mk
    ⟨_, keyword.pos, name.lexeme, returnType, params, body⟩ items skipped hitems
    (hskips.imp_right And.right), ?_⟩
  rw [spellProc]
  simpa only [List.append_assoc, List.cons_append, List.nil_append,
    List.singleton_append] using hall

theorem procStatement_denotes {keyword : Token} {e : Expr} (hs : s.Regular) (hu : u.Advisory)
    (h : procStatement b keyword s = .ok e u) :
    CompletesStatement [.mark .procWord] e s u := by
  obtain ⟨⟨name, proc⟩, v, hproc, h⟩ := bind_eq_ok_iff.mp h
  simp only at h
  have hlater := later_of_ok (fun n => StepLaw.relates_declareNew (L := readingLaw n) proc
    Symbol.procedure (fun _ => rfl) fun _ shadowed =>
      (StepLaw.relates_warnIfShadowed shadowed "procedure" name).bind fun _ =>
        StepLaw.relates_pure (Expr.procDef proc)) h
  obtain ⟨p, hp, hspells⟩ := procedure_denotes hb hs (hu.of_prefix hlater.problems) hproc
  rw [declareNew_bind] at h
  obtain ⟨_, v', hwarn, h⟩ := bind_eq_ok_iff.mp h
  obtain ⟨hv', hunread, _⟩ := warnIfShadowed_state
    (hspells.regular.declare (.procedure ⟨v.nextId, proc⟩) rfl nofun) hwarn
  injection h with he hu
  rw [← he, ← hu]
  exact ⟨_, _, .procDef hp, rfl, hspells.then_stay hv' hunread⟩

theorem implProc_denotes {proc : Proc Expr} (hs : s.Regular) (hu : u.Advisory)
    (h : implProc b s = .ok proc u) :
    ∃ p, ProcDenotes p proc ∧ s.Spells (.mark .procWord :: spellProc p) u := by
  obtain ⟨keyword, v, hkeyword, h⟩ := bind_eq_ok_iff.mp h
  obtain ⟨⟨name, proc'⟩, v', hproc, h⟩ := bind_eq_ok_iff.mp h
  injection h with hsame hu'
  rw [← hu'] at hu ⊢
  obtain ⟨hmark, _⟩ := expect_spells hs hkeyword rfl
  obtain ⟨p, hp, hspells⟩ := procedure_denotes hb hmark.regular hu hproc
  rw [← hsame]
  exact ⟨p, hp, hmark.trans hspells⟩

/-- The procedures of an impl block are added to it one by one. -/
theorem implProcs_denotes (n : Nat) {entry : Entry (Impl Expr)} {block : Impl Expr}
    (hs : s.Regular) (hu : u.Advisory) (hentry : s.tables.impls.get? entry.id = some block)
    (h : implProcs b entry n s = .ok () u) :
    ∃ ps procs, ProcsDenote ps procs ∧ s.Spells (spellProcs ps ++ [.mark .rightBrace]) u ∧
      u.tables.impls.get? entry.id = some { block with procs := block.procs ++ procs } := by
  induction n generalizing s block with
  | zero => cases h
  | succ n ih =>
    rcases accept_bind_spells hs h rfl with ⟨v, hmark, htables, h⟩ | h
    · injection h with _ hu'
      rw [← hu']
      refine ⟨[], [], .nil, hmark, ?_⟩
      rw [htables, hentry, List.append_nil]
    · obtain ⟨proc, v, hproc, h⟩ := bind_eq_ok_iff.mp h
      have hlater := later_of_ok (fun m => (later_addProc m entry proc).bind fun _ =>
        later_implProcs (hb.later m) n entry) h
      obtain ⟨p, hp, hspells⟩ := implProc_denotes hb hs (hu.of_prefix hlater.problems) hproc
      have hextends := (StepLaw.relates_implProc hb.declares).ok trivial hproc hs.numbered
      have hget : (v.addProc entry proc).tables.impls.get? entry.id =
          some { block with procs := block.procs ++ [proc] } := by
        rw [State.impls_addProc, SymbolTable.get?_update, hextends.impl_get? hentry]
        rfl
      obtain ⟨ps, procs, hprocs, hrest, hfinal⟩ := ih (hspells.regular.addProc entry proc) hget h
      refine ⟨p :: ps, proc :: procs, .cons hp hprocs, ?_, ?_⟩
      · have hall := (hspells.then_stay (hspells.regular.addProc entry proc) rfl).trans hrest
        simpa only [spellProcs, List.append_assoc, List.cons_append] using hall
      · rw [hfinal, List.append_assoc]
        rfl

theorem implBody_denotes {struct : StructDef} {name : Token} {entry : Entry (Impl Expr)}
    (hs : s.Regular) (hu : u.Advisory) (h : implBody b struct name s = .ok entry u) :
    ∃ ps procs, ProcsDenote ps procs ∧ s.Spells (spellProcs ps ++ [.mark .rightBrace]) u ∧
      u.tables.impls.get? entry.id = some ⟨struct, procs⟩ := by
  unfold implBody at h
  rw [declareNew_bind] at h
  obtain ⟨_, v, hwarn, h⟩ := bind_eq_ok_iff.mp h
  obtain ⟨_, v', hprocs, h⟩ := bind_eq_ok_iff.mp h
  injection h with he hu'
  rw [← hu'] at hu ⊢
  have hdeclared := hs.declare (.impl ⟨s.nextId, ⟨struct, []⟩⟩) rfl nofun
  obtain ⟨hv, hunread, htables⟩ := warnIfShadowed_state hdeclared hwarn
  have hget : v.tables.impls.get? s.nextId = some ⟨struct, []⟩ := by
    rw [htables]
    exact hdeclared.numbered.impls.get?_of_mem
      (List.mem_append_right _ (List.mem_singleton.mpr rfl))
  obtain ⟨ps, procs, hdenote, hspells, hfinal⟩ := implProcs_denotes hb _ hv hu hget hprocs
  rw [← he]
  refine ⟨ps, procs, hdenote, ⟨hspells.regular, ?_⟩, hfinal⟩
  rw [← hspells.terminals, State.terminals, State.terminals, hunread]

theorem implStatement_denotes {keyword : Token} {e : Expr} (hs : s.Regular) (hu : u.Advisory)
    (h : implStatement b keyword s = .ok e u) :
    CompletesStatement [.mark .implWord] e s u := by
  obtain ⟨name, v₁, hname, h⟩ := bind_eq_ok_iff.mp h
  obtain ⟨hword, htables⟩ := expect_spells_name hs hname
  rw [tables_bind] at h
  cases hlookup : v₁.tables.structs.lookup? name.lexeme with
  | none =>
    simp only [hlookup] at h
    cases h
  | some struct =>
    simp only [hlookup] at h
    obtain ⟨_, v₂, hopen, h⟩ := bind_eq_ok_iff.mp h
    obtain ⟨entry, v₃, hbody, h⟩ := bind_eq_ok_iff.mp h
    injection h with he hu'
    rw [← hu'] at hu
    obtain ⟨hleft, _⟩ := expect_spells hword.regular hopen rfl
    obtain ⟨ps, procs, hdenote, hspells, hget⟩ := implBody_denotes hb hleft.regular hu hbody
    have hstruct : struct.decl.name = name.lexeme := SymbolTable.name_of_lookup? hlookup
    rw [← he, ← hu', hget, Option.getD_some]
    refine ⟨_, _, .implBlock hdenote, ?_, (hword.trans hleft).trans hspells⟩
    rw [Statement.spell, hstruct]
    rfl

theorem forStatement_denotes {keyword : Token} {e : Expr} (hs : s.Regular) (hu : u.Advisory)
    (h : forStatement b keyword s = .ok e u) :
    CompletesStatement [.mark .forWord] e s u := by
  obtain ⟨name, v₁, hname, h⟩ := bind_eq_ok_iff.mp h
  obtain ⟨_, v₂, hin, h⟩ := bind_eq_ok_iff.mp h
  obtain ⟨start, v₃, hstart, h⟩ := bind_eq_ok_iff.mp h
  obtain ⟨_, v₄, hrange, h⟩ := bind_eq_ok_iff.mp h
  obtain ⟨stop, v₅, hstop, h⟩ := bind_eq_ok_iff.mp h
  obtain ⟨hword, _⟩ := expect_spells_name hs hname
  obtain ⟨hmark, _⟩ := expect_spells hword.regular hin rfl
  obtain ⟨x, hx, hspells, hfaithful⟩ := expr_denotes hmark.regular hstart
  obtain ⟨hmark', _⟩ := expect_spells hspells.regular hrange rfl
  obtain ⟨y, hy, hspells', _⟩ := expr_denotes hmark'.regular hstop
  obtain ⟨t, hscoped, hscope, hproblems, hclosed⟩ := withVariables_spells hspells'.regular
    (by simpa using hfaithful) (fun entries => (hb.declares false).bind fun _ =>
      (StepLaw.relates_firstBinding _ entries).bind fun _ => StepLaw.relates_pure _) h
  obtain ⟨body, w, hblock, hrest⟩ := bind_eq_ok_iff.mp hscoped
  obtain ⟨counter, w', hcounter, hrest⟩ := bind_eq_ok_iff.mp hrest
  have hextends := (hb.declares false).ok trivial hblock hscope.numbered
  have hcounterName : counter.name = name.lexeme := by
    refine hextends.currentBinding_name (e := ⟨v₅.nextId, ⟨name.lexeme, "i32", start⟩⟩) ?_ hcounter
    rw [State.entries_openScope]
    exact List.mem_append_right _ (List.mem_singleton.mpr rfl)
  injection hcounter with _ hw
  injection hrest with he ht
  have hadvisory : w.Advisory := by
    rw [hw, ht]
    unfold State.Advisory
    rw [hproblems]
    exact hu
  obtain ⟨items, hitems, hbraces⟩ := plainBlock_denotes hb hscope hadvisory hblock
  rw [hw, ht] at hbraces
  have hall := (((hword.trans hmark).trans hspells).trans (hmark'.trans hspells')).trans
    (hclosed _ hbraces)
  rw [← he]
  refine ⟨_, _, .forLoop hx hy hitems, ?_, hall⟩
  rw [Statement.spell, hcounterName]
  simp only [List.append_assoc, List.cons_append, List.nil_append]

/-- A statement whose first token has been read. -/
theorem statementFrom_denotes {t : Token} {e : Expr} (hs : s.Regular) (ht : t.terminal.Lexed)
    (hu : u.Advisory) (h : statementFrom b t s = .ok e u) :
    CompletesStatement [t.terminal] e s u := by
  have hmark := fun k => terminal_of_kind (k := k) (t := t)
  unfold statementFrom at h
  cases hk : t.kind
  case letWord =>
    simp only [hk] at h
    rw [hmark _ hk rfl]
    exact letStatement_denotes hs h
  case procWord =>
    simp only [hk] at h
    rw [hmark _ hk rfl]
    exact procStatement_denotes hb hs hu h
  case structWord =>
    simp only [hk] at h
    rw [hmark _ hk rfl]
    exact structStatement_denotes hs h
  case implWord =>
    simp only [hk] at h
    rw [hmark _ hk rfl]
    exact implStatement_denotes hb hs hu h
  case ifWord =>
    simp only [hk] at h
    rw [hmark _ hk rfl]
    obtain ⟨x, items, test, body, hx, hitems, rfl, hspells⟩ := guarded_denotes hb hs hu h
    refine ⟨_, _, .ifStatement hx hitems, ?_, hspells⟩
    rw [Statement.spell]
    rfl
  case whileWord =>
    simp only [hk] at h
    rw [hmark _ hk rfl]
    obtain ⟨x, items, test, body, hx, hitems, rfl, hspells⟩ := guarded_denotes hb hs hu h
    refine ⟨_, _, .whileStatement hx hitems, ?_, hspells⟩
    rw [Statement.spell]
    rfl
  case forWord =>
    simp only [hk] at h
    rw [hmark _ hk rfl]
    exact forStatement_denotes hb hs hu h
  case returnWord =>
    simp only [hk] at h
    rw [hmark _ hk rfl]
    exact returnStatement_denotes hs h
  case literal | identifier | not | minus | invalid =>
    simp only [hk] at h
    exact exprStatement_denotes hs ht h
  all_goals
    simp only [hk] at h
    cases h

/-- A lone semicolon gives nothing; any other item gives what it stands for. -/
def ItemDenotes : Option Statement → Option Expr → Prop
  | none, none => True
  | some x, some e => x.Denotes e
  | _, _ => False

theorem optionalStatement_denotes {r : Option Expr} (hs : s.Regular) (hu : u.Advisory)
    (h : optionalStatement b s = .ok r u) :
    ∃ item, ItemDenotes item r ∧ s.Spells (spellItems [item]) u := by
  rcases accept_bind_spells hs h rfl with ⟨v, hmark, _, h⟩ | h
  · injection h with hr hu'
    rw [← hr, ← hu']
    exact ⟨none, trivial, hmark⟩
  · obtain ⟨t, v, ht, h⟩ := bind_eq_ok_iff.mp h
    obtain ⟨e, v', he, h⟩ := bind_eq_ok_iff.mp h
    injection h with hr hu'
    rw [← hu'] at hu ⊢
    obtain ⟨hspells, _, hlexed⟩ := advance_spells hs ht
    obtain ⟨x, w, hx, hspell, hrest⟩ := statementFrom_denotes hb hspells.regular hlexed hu he
    rw [← hr]
    refine ⟨some x, hx, ?_⟩
    rw [spellItems, spellItems, List.append_nil, hspell]
    exact hspells.trans hrest

/-- If nothing but advice is reported, then no statement has failed. -/
theorem optionalStatement_of_advisory (hu : (statementWith b s).2.Advisory) :
    optionalStatement b s = .ok (statementWith b s).1 (statementWith b s).2 := by
  unfold statementWith at hu ⊢
  cases h : optionalStatement b s with
  | ok r u => rfl
  | error p u =>
    have hstage := ((StepLaw.relates_optionalStatement hb.declares).error trivial h).1
    rw [h] at hu
    unfold State.Advisory at hu
    simp only [recover_problems] at hu
    rcases reported_report u p with hmem | ⟨_, hend⟩
    · exact absurd (hu p hmem) hstage
    · obtain ⟨q, hq, hqend⟩ := List.any_eq_true.mp hend
      have hadvice := hu q hq
      cases hcause : q.cause <;> rw [hcause] at hadvice hqend <;> cases hadvice <;> cases hqend

end Compounds

section Bodies

/-- Only the text of a bare `return` stands for one. -/
theorem eq_bareReturn {item : Option Statement} {r : Option Expr} (h : ItemDenotes item r)
    (hbare : isBareReturn r) : item = some (.returnStatement none) := by
  cases r with
  | none => cases hbare
  | some e =>
    cases item with
    | none => cases h
    | some x =>
      cases e with
      | returnStatement pos value =>
        cases value with
        | some value => cases hbare
        | none =>
          cases h with
          | phrase hx => cases hx with
            | operand hx => cases hx
          | bareReturn => rfl
      | _ => cases hbare

theorem itemsDenote_cons {item : Option Statement} {items : Items} {r : Option Expr}
    {es : List Expr} (h : ItemDenotes item r) (hitems : ItemsDenote items es) :
    ItemsDenote (item :: items) (r.toList ++ es) := by
  cases item with
  | none =>
    cases r with
    | none => exact .semicolon hitems
    | some e => cases h
  | some x =>
    cases r with
    | none => cases h
    | some e => exact .cons h hitems

theorem spellItems_cons (item : Option Statement) (items : Items) :
    spellItems (item :: items) = spellItems [item] ++ spellItems items := by
  cases item with
  | none => rfl
  | some x => simp [spellItems]

/-- What is skipped up to the end of a block is balanced. -/
theorem skipToClose_spells {s u : State} (hs : s.Regular) (h : skipToClose s = .ok () u) :
    ∃ ts : List Token, Balanced ts ∧
      s.Spells (ts.map Token.terminal ++ [.mark .rightBrace]) u := by
  have hcloses := closes_skipToClose (State.Even.refl s)
  rw [h] at hcloses
  obtain ⟨v, closing, rest, hv, hunread, hclosing, hu⟩ := hcloses
  have htables : u.tables = s.tables ∧ u.nextId = s.nextId := by
    unfold skipToClose at h
    split at h
    · injection h with _ hu'
      rw [← hu']
      exact ⟨rfl, rfl⟩
    · cases h
  rw [hu] at htables
  obtain ⟨htables, hid⟩ : v.tables = s.tables ∧ v.nextId = s.nextId := htables
  have hregular := hs.of_even hv (State.Extends.of_same hs.numbered htables hid).numbered
    (htables.symm ▸ hs.faithful)
  obtain ⟨ts, hts, hbalanced, _⟩ := hv
  have hspells := State.Spells.consume hregular hunread
  rw [terminal_of_kind hclosing rfl, ← hu] at hspells
  refine ⟨ts, hbalanced, State.Spells.trans ⟨hregular, ?_⟩ hspells⟩
  rw [State.terminals, hts.unread, List.map_append]
  rfl

/-- In front of statements up to the end of their block there may be one more item. -/
theorem ClosesItems.cons {ofProc : Bool} {item : Option Statement} {r : Option Expr}
    {s v u : State} {es : List Expr} (hitem : ItemDenotes item r)
    (hspells : s.Spells (spellItems [item]) v) (h : ClosesItems ofProc es v u) :
    ClosesItems ofProc (r.toList ++ es) s u := by
  obtain ⟨items, skipped, hitems, hskips, hrest⟩ := h
  refine ⟨item :: items, skipped, itemsDenote_cons hitem hitems, ?_, ?_⟩
  · refine hskips.imp_right fun ⟨hproc, hbare, hts⟩ => ⟨hproc, ?_, hts⟩
    unfold endsBare at hbare ⊢
    rw [List.getLast?_cons, hbare]
    rfl
  · rw [spellItems_cons, List.append_assoc, List.append_assoc,
      ← List.append_assoc (spellItems items)]
    exact hspells.trans hrest

/-- Behind a bare `return` the rest of the body of a procedure is skipped. -/
theorem ClosesItems.of_bareReturn {item : Option Statement} {r : Option Expr} {s v u : State}
    (hitem : ItemDenotes item r) (hbare : isBareReturn r)
    (hspells : s.Spells (spellItems [item]) v) (hskip : skipToClose v = .ok () u) :
    ClosesItems true r.toList s u := by
  obtain ⟨ts, hts, hskipped⟩ := skipToClose_spells hspells.regular hskip
  have hitems := itemsDenote_cons hitem .nil
  rw [List.append_nil] at hitems
  refine ⟨[item], ts.map Token.terminal, hitems, .inr ⟨rfl, ?_, ts, hts, rfl⟩, ?_⟩
  · rw [eq_bareReturn hitem hbare]
    rfl
  · rw [List.append_assoc]
    exact hspells.trans hskipped

/-- Braces around statements that are read up to the end of their block. -/
theorem readsBlock_braced {p : Bool → Parse (List Expr)}
    (hp : ∀ {ofProc : Bool} {s u : State} {es : List Expr}, s.Regular → u.Advisory →
      p ofProc s = .ok es u → ClosesItems ofProc es s u)
    (hdeclares : ∀ ofProc, declarationLaw.Relates (braced p ofProc) (braced p ofProc))
    (hlater : ∀ n ofProc, (readingLaw n).Relates (braced p ofProc) (braced p ofProc)) :
    ReadsBlock (braced p) := by
  refine ⟨fun {ofProc s u es} hs hu h => ?_, hdeclares, hlater⟩
  obtain ⟨_, v, hopen, h⟩ := bind_eq_ok_iff.mp h
  obtain ⟨hleft, _⟩ := expect_spells hs hopen rfl
  exact ⟨v, hleft, hp hleft.regular hu h⟩

theorem bodyUpTo_denotes (n : Nat) {ofProc : Bool} {s u : State} {es : List Expr}
    (hs : s.Regular) (hu : u.Advisory) (h : bodyUpTo n ofProc s = .ok es u) :
    ClosesItems ofProc es s u := by
  induction n generalizing ofProc s u es with
  | zero => cases h
  | succ n ih =>
    have hb : ReadsBlock (braced (bodyUpTo n)) := readsBlock_braced ih
      (declarationLaw_loose.relates_braced (declarationLaw_loose.relates_bodyUpTo n))
      (fun m => (readingLaw_loose m).relates_braced ((readingLaw_loose m).relates_bodyUpTo n))
    have hstep : bodyStep (statementWith (braced (bodyUpTo n))) (bodyUpTo n) ofProc s =
      .ok es u := h
    unfold bodyStep at hstep
    rw [peek_bind] at hstep
    cases hunread : s.unread with
    | nil =>
      rw [hunread] at hstep
      cases hstep
    | cons t rest =>
      simp only [hunread, List.head?_cons] at hstep
      by_cases hk : t.kind = .rightBrace
      · simp only [if_pos hk] at hstep
        rw [bind_of_ok (advance_of_cons hunread)] at hstep
        injection hstep with hes hu'
        have hspells := State.Spells.consume hs hunread
        rw [terminal_of_kind hk rfl] at hspells
        rw [← hes, ← hu']
        exact ⟨[], [], .nil, .inl rfl, hspells⟩
      · simp only [if_neg hk] at hstep
        obtain ⟨r, v, hstatement, hrest⟩ := bind_eq_ok_iff.mp hstep
        -- The statement has been read without an error, as nothing is reported that is not advice.
        have hlater := later_of_ok (fun m => (readingLaw_loose m).relates_bodyRest ofProc
          ((readingLaw_loose m).relates_bodyUpTo n ofProc) r) hrest
        have hv := hu.of_prefix hlater.problems
        injection hstatement with hr hv'
        rw [← hv'] at hv
        have hoptional := optionalStatement_of_advisory hb hv
        rw [hr, hv'] at hoptional
        rw [hv'] at hv
        obtain ⟨item, hitem, hspells⟩ := optionalStatement_denotes hb hs hv hoptional
        rw [bodyRest_of_zero _ ofProc r hspells.regular.settled.closed] at hrest
        split at hrest
        · rename_i hskip
          obtain ⟨rfl, hbare⟩ := Bool.and_eq_true_iff.mp hskip
          obtain ⟨_, v'', hclose, hrest⟩ := bind_eq_ok_iff.mp hrest
          injection hrest with hes hu'
          rw [← hes, ← hu']
          exact .of_bareReturn hitem hbare hspells hclose
        · obtain ⟨others, v'', hothers, hrest⟩ := bind_eq_ok_iff.mp hrest
          injection hrest with hes hu'
          rw [hu'] at hothers
          rw [← hes]
          exact .cons hitem hspells (ih hspells.regular hu hothers)

end Bodies
end Parse
end ScriptFront
