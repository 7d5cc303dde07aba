import ScriptFront.Proofs.Layout.Moved
import ScriptFront.Proofs.Reading.Progress

/-!
# Reading the same tokens elsewhere

The same tokens may stand at other positions, behind tokens that have been read before and in front
of more tokens.  A setting says where: a state within a setting is the same state of reading in a
larger text.  Reading looks one token ahead at most, so as long as tokens of the smaller text are
left, it does the same within a setting.

**Results.**

* `Mirrors.bind`: a step and then another one within a setting.
* `mirrors_expect`, `mirrors_accept` and others: the smallest steps.
* `Mirrors.bounded`: more tokens mean more levels, and these change nothing.
-/

namespace ScriptFront

/-- A larger text: where its positions are, what has been read and reported in front of the smaller
text, and the tokens behind it. -/
structure Setting where
  place : Position → Position
  /-- The tokens in front, the last one first. -/
  before : List Token
  reported : List Problem
  behind : List Token
  finish : Position
  /-- The text has not ended in front of the smaller one. -/
  quiet : ∀ p ∈ reported, p.cause.isUnexpectedEnd = false

/-- With nothing in front of the smaller text. -/
def Setting.leading (place : Position → Position) (behind : List Token) (finish : Position) :
    Setting where
  place := place
  before := []
  reported := []
  behind := behind
  finish := finish
  quiet := List.forall_mem_nil _

/-- The state of reading in the larger text. -/
def State.within (m : Setting) (s : State) : State where
  read := s.read.map (Token.moved m.place) ++ m.before
  unread := s.unread.map (Token.moved m.place) ++ m.behind
  finish := m.finish
  braceDepth := s.braceDepth
  closedBlocks := s.closedBlocks
  tables := s.tables.moved m.place
  problems := m.reported ++ s.problems.map (Problem.moved m.place)
  nextId := s.nextId
  completed := s.completed

/-- The end of the smaller text is not seen, or it is the end of the larger one. -/
def Setting.Hides (m : Setting) (s : State) : Prop :=
  m.behind = [] ∨ s.unread ≠ []

section Results

variable {α β : Type}

/-- What a step gives, within a setting. -/
def resultWithin (m : Setting) (g : α → β) :
    EStateM.Result Problem State α → EStateM.Result Problem State β
  | .ok a t => .ok (g a) (t.within m)
  | .error p t => .error (p.moved m.place) (t.within m)

end Results

/-- The step `p` leads on from `s`, and `q` does the same within the setting, unless it sees what
is behind the smaller text. -/
structure Follows {α β : Type} (m : Setting) (g : α → β) (s : State) (p : Parse α) (q : Parse β) :
    Prop where
  later : s.Later (finalState (p s))
  same : m.Hides (finalState (p s)) → q (s.within m) = resultWithin m g (p s)

/-- Something has been read, and at most `n` tokens are left. -/
structure State.Begun (n : Nat) (s : State) : Prop where
  read : s.read ≠ []
  length : s.unread.length ≤ n

variable {m : Setting} {s t : State}

theorem Setting.Hides.of_later (h : m.Hides t) (hst : s.Later t) : m.Hides s := by
  refine h.imp_right fun hunread hnil => hunread ?_
  obtain ⟨ts, hts⟩ := hst.reads
  have hall := hts.unread
  rw [hnil] at hall
  exact (List.append_eq_nil_iff.mp hall.symm).2

namespace State

theorem Begun.later {n : Nat} (h : s.Begun n) (hst : s.Later t) : t.Begun n where
  read := by
    obtain ⟨ts, hts⟩ := hst.reads
    rw [hts.read]
    exact List.append_ne_nil_of_right_ne_nil _ h.read
  length := Nat.le_trans hst.length_le h.length

theorem Begun.consume (tok : Token) (rest : List Token) :
    (s.consume tok rest).Begun rest.length where
  read := List.cons_ne_nil _ _
  length := Nat.le_refl _

theorem Begun.lt {n : Nat} {tok : Token} {rest : List Token} (h : s.Begun n)
    (hunread : s.unread = tok :: rest) : rest.length < n := by
  have hlength := h.length
  rw [hunread, List.length_cons] at hlength
  exact hlength

theorem endReported_within : (s.within m).endReported = s.endReported := by
  have hquiet : m.reported.any (fun p => p.cause.isUnexpectedEnd) = false :=
    List.any_eq_false.mpr fun p hp => by rw [m.quiet p hp]; decide
  unfold endReported within
  rw [List.any_append, hquiet, Bool.false_or, List.any_map]
  rfl

theorem within_report (p : Problem) :
    (s.report p).within m = (s.within m).report (p.moved m.place) := by
  unfold report
  rw [endReported_within]
  show _ = if p.cause.isUnexpectedEnd && s.endReported then _ else _
  split
  · rfl
  · unfold within
    simp only [List.map_append, List.map_cons, List.map_nil, List.append_assoc]

/-- An input that ends too early ends at the last token that has been read. -/
theorem endPosition_within (h : s.read ≠ []) :
    (s.within m).endPosition = m.place s.endPosition := by
  unfold endPosition within
  cases hread : s.read with
  | nil => exact absurd hread h
  | cons t ts => rfl

theorem diagnostics_within (s : State) : (s.within m).diagnostics =
    m.reported.map Problem.diagnostic ++ s.diagnostics.map (Diagnostic.moved m.place) := by
  unfold diagnostics within
  rw [List.map_append, List.map_map, List.map_map]
  rfl

theorem entriesFor_map {α β : Type} (g : α → β) (decls : List α) :
    (s.entriesFor decls).map (Entry.map g) = (s.within m).entriesFor (decls.map g) := by
  unfold entriesFor
  rw [List.zipIdx_map, List.map_map, List.map_map]
  rfl

theorem within_openScope (bindings : List (Binding Expr)) :
    (s.openScope bindings).within m =
      (s.within m).openScope (bindings.map (Binding.map (Expr.moved m.place))) := by
  unfold openScope
  rw [← entriesFor_map, List.length_map]
  unfold within Tables.moved
  simp only [SymbolTable.map_declareAll]

theorem within_closeScope (entries : List (Entry (Binding Expr))) :
    (s.closeScope entries).within m =
      (s.within m).closeScope (entries.map (Entry.map (Binding.map (Expr.moved m.place)))) := by
  unfold closeScope within Tables.moved
  simp only [SymbolTable.map_eraseAll]

end State

open Parse

/-- Wherever something has been read and at most `n` tokens are left, `q` follows `p`. -/
def Mirrors {α β : Type} (m : Setting) (n : Nat) (g : α → β) (p : Parse α) (q : Parse β) : Prop :=
  ∀ s : State, s.Begun n → Follows m g s p q

section Composition

variable {α β γ δ : Type} {g : α → β} {h : γ → δ} {p : Parse α} {q : Parse β}
  {f : α → Parse γ} {f' : β → Parse δ} {n : Nat}

/-- A step that cannot fail. -/
theorem Follows.of_ok {a : α} (hp : p s = .ok a t) (hlater : s.Later t)
    (hq : m.Hides t → q (s.within m) = .ok (g a) (t.within m)) : Follows m g s p q where
  later := by
    rw [hp]
    exact hlater
  same := by
    rw [hp]
    exact hq

/-- Two steps that do the same as two others from a later state. -/
theorem Follows.of_eq {p' : Parse α} {q' : Parse β} (h : Follows m g t p' q') (hst : s.Later t)
    (hp : p s = p' t) (hq : m.Hides (finalState (p' t)) → q (s.within m) = q' (t.within m)) :
    Follows m g s p q where
  later := by
    rw [hp]
    exact hst.trans h.later
  same := by
    rw [hp]
    exact fun hides => (hq hides).trans (h.same hides)

theorem Follows.bind (hp : Follows m g s p q)
    (hf : ∀ a t, p s = .ok a t → s.Later t → Follows m h t (f a) (f' (g a))) :
    Follows m h s (p >>= f) (q >>= f') := by
  have hlater := hp.later
  have hsame := hp.same
  cases hr : p s with
  | error e t =>
    rw [hr] at hlater hsame
    refine ⟨by rwa [bind_of_error hr], fun hides => ?_⟩
    rw [bind_of_error hr] at hides ⊢
    exact bind_of_error (hsame hides)
  | ok a t =>
    rw [hr] at hlater hsame
    have hnext := hf a t hr hlater
    refine ⟨by rw [bind_of_ok hr]; exact hlater.trans hnext.later, fun hides => ?_⟩
    rw [bind_of_ok hr] at hides ⊢
    rw [bind_of_ok (hsame (hides.of_later hnext.later))]
    exact hnext.same hides

/-- A step and then another one within a setting. -/
theorem Mirrors.bind (hp : Mirrors m n g p q) (hf : ∀ a, Mirrors m n h (f a) (f' (g a))) :
    Mirrors m n h (p >>= f) (q >>= f') :=
  fun s hs => (hp s hs).bind fun a t _ hst => hf a t (hs.later hst)

/-- A step that chooses between two others. -/
theorem Mirrors.choose {c d : Parse Bool} {p' : Parse α} {q' : Parse β}
    (hc : Mirrors m n id c d) (hp : Mirrors m n g p q) (hp' : Mirrors m n g p' q') :
    Mirrors m n g (do if ← c then p else p') (do if ← d then q else q') := by
  refine hc.bind fun chosen => ?_
  cases chosen with
  | true => exact hp
  | false => exact hp'

theorem Mirrors.ite {c d : Prop} [Decidable c] [Decidable d] {p' : Parse α} {q' : Parse β}
    (hcd : c ↔ d) (hp : Mirrors m n g p q) (hp' : Mirrors m n g p' q') :
    Mirrors m n g (if c then p else p') (if d then q else q') := by
  by_cases hc : c
  · rwa [if_pos hc, if_pos (hcd.mp hc)]
  · rwa [if_neg hc, if_neg (mt hcd.mpr hc)]

/-- More tokens mean more levels, and these change nothing. -/
theorem Mirrors.bounded {p : Nat → Parse α} {q : Nat → Parse β} (hsteady : Steady p)
    (hp : ∀ k, Mirrors m n g (p k) (q k)) : Mirrors m n g (bounded p) (bounded q) := by
  intro s hs
  have hmore : s.unread.length ≤ (s.within m).unread.length := by
    unfold State.within
    rw [List.length_append, List.length_map]
    exact Nat.le_add_right _ _
  exact (hp (s.within m).unread.length s hs).of_eq (.refl s) (hsteady _ s hmore).symm fun _ => rfl

end Composition

section Smallest

variable {α β : Type} {g : α → β} {n : Nat}

theorem mirrors_pure {a : α} {b : β} (hb : b = g a) :
    Mirrors m n g (pure a : Parse α) (pure b) :=
  fun s _ => .of_ok rfl (.refl s) fun _ => by rw [hb]; rfl

theorem mirrors_fail {cause cause' : Cause} {pos pos' : Position} (hcause : cause' = cause)
    (hpos : pos' = m.place pos) :
    Mirrors m n g (fail cause pos : Parse α) (fail cause' pos') :=
  fun s _ => ⟨.refl s, fun _ => by rw [hcause, hpos]; rfl⟩

theorem mirrors_failAtEnd (expected : Expected) :
    Mirrors m n g (failAtEnd expected : Parse α) (failAtEnd expected) := by
  refine fun s hs => ⟨.refl s, fun _ => ?_⟩
  unfold failAtEnd
  rw [State.endPosition_within hs.read]
  rfl

theorem mirrors_report {cause cause' : Cause} {pos pos' : Position} (hcause : cause' = cause)
    (hpos : pos' = m.place pos) : Mirrors m n id (report cause pos) (report cause' pos') := by
  refine fun s _ => .of_ok rfl (.report s _) fun _ => ?_
  unfold report
  rw [State.within_report, hcause, hpos]
  rfl

theorem mirrors_tables : Mirrors m n (Tables.moved m.place) tables tables :=
  fun s _ => .of_ok rfl (.refl s) fun _ => rfl

/-- A new entry that is declared at once. -/
theorem mirrors_declareNew {γ : Type} (move : γ → γ) (decl : γ) (symbol : Entry γ → Symbol)
    (hsymbol : ∀ e, symbol (e.map move) = (symbol e).moved m.place)
    {f : Entry γ → Bool → Parse α} {f' : Entry γ → Bool → Parse β}
    (hf : ∀ e shadowed, Mirrors m n g (f e shadowed) (f' (e.map move) shadowed)) :
    Mirrors m n g (do let e ← newEntry decl; let shadowed ← declare (symbol e); f e shadowed)
      (do let e ← newEntry (move decl); let shadowed ← declare (symbol e); f' e shadowed) := by
  have hnew : Mirrors m n (Entry.map move) (newEntry decl) (newEntry (move decl)) :=
    fun _ _ => .of_ok rfl (.of_same rfl rfl rfl rfl List.prefix_rfl) fun _ => rfl
  refine hnew.bind fun e => Mirrors.bind (fun s _ => ?_) (hf e)
  refine .of_ok (a := s.tables.shadows (symbol e)) rfl
    (.of_same rfl rfl rfl rfl List.prefix_rfl) fun _ => ?_
  unfold declare State.within
  rw [hsymbol, Tables.shadows_moved, Tables.moved_declare]

theorem mirrors_currentBinding (e : Entry (Binding Expr)) :
    Mirrors m n (Binding.map (Expr.moved m.place)) (currentBinding e)
      (currentBinding (e.map (Binding.map (Expr.moved m.place)))) := by
  refine fun s _ => .of_ok rfl (.refl s) fun _ => ?_
  have hget : (s.within m).tables.vars.get? e.id =
      (s.tables.vars.get? e.id).map (Binding.map (Expr.moved m.place)) :=
    SymbolTable.get?_map _ _ _
  unfold currentBinding
  rw [show (e.map (Binding.map (Expr.moved m.place))).id = e.id from rfl, hget]
  cases s.tables.vars.get? e.id <;> rfl

theorem mirrors_currentImpl (e : Entry (Impl Expr)) :
    Mirrors m n (Impl.map m.place (Expr.moved m.place)) (currentImpl e)
      (currentImpl (e.map (Impl.map m.place (Expr.moved m.place)))) := by
  refine fun s _ => .of_ok rfl (.refl s) fun _ => ?_
  have hget : (s.within m).tables.impls.get? e.id =
      (s.tables.impls.get? e.id).map (Impl.map m.place (Expr.moved m.place)) :=
    SymbolTable.get?_map _ _ _
  unfold currentImpl
  rw [show (e.map (Impl.map m.place (Expr.moved m.place))).id = e.id from rfl, hget]
  cases s.tables.impls.get? e.id <;> rfl

theorem mirrors_rebind (e : Entry (Binding Expr)) (value : Expr) :
    Mirrors m n id (rebind e value)
      (rebind (e.map (Binding.map (Expr.moved m.place))) (value.moved m.place)) := by
  refine fun s _ => .of_ok rfl (.of_same rfl rfl rfl rfl List.prefix_rfl) fun _ => ?_
  have hupdate : (s.tables.vars.update e.id (·.rebind value)).map _ =
      (s.tables.vars.map (Binding.map (Expr.moved m.place))).update e.id
        (·.rebind (value.moved m.place)) :=
    s.tables.vars.update_map _ e.id fun _ => rfl
  unfold rebind State.rebind State.within Tables.moved
  simp only [hupdate]
  rfl

theorem mirrors_addProc (e : Entry (Impl Expr)) (proc : Proc Expr) :
    Mirrors m n id (addProc e proc)
      (addProc (e.map (Impl.map m.place (Expr.moved m.place)))
        (proc.map m.place (Expr.moved m.place))) := by
  refine fun s _ => .of_ok rfl (.of_same rfl rfl rfl rfl List.prefix_rfl) fun _ => ?_
  have hupdate : (s.tables.impls.update e.id fun block =>
        { block with procs := block.procs ++ [proc] }).map _ =
      (s.tables.impls.map (Impl.map m.place (Expr.moved m.place))).update e.id fun block =>
        { block with procs := block.procs ++ [proc.map m.place (Expr.moved m.place)] } :=
    s.tables.impls.update_map _ e.id fun _ => congrArg (Impl.mk _) List.map_append
  unfold addProc State.addProc State.within Tables.moved
  simp only [hupdate]
  rfl

theorem mirrors_completeProc : Mirrors m n id completeProc completeProc :=
  fun _ _ => .of_ok rfl (.of_same rfl rfl rfl rfl List.prefix_rfl) fun _ => rfl

/-- A step while some variables are declared. -/
theorem mirrors_withVariables (bindings : List (Binding Expr))
    {p : List (Entry (Binding Expr)) → Parse α} {q : List (Entry (Binding Expr)) → Parse β}
    (h : ∀ entries, Mirrors m n g (p entries)
      (q (entries.map (Entry.map (Binding.map (Expr.moved m.place)))))) :
    Mirrors m n g (withVariables bindings p)
      (withVariables (bindings.map (Binding.map (Expr.moved m.place))) q) := by
  intro s hs
  have hopen := State.Later.openScope s bindings
  have hbody := h (s.entriesFor bindings) _ (hs.later hopen)
  have hentries := State.entriesFor_map (m := m) (s := s) (Binding.map (Expr.moved m.place))
    bindings
  rw [hentries] at hbody
  have hlater := hbody.later
  have hsame := hbody.same
  rw [State.within_openScope] at hsame
  cases hr : p (s.entriesFor bindings) (s.openScope bindings) with
  | ok a t =>
    rw [hr] at hlater hsame
    have hclose : withVariables bindings p s = .ok a (t.closeScope (s.entriesFor bindings)) := by
      simp only [withVariables, hr]
    refine .of_ok hclose ((hopen.trans hlater).trans (.closeScope t _)) fun hides => ?_
    simp only [withVariables, hsame hides, resultWithin, State.within_closeScope, hentries]
  | error e t =>
    rw [hr] at hlater hsame
    have hclose : withVariables bindings p s = .error e (t.closeScope (s.entriesFor bindings)) := by
      simp only [withVariables, hr]
    refine ⟨by rw [hclose]; exact (hopen.trans hlater).trans (.closeScope t _), fun hides => ?_⟩
    rw [hclose] at hides ⊢
    simp only [withVariables, hsame hides, resultWithin, State.within_closeScope, hentries]

end Smallest

section Tokens

variable {n : Nat}

theorem State.within_unread_of_cons {tok : Token} {rest : List Token} (h : s.unread = tok :: rest) :
    (s.within m).unread = tok.moved m.place :: (rest.map (Token.moved m.place) ++ m.behind) := by
  unfold within
  rw [h]
  rfl

theorem State.within_unread_of_nil (h : s.unread = []) (hides : m.Hides s) :
    (s.within m).unread = [] := by
  unfold within
  rw [h, hides.resolve_right fun hne => hne h]
  rfl

theorem mirrors_peek : Mirrors m n (Option.map (Token.moved m.place)) peek peek := by
  refine fun s _ => .of_ok rfl (.refl s) fun hides => ?_
  cases hunread : s.unread with
  | nil => exact peek_of_nil (State.within_unread_of_nil hunread hides)
  | cons tok rest => exact peek_of_cons (State.within_unread_of_cons hunread)

theorem mirrors_check (k : TokenKind) : Mirrors m n id (check k) (check k) := by
  refine fun s _ => .of_ok rfl (.refl s) fun hides => ?_
  cases hunread : s.unread with
  | nil => exact check_of_nil (State.within_unread_of_nil hunread hides)
  | cons tok rest =>
    rw [check_of_cons (State.within_unread_of_cons hunread)]
    rfl

theorem mirrors_accept (k : TokenKind) : Mirrors m n id (accept k) (accept k) := by
  intro s _
  cases hunread : s.unread with
  | nil =>
    exact .of_ok (accept_of_nil hunread) (.refl s) fun hides =>
      accept_of_nil (State.within_unread_of_nil hunread hides)
  | cons tok rest =>
    have hcons := State.within_unread_of_cons (m := m) hunread
    by_cases hk : tok.kind = k
    · exact .of_ok (accept_of_eq hunread hk) (.consume hunread) fun _ => accept_of_eq hcons hk
    · exact .of_ok (accept_of_ne hunread hk) (.refl s) fun _ => accept_of_ne hcons hk

theorem mirrors_advance : Mirrors m n (Token.moved m.place) advance advance := by
  intro s hs
  cases hunread : s.unread with
  | nil =>
    exact (mirrors_failAtEnd (.words "more input") s hs).of_eq (.refl s) (advance_of_nil hunread)
      fun hides => advance_of_nil (State.within_unread_of_nil hunread hides)
  | cons tok rest =>
    exact .of_ok (advance_of_cons hunread) (.consume hunread) fun _ =>
      advance_of_cons (State.within_unread_of_cons hunread)

theorem mirrors_expect (k : TokenKind) :
    Mirrors m n (Token.moved m.place) (expect k) (expect k) := by
  intro s hs
  cases hunread : s.unread with
  | nil =>
    exact (mirrors_failAtEnd (.kind k) s hs).of_eq (.refl s) (expect_of_nil hunread)
      fun hides => expect_of_nil (State.within_unread_of_nil hunread hides)
  | cons tok rest =>
    have hcons := State.within_unread_of_cons (m := m) hunread
    by_cases hk : tok.kind = k
    · exact .of_ok (expect_of_cons hunread hk) (.consume hunread) fun _ =>
        expect_of_cons hcons hk
    · have hfail : Follows m (Token.moved m.place) s
          (fail (.unexpectedToken (.kind k) tok.lexeme) tok.pos)
          (fail (.unexpectedToken (.kind k) tok.lexeme) (m.place tok.pos)) :=
        mirrors_fail rfl rfl s hs
      exact hfail.of_eq (.refl s) (expect_of_ne hunread hk) fun _ => expect_of_ne hcons hk

end Tokens
end ScriptFront
