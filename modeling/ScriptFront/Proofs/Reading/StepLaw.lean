import ScriptFront.Parse.Statement

/-!
# Laws of reading steps

Much of what is true of reading a program is a relation between the state in front of a step and
the state after it that every small step keeps.  A step law is such a relation: one half for steps
that succeed, one half for steps that fail, and a property of the states from which it is claimed.

Two readers are related by a law if they do the same in every good state and the law holds of what
they do.  A reader that is related to itself keeps the law.  Two different readers are related when
they are built in the same way from readers that differ in bad states only, which is how bounds on
a recursion are seen not to matter.

**Results.**

* `StepLaw.Relates.bind`: a law of two steps is a law of one after the other.
* `StepLaw.relates_enclosed`, `StepLaw.relates_braced`: a pair of matching braces around a step.
-/

namespace ScriptFront

/-- Braces are the tokens that nest. -/
def TokenKind.isBrace : TokenKind → Bool
  | .leftBrace | .rightBrace => true
  | _ => false

theorem TokenKind.ne_of_isBrace {k : TokenKind} (h : k.isBrace = false) :
    k ≠ .leftBrace ∧ k ≠ .rightBrace := by
  constructor <;> rintro rfl <;> cases h

section FinalStates

variable {α β : Type} {s : State} {bindings : List (Binding Expr)}
  {body : List (Entry (Binding Expr)) → Parse α}

/-- The state after a step. -/
def finalState : EStateM.Result Problem State α → State
  | .ok _ t => t
  | .error _ t => t

namespace Parse

/-- What is made of a result does not matter for where a step ends. -/
theorem finalState_bind {p : Parse α} {f : α → Parse β} (hf : ∀ a t, finalState (f a t) = t)
    (s : State) : finalState ((p >>= f) s) = finalState (p s) := by
  cases hr : p s with
  | ok a t => rw [bind_of_ok hr, hf, finalState]
  | error e t => rw [bind_of_error hr, finalState, finalState]

theorem withVariables_of_ok {a : α} {u : State}
    (h : body (s.entriesFor bindings) (s.openScope bindings) = .ok a u) :
    withVariables bindings body s = .ok a (u.closeScope (s.entriesFor bindings)) := by
  simp only [withVariables, h]

theorem withVariables_of_error {e : Problem} {u : State}
    (h : body (s.entriesFor bindings) (s.openScope bindings) = .error e u) :
    withVariables bindings body s = .error e (u.closeScope (s.entriesFor bindings)) := by
  simp only [withVariables, h]

/-- Variables that are declared for a while are removed in any case. -/
theorem finalState_withVariables : finalState (withVariables bindings body s) =
    (finalState (body (s.entriesFor bindings) (s.openScope bindings))).closeScope
      (s.entriesFor bindings) := by
  cases hr : body (s.entriesFor bindings) (s.openScope bindings) with
  | ok a t => rw [withVariables_of_ok hr, finalState, finalState]
  | error e t => rw [withVariables_of_error hr, finalState, finalState]

end Parse
end FinalStates

/-- A relation between the states around a step that is kept by the smallest steps of reading. -/
structure StepLaw where
  /-- The states from which the law is claimed. -/
  good : State → Prop
  /-- The states before and after a step that succeeds. -/
  ok : State → State → Prop
  /-- The states before and after a step that fails with a problem. -/
  err : Problem → State → State → Prop
  refl (s : State) : ok s s
  trans {s t u : State} : ok s t → ok t u → ok s u
  err_of_ok {p : Problem} {s t : State} : ok s t → err p s t
  ok_err {p : Problem} {s t u : State} : ok s t → err p t u → err p s u
  good_of_ok {s t : State} : good s → ok s t → good t
  good_consume {s : State} {t : Token} {rest : List Token} :
    good s → s.unread = t :: rest → good (s.consume t rest)
  good_openScope {s : State} (bindings : List (Binding Expr)) :
    good s → good (s.openScope bindings)
  /-- A token that is no brace may be read. -/
  read {s : State} {t : Token} {rest : List Token} :
    s.unread = t :: rest → t.kind ≠ .leftBrace → t.kind ≠ .rightBrace → ok s (s.consume t rest)
  /-- Any token may be the one at which a step fails, but then the input has not ended. -/
  stop {p : Problem} {s : State} {t : Token} {rest : List Token} :
    p.cause.isUnexpectedEnd = false → s.unread = t :: rest → err p s (s.consume t rest)
  /-- What stands between two matching braces may be read. -/
  enclose {s u : State} {opening closing : Token} {rest rest' : List Token} :
    s.unread = opening :: rest → opening.kind = .leftBrace → ok (s.consume opening rest) u →
    u.unread = closing :: rest' → closing.kind = .rightBrace → ok s (u.consume closing rest')
  /-- A step may fail between two braces. -/
  enclose_err {p : Problem} {s u : State} {opening : Token} {rest : List Token} :
    s.unread = opening :: rest → opening.kind = .leftBrace → err p (s.consume opening rest) u →
    err p s u
  report (s : State) (p : Problem) : ok s (s.report p)
  declare (s : State) (symbol : Symbol) :
    symbol.id = s.nextId →
    ok s { s with nextId := s.nextId + 1, tables := s.tables.declare symbol }
  rebind (s : State) (e : Entry (Binding Expr)) (value : Expr) : ok s (s.rebind e value)
  /-- Only an impl block that is declared by the step itself grows. -/
  addProc {s t : State} {e : Entry (Impl Expr)} (p : Proc Expr) :
    ok s t → s.nextId ≤ e.id → ok s (t.addProc e p)
  complete (s : State) : ok s { s with completed := s.completed + 1 }
  scope {s t : State} {bindings : List (Binding Expr)} :
    ok (s.openScope bindings) t → ok s (t.closeScope (s.entriesFor bindings))
  scope_err {p : Problem} {s t : State} {bindings : List (Binding Expr)} :
    err p (s.openScope bindings) t → err p s (t.closeScope (s.entriesFor bindings))

namespace StepLaw

variable {α β : Type} {L : StepLaw}

/-- The law holds of a step from `s` with the given result; no step fails because of an advice. -/
def After (L : StepLaw) (s : State) : EStateM.Result Problem State α → Prop
  | .ok _ t => L.ok s t
  | .error e t => e.cause.stage ≠ .advisory ∧ L.err e s t

/-- Two readers do the same in good states, and keep the law. -/
def Relates (L : StepLaw) (p q : Parse α) : Prop :=
  ∀ s, L.good s → p s = q s ∧ L.After s (p s)

/--
The law holds of a step from `s`, just after an opening brace, that reads up to the brace that
closes it: in front of that brace the law holds.
-/
def Closes (L : StepLaw) (s : State) : EStateM.Result Problem State α → Prop
  | .ok _ u => ∃ t closing rest, L.ok s t ∧ t.unread = closing :: rest ∧
      closing.kind = .rightBrace ∧ u = t.consume closing rest
  | .error e u => e.cause.stage ≠ .advisory ∧ L.err e s u

theorem After.of_ok {s t : State} {r : EStateM.Result Problem State α} (hst : L.ok s t)
    (h : L.After t r) : L.After s r := by
  cases r with
  | ok a u => exact L.trans hst h
  | error e u => exact ⟨h.1, L.ok_err hst h.2⟩

/-- What a step gives does not matter for where it ends. -/
theorem closes_bind_pure {s t : State} {p q : Parse α} {f : α → β}
    (h : p t = q t ∧ L.Closes s (p t)) :
    (do let a ← p; pure (f a)) t = (do let a ← q; pure (f a)) t ∧
      L.Closes s ((do let a ← p; pure (f a)) t) := by
  obtain ⟨heq, hcloses⟩ := h
  cases hr : p t with
  | ok a u =>
    rw [hr] at heq hcloses
    rw [Parse.bind_of_ok hr, Parse.bind_of_ok heq.symm]
    exact ⟨rfl, hcloses⟩
  | error e u =>
    rw [hr] at heq hcloses
    rw [Parse.bind_of_error hr, Parse.bind_of_error heq.symm]
    exact ⟨rfl, hcloses⟩

namespace Relates

theorem eq {p q : Parse α} (h : L.Relates p q) {s : State} (hs : L.good s) : p s = q s :=
  (h s hs).1

theorem after {p q : Parse α} (h : L.Relates p q) {s : State} (hs : L.good s) :
    L.After s (p s) :=
  (h s hs).2

/-- A step that succeeds from a good state leads to a good state, with the law between them. -/
theorem ok {p q : Parse α} (h : L.Relates p q) {s t : State} {a : α} (hs : L.good s)
    (hp : p s = .ok a t) : L.ok s t := by
  have hafter := h.after hs
  rw [hp] at hafter
  exact hafter

theorem error {p q : Parse α} (h : L.Relates p q) {s t : State} {e : Problem} (hs : L.good s)
    (hp : p s = .error e t) : e.cause.stage ≠ .advisory ∧ L.err e s t := by
  have hafter := h.after hs
  rw [hp] at hafter
  exact hafter

/-- A law of two steps is a law of one after the other. -/
theorem bind {p q : Parse α} {f g : α → Parse β} (hp : L.Relates p q)
    (hf : ∀ a, L.Relates (f a) (g a)) : L.Relates (p >>= f) (q >>= g) := by
  intro s hs
  have heq := hp.eq hs
  cases hr : p s with
  | ok a t =>
    have hst := hp.ok hs hr
    rw [Parse.bind_of_ok hr, Parse.bind_of_ok (heq ▸ hr)]
    obtain ⟨hfg, hafter⟩ := hf a t (L.good_of_ok hs hst)
    exact ⟨hfg, hafter.of_ok hst⟩
  | error e t =>
    rw [Parse.bind_of_error hr, Parse.bind_of_error (heq ▸ hr)]
    exact ⟨rfl, hp.error hs hr⟩

/-- As many levels as there are tokens: the law holds if it holds at every level. -/
theorem bounded {p q : Nat → Parse α} (h : ∀ n, L.Relates (p n) (q n)) :
    L.Relates (Parse.bounded p) (Parse.bounded q) :=
  fun s hs => h s.unread.length s hs

end Relates

section Smallest

theorem relates_pure (a : α) : L.Relates (pure a : Parse α) (pure a) :=
  fun s _ => ⟨rfl, L.refl s⟩

theorem relates_fail {cause : Cause} (h : cause.stage ≠ .advisory) (pos : Position) :
    L.Relates (Parse.fail cause pos : Parse α) (Parse.fail cause pos) :=
  fun s _ => ⟨rfl, h, L.err_of_ok (L.refl s)⟩

theorem relates_failAtEnd (expected : Expected) :
    L.Relates (Parse.failAtEnd expected : Parse α) (Parse.failAtEnd expected) :=
  fun s _ => ⟨rfl, nofun, L.err_of_ok (L.refl s)⟩

theorem relates_report (cause : Cause) (pos : Position) :
    L.Relates (Parse.report cause pos) (Parse.report cause pos) :=
  fun s _ => ⟨rfl, L.report s _⟩

theorem relates_peek : L.Relates Parse.peek Parse.peek :=
  fun s _ => ⟨rfl, L.refl s⟩

theorem relates_check (k : TokenKind) : L.Relates (Parse.check k) (Parse.check k) :=
  fun s _ => ⟨rfl, L.refl s⟩

theorem relates_tables : L.Relates Parse.tables Parse.tables :=
  fun s _ => ⟨rfl, L.refl s⟩

theorem relates_currentBinding (e : Entry (Binding Expr)) :
    L.Relates (Parse.currentBinding e) (Parse.currentBinding e) :=
  fun s _ => ⟨rfl, L.refl s⟩

theorem relates_currentImpl (e : Entry (Impl Expr)) :
    L.Relates (Parse.currentImpl e) (Parse.currentImpl e) :=
  fun s _ => ⟨rfl, L.refl s⟩

theorem relates_rebind (e : Entry (Binding Expr)) (value : Expr) :
    L.Relates (Parse.rebind e value) (Parse.rebind e value) :=
  fun s _ => ⟨rfl, L.rebind s e value⟩

theorem relates_completeProc : L.Relates Parse.completeProc Parse.completeProc :=
  fun s _ => ⟨rfl, L.complete s⟩

end Smallest

section Tokens

variable {k : TokenKind}

theorem relates_expect (hk : k.isBrace = false) :
    L.Relates (Parse.expect k) (Parse.expect k) := by
  obtain ⟨hopen, hclose⟩ := TokenKind.ne_of_isBrace hk
  intro s _
  refine ⟨rfl, ?_⟩
  cases hr : Parse.expect k s with
  | ok t u =>
    obtain ⟨hk, rest, hunread, rfl⟩ := Parse.expect_eq_ok_iff.mp hr
    exact L.read hunread (hk ▸ hopen) (hk ▸ hclose)
  | error e u =>
    obtain ⟨rfl, hstage⟩ := Parse.expect_error hr
    exact ⟨by rw [hstage]; decide, L.err_of_ok (L.refl u)⟩

theorem relates_accept (hk : k.isBrace = false) :
    L.Relates (Parse.accept k) (Parse.accept k) := by
  obtain ⟨hopen, hclose⟩ := TokenKind.ne_of_isBrace hk
  intro s _
  refine ⟨rfl, ?_⟩
  rcases Parse.accept_eq (k := k) s with ⟨t, rest, hunread, hk, haccept⟩ | ⟨_, haccept⟩
  · rw [haccept]
    exact L.read hunread (hk ▸ hopen) (hk ▸ hclose)
  · rw [haccept]
    exact L.refl s

/-- A step that chooses by its first token, and fails if that is a brace. -/
theorem relates_advance_bind {f g : Token → Parse α}
    (hf : ∀ t, t.kind ≠ .leftBrace → t.kind ≠ .rightBrace → L.Relates (f t) (g t))
    (hbrace : ∀ t, t.kind = .leftBrace ∨ t.kind = .rightBrace →
      ∃ cause pos, cause.stage ≠ .advisory ∧ cause.isUnexpectedEnd = false ∧
        f t = Parse.fail cause pos ∧ g t = Parse.fail cause pos) :
    L.Relates (Parse.advance >>= f) (Parse.advance >>= g) := by
  intro s hs
  cases hunread : s.unread with
  | nil =>
    have herr := Parse.advance_of_nil hunread
    rw [Parse.bind_of_error herr, Parse.bind_of_error herr]
    exact ⟨rfl, nofun, L.err_of_ok (L.refl s)⟩
  | cons t rest =>
    have hok := Parse.advance_of_cons hunread
    rw [Parse.bind_of_ok hok, Parse.bind_of_ok hok]
    by_cases ht : t.kind = .leftBrace ∨ t.kind = .rightBrace
    · obtain ⟨cause, pos, hstage, hcause, hft, hgt⟩ := hbrace t ht
      rw [hft, hgt]
      exact ⟨rfl, hstage, L.stop hcause hunread⟩
    · rw [not_or] at ht
      obtain ⟨heq, hafter⟩ := hf t ht.1 ht.2 _ (L.good_consume hs hunread)
      exact ⟨heq, hafter.of_ok (L.read hunread ht.1 ht.2)⟩

/-- A step after an opening brace that reads up to the brace that closes it. -/
theorem relates_braced {p q : Parse α} {f g : α → Parse β}
    (hp : ∀ {s opening rest}, L.good s → s.unread = opening :: rest → opening.kind = .leftBrace →
      p (s.consume opening rest) = q (s.consume opening rest) ∧
        L.Closes (s.consume opening rest) (p (s.consume opening rest)))
    (hf : ∀ a, L.Relates (f a) (g a)) :
    L.Relates (do let _ ← Parse.expect .leftBrace; let a ← p; f a)
      (do let _ ← Parse.expect .leftBrace; let a ← q; g a) := by
  intro s hs
  cases hr : Parse.expect .leftBrace s with
  | error e t =>
    obtain ⟨rfl, hstage⟩ := Parse.expect_error hr
    rw [Parse.bind_of_error hr, Parse.bind_of_error hr]
    exact ⟨rfl, by rw [hstage]; decide, L.err_of_ok (L.refl t)⟩
  | ok opening t =>
    rw [Parse.bind_of_ok hr, Parse.bind_of_ok hr]
    obtain ⟨hopening, rest, hunread, rfl⟩ := Parse.expect_eq_ok_iff.mp hr
    obtain ⟨heq, hcloses⟩ := hp hs hunread hopening
    cases hbody : p (s.consume opening rest) with
    | error e u =>
      rw [hbody] at hcloses
      rw [Parse.bind_of_error hbody, Parse.bind_of_error (heq ▸ hbody)]
      exact ⟨rfl, hcloses.1, L.enclose_err hunread hopening hcloses.2⟩
    | ok a u =>
      rw [hbody] at hcloses
      obtain ⟨v, closing, rest', hv, hrest', hclosing, rfl⟩ := hcloses
      have hsu := L.enclose hunread hopening hv hrest' hclosing
      rw [Parse.bind_of_ok hbody, Parse.bind_of_ok (heq ▸ hbody)]
      obtain ⟨hfg, hafter⟩ := hf a _ (L.good_of_ok hs hsu)
      exact ⟨hfg, hafter.of_ok hsu⟩

/-- A step between an opening brace and the brace that closes it. -/
theorem relates_enclosed {p q : Parse α} {f g : α → Parse β} (hp : L.Relates p q)
    (hf : ∀ a, L.Relates (f a) (g a)) :
    L.Relates (do let _ ← Parse.expect .leftBrace; let a ← p; let _ ← Parse.expect .rightBrace; f a)
      (do let _ ← Parse.expect .leftBrace; let a ← q; let _ ← Parse.expect .rightBrace; g a) := by
  have hclosed : ∀ {s}, L.good s →
      (do let a ← p; let _ ← Parse.expect .rightBrace; pure a) s =
        (do let a ← q; let _ ← Parse.expect .rightBrace; pure a) s ∧
      L.Closes s ((do let a ← p; let _ ← Parse.expect .rightBrace; pure a) s) := by
    intro s hs
    have heq := hp.eq hs
    cases hr : p s with
    | error e t =>
      rw [Parse.bind_of_error hr, Parse.bind_of_error (heq ▸ hr)]
      exact ⟨rfl, hp.error hs hr⟩
    | ok a t =>
      have hst := hp.ok hs hr
      have hq : q s = .ok a t := heq ▸ hr
      rw [Parse.bind_of_ok hr, Parse.bind_of_ok hq]
      refine ⟨rfl, ?_⟩
      cases hclose : Parse.expect .rightBrace t with
      | error e u =>
        obtain ⟨rfl, hstage⟩ := Parse.expect_error hclose
        rw [Parse.bind_of_error hclose]
        exact ⟨by rw [hstage]; decide, L.err_of_ok hst⟩
      | ok closing u =>
        obtain ⟨hclosing, rest, hunread, rfl⟩ := Parse.expect_eq_ok_iff.mp hclose
        rw [Parse.bind_of_ok hclose]
        exact ⟨t, closing, rest, hst, hunread, hclosing, rfl⟩
  have h := relates_braced (fun hs hunread _ => hclosed (L.good_consume hs hunread)) hf
  simpa only [bind_assoc, pure_bind] using h

end Tokens

section Declarations

/-- A new entry that is declared at once. -/
theorem relates_declareNew {γ : Type} (decl : γ) (symbol : Entry γ → Symbol)
    (hid : ∀ e, (symbol e).id = e.id) {f g : Entry γ → Bool → Parse α}
    (hf : ∀ e shadowed, L.Relates (f e shadowed) (g e shadowed)) :
    L.Relates
      (do let e ← Parse.newEntry decl; let shadowed ← Parse.declare (symbol e); f e shadowed)
      (do let e ← Parse.newEntry decl; let shadowed ← Parse.declare (symbol e); g e shadowed) := by
  intro s hs
  have hdeclare := L.declare s (symbol ⟨s.nextId, decl⟩) (hid _)
  obtain ⟨heq, hafter⟩ := hf ⟨s.nextId, decl⟩ (s.tables.shadows (symbol ⟨s.nextId, decl⟩)) _
    (L.good_of_ok hs hdeclare)
  exact ⟨heq, hafter.of_ok hdeclare⟩

/-- A step while some variables are declared. -/
theorem relates_withVariables (bindings : List (Binding Expr))
    {p q : List (Entry (Binding Expr)) → Parse α}
    (h : ∀ entries, L.Relates (p entries) (q entries)) :
    L.Relates (Parse.withVariables bindings p) (Parse.withVariables bindings q) := by
  intro s hs
  obtain ⟨heq, hafter⟩ := h (s.entriesFor bindings) _ (L.good_openScope bindings hs)
  simp only [Parse.withVariables, ← heq, true_and]
  cases hr : p (s.entriesFor bindings) (s.openScope bindings) with
  | ok a t =>
    rw [hr] at hafter
    exact L.scope hafter
  | error e t =>
    rw [hr] at hafter
    exact ⟨hafter.1, L.scope_err hafter.2⟩

end Declarations
end StepLaw
end ScriptFront
