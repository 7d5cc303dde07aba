import ScriptFront.Proofs.Layout.Settings

/-!
# Two texts that fork behind one token

Reading looks one token ahead at most.  So when two texts are the same up to some token and go on
differently behind it, the same is read from both of them until that token itself is read; what
stands behind it makes no difference in front of it.

**Approach.** A state in front of more tokens is the same state of reading in a longer text
(`State.inFront`).  Two runs of a step from in front of both ways to go on are compared
(`Alike`): either they do the same and stop in front of the token at the fork, or both of them read
it.  Of runs that have read it nothing more is said, but that they do not come back.

**Results.**

* `Alike.bind`: runs of one step after another.
* `OneAhead.bounded`: more tokens mean more levels, and these change nothing.
* `oneAhead_accept`, `oneAhead_expect` and others: the smallest steps.
-/

namespace ScriptFront

/-- Two ways in which a text goes on behind a token. -/
structure Fork where
  token : Token
  left : List Token
  right : List Token

/-- The state of reading in a text that goes on with more tokens. -/
def State.inFront (s : State) (ts : List Token) : State :=
  { s with unread := s.unread ++ ts }

namespace State

variable {s : State} {ts : List Token}

theorem length_inFront : (s.inFront ts).unread.length = s.unread.length + ts.length :=
  List.length_append

theorem inFront_report (p : Problem) : (s.inFront ts).report p = (s.report p).inFront ts := by
  show (if p.cause.isUnexpectedEnd && s.endReported then _ else _) = _
  unfold report
  split
  · rfl
  · rfl

end State

open Parse

/-- A step that puts no token back. -/
def Shrinks {α : Type} (p : Parse α) : Prop :=
  ∀ s, (finalState (p s)).unread.length ≤ s.unread.length

/-- Two runs do the same and stop in front of the fork, or both read the token at the fork. -/
inductive Parallel {α : Type} (k : Fork) :
    EStateM.Result Problem State α → EStateM.Result Problem State α → Prop
  | ok (a : α) (t : State) : Parallel k (.ok a (t.inFront (k.token :: k.left)))
      (.ok a (t.inFront (k.token :: k.right)))
  | error (p : Problem) (t : State) : Parallel k (.error p (t.inFront (k.token :: k.left)))
      (.error p (t.inFront (k.token :: k.right)))
  | past {r r' : EStateM.Result Problem State α} :
      (finalState r).unread.length ≤ k.left.length →
      (finalState r').unread.length ≤ k.right.length → Parallel k r r'

/-- The runs of a step from a state in front of both ways to go on. -/
def Alike {α : Type} (k : Fork) (s : State) (p : Parse α) : Prop :=
  Parallel k (p (s.inFront (k.token :: k.left))) (p (s.inFront (k.token :: k.right)))

/-- A step that looks one token ahead at most, with at most `n` tokens in front of the fork. -/
structure OneAhead {α : Type} (k : Fork) (n : Nat) (p : Parse α) : Prop where
  shrinks : Shrinks p
  alike (s : State) : s.unread.length ≤ n → Alike k s p

variable {α β : Type} {k : Fork} {n : Nat} {s t : State}

section Shrinking

/-- Every reader leads to a later state. -/
theorem shrinks_of_relates {p : Parse α} (h : ∀ n, (readingLaw n).Relates p p) : Shrinks p := by
  intro s
  have hafter := (h (s.unread.length + 1)).after (Nat.lt_succ_self _)
  cases hr : p s with
  | ok a t =>
    rw [hr] at hafter
    exact State.Later.length_le hafter
  | error e t =>
    rw [hr] at hafter
    exact State.Later.length_le hafter.2

/-- After one step, another one puts no token back. -/
theorem length_bind_le {p : Parse α} {f : α → Parse β} (hf : ∀ a, Shrinks (f a)) (s : State) :
    (finalState ((p >>= f) s)).unread.length ≤ (finalState (p s)).unread.length := by
  cases hr : p s with
  | ok a t =>
    rw [bind_of_ok hr]
    exact hf a t
  | error e t =>
    rw [bind_of_error hr]
    exact Nat.le_refl _

theorem shrinks_pure (a : α) : Shrinks (pure a : Parse α) :=
  fun _ => Nat.le_refl _

theorem Shrinks.bind {p : Parse α} {f : α → Parse β} (hp : Shrinks p) (hf : ∀ a, Shrinks (f a)) :
    Shrinks (p >>= f) :=
  fun s => Nat.le_trans (length_bind_le hf s) (hp s)

end Shrinking

section Composition

variable {p : Parse α} {f : α → Parse β}

theorem Alike.of_ok (a : α)
    (h : ∀ ts, p (s.inFront (k.token :: ts)) = .ok a (t.inFront (k.token :: ts))) :
    Alike k s p := by
  unfold Alike
  rw [h, h]
  exact .ok a t

theorem Alike.of_error (e : Problem)
    (h : ∀ ts, p (s.inFront (k.token :: ts)) = .error e (t.inFront (k.token :: ts))) :
    Alike k s p := by
  unfold Alike
  rw [h, h]
  exact .error e t

/-- A step that reads the token at the fork, whatever is behind it. -/
theorem Alike.of_past
    (h : ∀ ts, (finalState (p (s.inFront (k.token :: ts)))).unread.length ≤ ts.length) :
    Alike k s p :=
  .past (h k.left) (h k.right)

/-- A step that stops in front of the fork on the one way does the same on the other. -/
theorem Alike.ok_of_lt (hp : Alike k s p) {a : α} {u : State}
    (h : p (s.inFront (k.token :: k.left)) = .ok a u) (hlt : k.left.length < u.unread.length) :
    ∃ t : State, u = t.inFront (k.token :: k.left) ∧
      p (s.inFront (k.token :: k.right)) = .ok a (t.inFront (k.token :: k.right)) := by
  unfold Alike at hp
  rw [h] at hp
  generalize p (s.inFront (k.token :: k.right)) = r at hp ⊢
  cases hp with
  | ok _ t => exact ⟨t, rfl, rfl⟩
  | past hle _ => exact absurd hlt (Nat.not_lt_of_le hle)

/-- Two runs that go on after two others, in which no token is put back. -/
theorem Parallel.goOn {r r' : EStateM.Result Problem State α}
    {q q' : EStateM.Result Problem State β} (h : Parallel k r r')
    (hok : ∀ a (t : State), r = .ok a (t.inFront (k.token :: k.left)) →
      r' = .ok a (t.inFront (k.token :: k.right)) → Parallel k q q')
    (herror : ∀ e (t : State), r = .error e (t.inFront (k.token :: k.left)) →
      r' = .error e (t.inFront (k.token :: k.right)) → Parallel k q q')
    (hleft : (finalState q).unread.length ≤ (finalState r).unread.length)
    (hright : (finalState q').unread.length ≤ (finalState r').unread.length) :
    Parallel k q q' := by
  cases h with
  | ok a t => exact hok a t rfl rfl
  | error e t => exact herror e t rfl rfl
  | past hle hle' => exact .past (Nat.le_trans hleft hle) (Nat.le_trans hright hle')

theorem Alike.bind (hp : Alike k s p) (hshrinks : ∀ a, Shrinks (f a))
    (hf : ∀ a t, p (s.inFront (k.token :: k.left)) = .ok a (t.inFront (k.token :: k.left)) →
      Alike k t (f a)) : Alike k s (p >>= f) := by
  refine Parallel.goOn hp (fun a t hl hr => ?_) (fun e t hl hr => ?_) (length_bind_le hshrinks _)
    (length_bind_le hshrinks _)
  · rw [bind_of_ok hl, bind_of_ok hr]
    exact hf a t hl
  · rw [bind_of_error hl, bind_of_error hr]
    exact .error e t

/-- Between the states in front of the fork no token has been put back. -/
theorem Shrinks.length_le (hp : Shrinks p) {a : α} {ts : List Token}
    (h : p (s.inFront ts) = .ok a (t.inFront ts)) : t.unread.length ≤ s.unread.length := by
  have hle : (t.inFront ts).unread.length ≤ (s.inFront ts).unread.length := by
    have hle := hp (s.inFront ts)
    rw [h] at hle
    exact hle
  rw [State.length_inFront, State.length_inFront] at hle
  exact Nat.le_of_add_le_add_right hle

theorem OneAhead.bind (hp : OneAhead k n p) (hf : ∀ a, OneAhead k n (f a)) :
    OneAhead k n (p >>= f) where
  shrinks := hp.shrinks.bind fun a => (hf a).shrinks
  alike s hs := (hp.alike s hs).bind (fun a => (hf a).shrinks) fun a t h =>
    (hf a).alike t (Nat.le_trans (hp.shrinks.length_le h) hs)

/-- A step that chooses between two others. -/
theorem OneAhead.choose {c : Parse Bool} {p' : Parse α} (hc : OneAhead k n c)
    (hp : OneAhead k n p) (hp' : OneAhead k n p') : OneAhead k n (do if ← c then p else p') := by
  refine hc.bind fun chosen => ?_
  cases chosen with
  | true => exact hp
  | false => exact hp'

theorem OneAhead.ite {c : Prop} [Decidable c] {p' : Parse α} (hp : OneAhead k n p)
    (hp' : OneAhead k n p') : OneAhead k n (if c then p else p') := by
  split
  · exact hp
  · exact hp'

/-- More tokens mean more levels, and these change nothing. -/
theorem OneAhead.bounded {p : Nat → Parse α} (hsteady : Steady p)
    (hp : ∀ m, OneAhead k n (p m)) : OneAhead k n (bounded p) where
  shrinks s := (hp s.unread.length).shrinks s
  alike s hs := by
    have hleft := hsteady (max k.left.length k.right.length + (n + 1))
      (s.inFront (k.token :: k.left)) (by rw [State.length_inFront, List.length_cons]; omega)
    have hright := hsteady (max k.left.length k.right.length + (n + 1))
      (s.inFront (k.token :: k.right)) (by rw [State.length_inFront, List.length_cons]; omega)
    unfold Alike
    rw [← hleft, ← hright]
    exact (hp _).alike s hs

end Composition

section Smallest

/-- A step that moves no token and does not look at any. -/
theorem OneAhead.of_still {p : Parse α} {f : State → α} {g : State → State}
    (h : ∀ s, p s = .ok (f s) (g s)) (hunread : ∀ s, (g s).unread = s.unread)
    (hf : ∀ s ts, f (State.inFront s ts) = f s)
    (hg : ∀ s ts, g (State.inFront s ts) = (g s).inFront ts) : OneAhead k n p where
  shrinks s := by
    rw [h]
    exact Nat.le_of_eq (congrArg List.length (hunread s))
  alike s _ := .of_ok (f s) (t := g s) fun ts => by rw [h, hf, hg]

theorem oneAhead_pure (a : α) : OneAhead k n (pure a : Parse α) :=
  .of_still (f := fun _ => a) (g := id) (fun _ => rfl) (fun _ => rfl) (fun _ _ => rfl)
    fun _ _ => rfl

theorem oneAhead_fail (cause : Cause) (pos : Position) : OneAhead k n (fail cause pos : Parse α) :=
  ⟨fun _ => Nat.le_refl _, fun s _ => .of_error ⟨cause, pos⟩ (t := s) fun _ => rfl⟩

theorem oneAhead_failAtEnd (expected : Expected) :
    OneAhead k n (failAtEnd expected : Parse α) :=
  ⟨fun _ => Nat.le_refl _, fun s _ =>
    .of_error ⟨.unexpectedEnd expected, s.endPosition⟩ (t := s) fun _ => rfl⟩

theorem oneAhead_report (cause : Cause) (pos : Position) :
    OneAhead k n (report cause pos) := by
  refine .of_still (f := fun _ => ()) (g := fun s => s.report ⟨cause, pos⟩) (fun _ => rfl)
    (fun s => ?_) (fun _ _ => rfl) fun s ts => State.inFront_report _
  unfold State.report
  split <;> rfl

theorem oneAhead_tables : OneAhead k n tables :=
  .of_still (f := State.tables) (g := id) (fun _ => rfl) (fun _ => rfl) (fun _ _ => rfl)
    fun _ _ => rfl

theorem oneAhead_newEntry {γ : Type} (decl : γ) : OneAhead k n (newEntry decl) :=
  .of_still (f := fun s => ⟨s.nextId, decl⟩) (g := fun s => { s with nextId := s.nextId + 1 })
    (fun _ => rfl) (fun _ => rfl) (fun _ _ => rfl) fun _ _ => rfl

theorem oneAhead_declare (symbol : Symbol) : OneAhead k n (declare symbol) :=
  .of_still (f := fun s => s.tables.shadows symbol)
    (g := fun s => { s with tables := s.tables.declare symbol }) (fun _ => rfl) (fun _ => rfl)
    (fun _ _ => rfl) fun _ _ => rfl

theorem oneAhead_currentBinding (e : Entry (Binding Expr)) : OneAhead k n (currentBinding e) :=
  .of_still (f := fun s => (s.tables.vars.get? e.id).getD e.decl) (g := id) (fun _ => rfl)
    (fun _ => rfl) (fun _ _ => rfl) fun _ _ => rfl

theorem oneAhead_currentImpl (e : Entry (Impl Expr)) : OneAhead k n (currentImpl e) :=
  .of_still (f := fun s => (s.tables.impls.get? e.id).getD e.decl) (g := id) (fun _ => rfl)
    (fun _ => rfl) (fun _ _ => rfl) fun _ _ => rfl

theorem oneAhead_rebind (e : Entry (Binding Expr)) (value : Expr) :
    OneAhead k n (rebind e value) :=
  .of_still (f := fun _ => ()) (g := fun s => s.rebind e value) (fun _ => rfl) (fun _ => rfl)
    (fun _ _ => rfl) fun _ _ => rfl

theorem oneAhead_addProc (e : Entry (Impl Expr)) (proc : Proc Expr) :
    OneAhead k n (addProc e proc) :=
  .of_still (f := fun _ => ()) (g := fun s => s.addProc e proc) (fun _ => rfl) (fun _ => rfl)
    (fun _ _ => rfl) fun _ _ => rfl

theorem oneAhead_completeProc : OneAhead k n completeProc :=
  .of_still (f := State.completed) (g := fun s => { s with completed := s.completed + 1 })
    (fun _ => rfl) (fun _ => rfl) (fun _ _ => rfl) fun _ _ => rfl

theorem oneAhead_leaveClosedBlock : OneAhead k n leaveClosedBlock := by
  refine .of_still (f := fun s => decide (s.closedBlocks ≠ 0))
    (g := fun s => { s with closedBlocks := s.closedBlocks - 1 }) (fun s => ?_) (fun _ => rfl)
    (fun _ _ => rfl) fun _ _ => rfl
  unfold leaveClosedBlock
  split
  case isTrue h =>
    obtain ⟨⟩ := s
    simp only at h
    subst h
    rfl
  case isFalse h => rw [decide_eq_true h]

section Variables

variable {bindings : List (Binding Expr)} {p : List (Entry (Binding Expr)) → Parse α}

/-- What is declared for a while moves no token. -/
theorem unread_withVariables : (finalState (withVariables bindings p s)).unread =
    (finalState (p (s.entriesFor bindings) (s.openScope bindings))).unread := by
  rw [finalState_withVariables]
  rfl

/-- A step while some variables are declared. -/
theorem oneAhead_withVariables (bindings : List (Binding Expr))
    {p : List (Entry (Binding Expr)) → Parse α} (h : ∀ entries, OneAhead k n (p entries)) :
    OneAhead k n (withVariables bindings p) where
  shrinks s := by
    rw [unread_withVariables]
    exact (h (s.entriesFor bindings)).shrinks (s.openScope bindings)
  alike s hs := by
    have hle (u : State) : (finalState (withVariables bindings p u)).unread.length ≤ _ :=
      Nat.le_of_eq (congrArg List.length unread_withVariables)
    refine Parallel.goOn ((h (s.entriesFor bindings)).alike (s.openScope bindings) hs)
      (fun a t hl hr => ?_) (fun e t hl hr => ?_) (hle _) (hle _)
    · rw [withVariables_of_ok hl, withVariables_of_ok hr]
      exact .ok a (t.closeScope _)
    · rw [withVariables_of_error hl, withVariables_of_error hr]
      exact .error e (t.closeScope _)

end Variables

end Smallest

section Tokens

theorem State.inFront_unread_of_nil (h : s.unread = []) (ts : List Token) :
    (s.inFront ts).unread = ts := by
  unfold inFront
  rw [h]
  rfl

theorem State.inFront_unread_of_cons {tok : Token} {rest : List Token} (h : s.unread = tok :: rest)
    (ts : List Token) : (s.inFront ts).unread = tok :: (rest ++ ts) := by
  unfold inFront
  rw [h]
  rfl

/-- The token that is looked at is the same in front of both ways to go on. -/
theorem State.head?_inFront (ts : List Token) :
    (s.inFront (k.token :: ts)).unread.head? = (s.unread ++ [k.token]).head? := by
  cases hunread : s.unread with
  | nil => rw [inFront_unread_of_nil hunread]; rfl
  | cons tok rest => rw [inFront_unread_of_cons hunread]; rfl

theorem oneAhead_peek : OneAhead k n peek where
  shrinks _ := Nat.le_refl _
  alike s _ := .of_ok (s.unread ++ [k.token]).head? (t := s) fun ts =>
    congrArg (EStateM.Result.ok · _) (State.head?_inFront ts)

theorem oneAhead_check (kind : TokenKind) : OneAhead k n (check kind) where
  shrinks _ := Nat.le_refl _
  alike s _ := by
    refine .of_ok ((s.unread ++ [k.token]).head?.any fun t => decide (t.kind = kind)) (t := s)
      fun ts => ?_
    unfold check
    rw [State.head?_inFront]

theorem shrinks_advance : Shrinks advance :=
  shrinks_of_relates fun n => (readingLaw_loose n).relates_advance

theorem shrinks_accept (kind : TokenKind) : Shrinks (accept kind) := by
  intro s
  rcases accept_eq (k := kind) s with ⟨t, rest, hunread, -, haccept⟩ | ⟨-, haccept⟩
  · rw [haccept]
    exact (State.Later.consume hunread).length_le
  · rw [haccept]
    exact Nat.le_refl _

theorem oneAhead_advance : OneAhead k n advance where
  shrinks := shrinks_advance
  alike s _ := by
    cases hunread : s.unread with
    | nil =>
      refine .of_past fun ts => ?_
      rw [advance_of_cons (State.inFront_unread_of_nil hunread _)]
      exact Nat.le_refl _
    | cons tok rest =>
      exact .of_ok tok (t := s.consume tok rest) fun ts =>
        advance_of_cons (State.inFront_unread_of_cons hunread _)

theorem oneAhead_accept (kind : TokenKind) : OneAhead k n (accept kind) where
  shrinks := shrinks_accept kind
  alike s _ := by
    cases hunread : s.unread with
    | nil =>
      by_cases hk : k.token.kind = kind
      · refine .of_past fun ts => ?_
        rw [accept_of_eq (State.inFront_unread_of_nil hunread _) hk]
        exact Nat.le_refl _
      · exact .of_ok false (t := s) fun ts =>
          accept_of_ne (State.inFront_unread_of_nil hunread _) hk
    | cons tok rest =>
      by_cases hk : tok.kind = kind
      · exact .of_ok true (t := s.consume tok rest) fun ts =>
          accept_of_eq (State.inFront_unread_of_cons hunread _) hk
      · exact .of_ok false (t := s) fun ts =>
          accept_of_ne (State.inFront_unread_of_cons hunread _) hk

theorem oneAhead_expect (kind : TokenKind) : OneAhead k n (expect kind) where
  shrinks := shrinks_of_relates fun n => (readingLaw_loose n).relates_expect kind
  alike s _ := by
    cases hunread : s.unread with
    | nil =>
      by_cases hk : k.token.kind = kind
      · refine .of_past fun ts => ?_
        rw [expect_of_cons (State.inFront_unread_of_nil hunread _) hk]
        exact Nat.le_refl _
      · exact .of_error _ (t := s) fun ts =>
          expect_of_ne (State.inFront_unread_of_nil hunread _) hk
    | cons tok rest =>
      by_cases hk : tok.kind = kind
      · exact .of_ok tok (t := s.consume tok rest) fun ts =>
          expect_of_cons (State.inFront_unread_of_cons hunread _) hk
      · exact .of_error _ (t := s) fun ts =>
          expect_of_ne (State.inFront_unread_of_cons hunread _) hk

end Tokens
end ScriptFront
