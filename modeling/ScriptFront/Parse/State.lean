import ScriptFront.Diagnostic.Problem
import ScriptFront.Names.Suggest
import ScriptFront.Symbol.Tables
import ScriptFront.Token.Cursor
import ScriptFront.Tree.Instance

/-!
# The state in which programs are read

Programs are read token by token.  The state holds the tokens read and those still to be read, how
many braces are open, the tables, and the problems reported so far.  A reading step either gives a
result or fails with a problem, and in both cases leaves a state behind.

**Results.**

* `Parse.bind_eq_ok_iff`, `Parse.bind_eq_error_iff`: the outcomes of two steps in a row.
* `Parse.advance_eq_ok_iff`, `Parse.expect_eq_ok_iff`, `Parse.accept_eq`: the steps that read one
  token.
-/

namespace ScriptFront

/-- What is known while a program is read. -/
structure State where
  /-- The tokens read so far, the last one first. -/
  read : List Token := []
  /-- The tokens still to be read. -/
  unread : List Token
  /-- The place after the last character of the text. -/
  finish : Position
  /-- The number of open braces. -/
  braceDepth : Nat := 0
  /-- The number of blocks whose closing brace a failed statement has used up. -/
  closedBlocks : Nat := 0
  tables : Tables := {}
  /-- The problems reported so far, oldest first. -/
  problems : List Problem := []
  /-- The identity of the next declaration. -/
  nextId : Nat := 0
  /-- How many procedures are complete. -/
  completed : Nat := 0

/-- The number of open braces after one more token; a brace too many closes nothing. -/
def depthAfter (depth : Nat) (t : Token) : Nat :=
  match t.kind with
  | .leftBrace => depth + 1
  | .rightBrace => depth - 1
  | _ => depth

namespace State

/-- The state in front of the first token of a source text. -/
def ofSource (file : String) (source : List Char) : State :=
  { unread := tokenize file source, finish := endOfText file source }

/-- Moves one token from the unread to the read ones. -/
def consume (s : State) (t : Token) (rest : List Token) : State :=
  { s with read := t :: s.read, unread := rest, braceDepth := depthAfter s.braceDepth t }

/-- Moves several tokens from the unread to the read ones. -/
def consumeAll (s : State) (ts rest : List Token) : State :=
  { s with
    read := ts.reverse ++ s.read
    unread := rest
    braceDepth := ts.foldl depthAfter s.braceDepth }

/-- All tokens, read or not, in the order of the text. -/
def tokens (s : State) : List Token :=
  s.read.reverse ++ s.unread

/-- Where an input that ends too early is said to end: at its last token, if it has one. -/
def endPosition (s : State) : Position :=
  match s.read with
  | t :: _ => t.pos
  | [] => s.finish

/-- A problem at the end of the input has been reported. -/
def endReported (s : State) : Bool :=
  s.problems.any fun p => p.cause.isUnexpectedEnd

/-- Reports a problem; the end of the input is reported only once. -/
def report (s : State) (p : Problem) : State :=
  if p.cause.isUnexpectedEnd && s.endReported then s
  else { s with problems := s.problems ++ [p] }

/-- The diagnostics reported so far. -/
def diagnostics (s : State) : List Diagnostic :=
  s.problems.map Problem.diagnostic

/-- New entries for declarations, with identities not used before. -/
def entriesFor {α : Type} (s : State) (decls : List α) : List (Entry α) :=
  decls.zipIdx.map fun (decl, i) => ⟨s.nextId + i, decl⟩

/-- The state with variables that are declared for a while. -/
def openScope (s : State) (bindings : List (Binding Expr)) : State :=
  { s with
    nextId := s.nextId + bindings.length
    tables := { s.tables with vars := s.tables.vars.declareAll (s.entriesFor bindings) } }

/-- The state without variables that were declared for a while. -/
def closeScope (s : State) (entries : List (Entry (Binding Expr))) : State :=
  { s with tables := { s.tables with vars := s.tables.vars.eraseAll entries } }

/-- The state in which a variable is bound to another value. -/
def rebind (s : State) (e : Entry (Binding Expr)) (value : Expr) : State :=
  { s with
    tables := { s.tables with vars := s.tables.vars.update e.id (·.rebind value) } }

/-- The state in which an impl block has one more procedure. -/
def addProc (s : State) (e : Entry (Impl Expr)) (p : Proc Expr) : State :=
  { s with
    tables := { s.tables with
      impls := s.tables.impls.update e.id fun block =>
        { block with procs := block.procs ++ [p] } } }

theorem tokens_consume {s : State} {t : Token} {rest : List Token} (h : s.unread = t :: rest) :
    (s.consume t rest).tokens = s.tokens := by
  simp [tokens, consume, h]

end State

/-- A step of reading a program. -/
abbrev Parse := EStateM Problem State

namespace Parse

variable {α : Type}

theorem bind_of_ok {β : Type} {p : Parse α} {f : α → Parse β} {s s' : State} {a : α}
    (h : p s = .ok a s') : (p >>= f) s = f a s' := by
  simp only [bind, EStateM.bind, h]

theorem bind_of_error {β : Type} {p : Parse α} {f : α → Parse β} {s s' : State} {e : Problem}
    (h : p s = .error e s') : (p >>= f) s = .error e s' := by
  simp only [bind, EStateM.bind, h]

/-- Two steps succeed together exactly if both succeed one after the other. -/
theorem bind_eq_ok_iff {β : Type} {p : Parse α} {f : α → Parse β} {s s'' : State} {b : β} :
    (p >>= f) s = .ok b s'' ↔ ∃ a s', p s = .ok a s' ∧ f a s' = .ok b s'' := by
  cases h : p s with
  | ok a s' =>
    rw [bind_of_ok h]
    exact ⟨fun hf => ⟨a, s', rfl, hf⟩, by rintro ⟨_, _, ⟨⟩, hf⟩; exact hf⟩
  | error e s' =>
    rw [bind_of_error h]
    exact ⟨by rintro ⟨⟩, by rintro ⟨_, _, ⟨⟩, _⟩⟩

/-- Two steps fail together exactly if the first fails, or the second after it. -/
theorem bind_eq_error_iff {β : Type} {p : Parse α} {f : α → Parse β} {s s'' : State}
    {e : Problem} :
    (p >>= f) s = .error e s'' ↔
      p s = .error e s'' ∨ ∃ a s', p s = .ok a s' ∧ f a s' = .error e s'' := by
  cases h : p s with
  | ok a s' =>
    rw [bind_of_ok h]
    exact ⟨fun hf => .inr ⟨a, s', rfl, hf⟩, by rintro (⟨⟨⟩⟩ | ⟨_, _, ⟨⟩, hf⟩); exact hf⟩
  | error e' s' =>
    rw [bind_of_error h]
    exact ⟨by rintro ⟨⟩; exact .inl rfl, by rintro (⟨⟨⟩⟩ | ⟨_, _, ⟨⟩, _⟩); rfl⟩

theorem bind_congr_of_ok {β : Type} {p : Parse α} {f g : α → Parse β} {s : State}
    (h : ∀ a s', p s = .ok a s' → f a s' = g a s') : (p >>= f) s = (p >>= g) s := by
  cases hp : p s with
  | ok a s' => rw [bind_of_ok hp, bind_of_ok hp, h a s' hp]
  | error e s' => rw [bind_of_error hp, bind_of_error hp]

/-- A step that gives something has succeeded. -/
theorem exists_ok {p : Parse α} {s : State} (h : (p.run' s).isSome) : ∃ a t, p s = .ok a t := by
  unfold EStateM.run' EStateM.run at h
  cases hr : p s with
  | ok a t => exact ⟨a, t, rfl⟩
  | error e t => simp [hr] at h

/-- A step that gives nothing has failed. -/
theorem exists_error {p : Parse α} {s : State} (h : (p.run' s).isNone) :
    ∃ e t, p s = .error e t := by
  unfold EStateM.run' EStateM.run at h
  cases hr : p s with
  | ok a t => simp [hr] at h
  | error e t => exact ⟨e, t, rfl⟩

/-- Fails with a problem found at a position. -/
def fail (cause : Cause) (pos : Position) : Parse α := fun s =>
  .error ⟨cause, pos⟩ s

/-- Fails because the input has ended. -/
def failAtEnd (expected : Expected) : Parse α := fun s =>
  .error ⟨.unexpectedEnd expected, s.endPosition⟩ s

/-- Reports a problem and goes on. -/
def report (cause : Cause) (pos : Position) : Parse Unit := fun s =>
  .ok () (s.report ⟨cause, pos⟩)

/-- The next token, which stays unread. -/
def peek : Parse (Option Token) := fun s =>
  .ok s.unread.head? s

/-- Reads the next token. -/
def advance : Parse Token := fun s =>
  match s.unread with
  | [] => failAtEnd (.words "more input") s
  | t :: rest => .ok t (s.consume t rest)

/-- The next token is of a kind. -/
def check (k : TokenKind) : Parse Bool := fun s =>
  .ok (s.unread.head?.any fun t => t.kind = k) s

/-- Reads the next token if it is of a kind. -/
def accept (k : TokenKind) : Parse Bool := fun s =>
  match s.unread with
  | [] => .ok false s
  | t :: rest => if t.kind = k then .ok true (s.consume t rest) else .ok false s

/-- Reads the next token, which has to be of a kind. -/
def expect (k : TokenKind) : Parse Token := fun s =>
  match s.unread with
  | [] => failAtEnd (.kind k) s
  | t :: rest =>
    if t.kind = k then .ok t (s.consume t rest)
    else fail (.unexpectedToken (.kind k) t.lexeme) t.pos s

/-- The tables as they are now. -/
def tables : Parse Tables := fun s =>
  .ok s.tables s

/-- A new entry for a declaration. -/
def newEntry {α : Type} (decl : α) : Parse (Entry α) := fun s =>
  .ok ⟨s.nextId, decl⟩ { s with nextId := s.nextId + 1 }

/-- Appends an entry to its table; tells whether the table already had one of that name. -/
def declare (symbol : Symbol) : Parse Bool := fun s =>
  .ok (s.tables.shadows symbol) { s with tables := s.tables.declare symbol }

/-- The current binding of a variable. -/
def currentBinding (e : Entry (Binding Expr)) : Parse (Binding Expr) := fun s =>
  .ok ((s.tables.vars.get? e.id).getD e.decl) s

/-- Binds a variable to another value. -/
def rebind (e : Entry (Binding Expr)) (value : Expr) : Parse Unit := fun s =>
  .ok () (s.rebind e value)

/-- The current contents of an impl block. -/
def currentImpl (e : Entry (Impl Expr)) : Parse (Impl Expr) := fun s =>
  .ok ((s.tables.impls.get? e.id).getD e.decl) s

/-- Adds a procedure to an impl block. -/
def addProc (e : Entry (Impl Expr)) (p : Proc Expr) : Parse Unit := fun s =>
  .ok () (s.addProc e p)

/-- The number of the procedure that is completed now. -/
def completeProc : Parse Nat := fun s =>
  .ok s.completed { s with completed := s.completed + 1 }

/--
Runs a step while some variables are declared.  They are removed afterwards, whether the step
succeeds or fails; the step is given their entries.
-/
def withVariables (bindings : List (Binding Expr)) (body : List (Entry (Binding Expr)) → Parse α) :
    Parse α := fun s =>
  let entries := s.entriesFor bindings
  match body entries (s.openScope bindings) with
  | .ok a s' => .ok a (s'.closeScope entries)
  | .error p s' => .error p (s'.closeScope entries)

/-- A change of the state that cannot fail, as a step. -/
def always (f : State → α × State) : Parse α := fun s =>
  .ok (f s).1 (f s).2

/-- A step with a bound on its recursion: as many levels as there are tokens left. -/
def bounded (step : Nat → Parse α) : Parse α := fun s =>
  step s.unread.length s

section Tokens

theorem advance_eq_ok_iff {s s' : State} {t : Token} :
    advance s = .ok t s' ↔ ∃ rest, s.unread = t :: rest ∧ s' = s.consume t rest := by
  unfold advance
  cases h : s.unread with
  | nil => simp [failAtEnd]
  | cons u rest =>
    simp only [EStateM.Result.ok.injEq, List.cons.injEq]
    constructor
    · rintro ⟨rfl, rfl⟩
      exact ⟨rest, ⟨rfl, rfl⟩, rfl⟩
    · rintro ⟨rest', ⟨rfl, rfl⟩, rfl⟩
      exact ⟨rfl, rfl⟩

theorem expect_eq_ok_iff {k : TokenKind} {s s' : State} {t : Token} :
    expect k s = .ok t s' ↔
      t.kind = k ∧ ∃ rest, s.unread = t :: rest ∧ s' = s.consume t rest := by
  unfold expect
  cases h : s.unread with
  | nil => simp [failAtEnd]
  | cons u rest =>
    by_cases hk : u.kind = k
    · simp only [hk, if_true, EStateM.Result.ok.injEq, List.cons.injEq]
      constructor
      · rintro ⟨rfl, rfl⟩
        exact ⟨hk, rest, ⟨rfl, rfl⟩, rfl⟩
      · rintro ⟨_, rest', ⟨rfl, rfl⟩, rfl⟩
        exact ⟨rfl, rfl⟩
    · simp only [hk, if_false, fail, reduceCtorEq, false_iff]
      rintro ⟨ht, rest', hcons, _⟩
      injection hcons with hu _
      exact hk (hu ▸ ht)

theorem advance_of_nil {s : State} (h : s.unread = []) :
    advance s = failAtEnd (.words "more input") s := by
  simp [advance, h]

theorem advance_of_cons {s : State} {t : Token} {rest : List Token} (h : s.unread = t :: rest) :
    advance s = .ok t (s.consume t rest) := by
  simp [advance, h]

theorem expect_of_nil {k : TokenKind} {s : State} (h : s.unread = []) :
    expect k s = failAtEnd (.kind k) s := by
  simp [expect, h]

theorem expect_of_cons {k : TokenKind} {s : State} {t : Token} {rest : List Token}
    (h : s.unread = t :: rest) (hk : t.kind = k) : expect k s = .ok t (s.consume t rest) := by
  simp [expect, h, hk]

theorem expect_of_ne {k : TokenKind} {s : State} {t : Token} {rest : List Token}
    (h : s.unread = t :: rest) (hk : t.kind ≠ k) :
    expect k s = fail (.unexpectedToken (.kind k) t.lexeme) t.pos s := by
  simp [expect, h, hk]

theorem accept_of_nil {k : TokenKind} {s : State} (h : s.unread = []) :
    accept k s = .ok false s := by
  simp [accept, h]

theorem accept_of_eq {k : TokenKind} {s : State} {t : Token} {rest : List Token}
    (h : s.unread = t :: rest) (hk : t.kind = k) : accept k s = .ok true (s.consume t rest) := by
  simp [accept, h, hk]

theorem accept_of_ne {k : TokenKind} {s : State} {t : Token} {rest : List Token}
    (h : s.unread = t :: rest) (hk : t.kind ≠ k) : accept k s = .ok false s := by
  simp [accept, h, hk]

theorem check_of_nil {k : TokenKind} {s : State} (h : s.unread = []) :
    check k s = .ok false s := by
  simp [check, h]

theorem check_of_cons {k : TokenKind} {s : State} {t : Token} {rest : List Token}
    (h : s.unread = t :: rest) : check k s = .ok (t.kind = k) s := by
  simp [check, h]

theorem peek_of_nil {s : State} (h : s.unread = []) : peek s = .ok none s := by
  simp [peek, h]

theorem peek_of_cons {s : State} {t : Token} {rest : List Token} (h : s.unread = t :: rest) :
    peek s = .ok (some t) s := by
  simp [peek, h]

/-- A token that is expected and not found stays. -/
theorem expect_error {k : TokenKind} {s s' : State} {p : Problem}
    (h : expect k s = .error p s') : s' = s ∧ p.cause.stage = .grammatical := by
  unfold expect at h
  split at h
  · injection h with hp hs
    rw [← hp]
    exact ⟨hs.symm, rfl⟩
  · split at h
    · cases h
    · injection h with hp hs
      rw [← hp]
      exact ⟨hs.symm, rfl⟩

/-- A token that is asked for is read; any other one stays. -/
theorem accept_eq {k : TokenKind} (s : State) :
    (∃ t rest, s.unread = t :: rest ∧ t.kind = k ∧ accept k s = .ok true (s.consume t rest)) ∨
      ((∀ t ∈ s.unread.head?, t.kind ≠ k) ∧ accept k s = .ok false s) := by
  unfold accept
  cases h : s.unread with
  | nil => exact .inr ⟨by simp, rfl⟩
  | cons t rest =>
    by_cases hk : t.kind = k
    · exact .inl ⟨t, rest, rfl, hk, by simp [hk]⟩
    · exact .inr ⟨by simpa using hk, by simp [hk]⟩

end Tokens

end Parse
end ScriptFront
