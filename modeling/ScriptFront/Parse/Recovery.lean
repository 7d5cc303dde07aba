import ScriptFront.Parse.State

/-!
# Going on after an error

After an error the rest of the statement is skipped.  Which tokens are skipped depends on the
unread tokens only, so both ways of skipping are functions that split a list of tokens.

**Results.**

* `splitAtBoundary_append` and `splitAtClose_append`: skipping only splits the unread tokens.
-/

namespace ScriptFront

/--
The tokens up to the next boundary of a statement, `depth` braces inside of it: past a semicolon,
or in front of a keyword that starts a statement or of the brace that closes the block around it.
Inside of braces nothing is a boundary but the brace that closes the last of them.
-/
def splitAtBoundary : Nat → List Token → List Token × List Token
  | _, [] => ([], [])
  | depth, t :: ts =>
    let skipping (d : Nat) := (t :: (splitAtBoundary d ts).1, (splitAtBoundary d ts).2)
    if depth = 0 ∧ t.kind.startsStatement then ([], t :: ts)
    else
      match t.kind with
      | .rightBrace =>
        if depth = 0 then ([], t :: ts)
        else if depth = 1 then ([t], ts)
        else skipping (depth - 1)
      | .leftBrace => skipping (depth + 1)
      | .semicolon => if depth = 0 then ([t], ts) else skipping depth
      | _ => skipping depth

/--
The tokens up to the brace that closes the block around them and the tokens after it; there are no
such tokens when the block is not closed.
-/
def splitAtClose : Nat → List Token → List Token × Option (List Token)
  | _, [] => ([], none)
  | depth, t :: ts =>
    let skipping (d : Nat) := (t :: (splitAtClose d ts).1, (splitAtClose d ts).2)
    match t.kind with
    | .rightBrace => if depth = 0 then ([t], some ts) else skipping (depth - 1)
    | .leftBrace => skipping (depth + 1)
    | _ => skipping depth

theorem splitAtBoundary_append (depth : Nat) (ts : List Token) :
    (splitAtBoundary depth ts).1 ++ (splitAtBoundary depth ts).2 = ts := by
  induction ts generalizing depth with
  | nil => rfl
  | cons t ts ih =>
    simp only [splitAtBoundary]
    split
    · rfl
    · split
      · split
        · rfl
        · split
          · rfl
          · simp [ih]
      · simp [ih]
      · split
        · rfl
        · simp [ih]
      · simp [ih]

theorem splitAtClose_append (depth : Nat) (ts : List Token) :
    (splitAtClose depth ts).1 ++ (splitAtClose depth ts).2.getD [] = ts := by
  induction ts generalizing depth with
  | nil => rfl
  | cons t ts ih =>
    simp only [splitAtClose]
    split
    · split
      · rfl
      · simp [ih]
    · simp [ih]
    · simp [ih]

namespace State

/-- Skips to the next boundary of a statement, `depth` braces inside of it. -/
def skipToBoundary (s : State) (depth : Nat) : State :=
  let parts := splitAtBoundary depth s.unread
  s.consumeAll parts.1 parts.2

/--
Goes on after a problem in a statement that began with `depth` open braces.  If the statement read
past the end of the block around it, that block is ended; otherwise the rest of the statement is
skipped with the braces that it opened.
-/
def recover (s : State) (depth : Nat) (p : Problem) : State :=
  let s := s.report p
  if s.braceDepth < depth then { s with closedBlocks := depth - s.braceDepth }
  else s.skipToBoundary (s.braceDepth - depth)

end State

namespace Parse

/-- Skips past the brace that closes the current block. -/
def skipToClose : Parse Unit := fun s =>
  match splitAtClose 0 s.unread with
  | (skipped, some rest) => .ok () (s.consumeAll skipped rest)
  | (skipped, none) => failAtEnd (.words "more input") (s.consumeAll skipped [])

/-- Leaves the current block if a failed statement inside of it used up its closing brace. -/
def leaveClosedBlock : Parse Bool := fun s =>
  if s.closedBlocks = 0 then .ok false s
  else .ok true { s with closedBlocks := s.closedBlocks - 1 }

end Parse
end ScriptFront
