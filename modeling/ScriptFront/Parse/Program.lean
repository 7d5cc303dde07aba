import ScriptFront.Parse.Statement

/-!
# Reading programs

A program is read statement by statement until no token is left.  Reading always ends with a
program: the statements in which no error was found.
-/

namespace ScriptFront

namespace State

/-- Reads statements, at most as many as given, while there are tokens. -/
def statementsUpTo : Nat → State → List (Option Expr × State)
  | 0, _ => []
  | n + 1, s =>
    match s.unread with
    | [] => []
    | _ :: _ =>
      let next := Parse.statement s
      next :: statementsUpTo n next.2

/-- Each statement that is left, with the state after it. -/
def statements (s : State) : List (Option Expr × State) :=
  s.statementsUpTo s.unread.length

end State

/-- A program that has been read up to a state. -/
structure Session where
  program : Program := []
  state : State

namespace Session

/-- Nothing has been read of a source text. -/
def ofSource (file : String) (source : List Char) : Session :=
  { state := .ofSource file source }

/-- Reads all that is left. -/
def finish (s : Session) : Session :=
  let steps := s.state.statements
  ⟨s.program ++ steps.filterMap Prod.fst, (steps.getLast?.map Prod.snd).getD s.state⟩

/-- The diagnostics reported so far. -/
def diagnostics (s : Session) : List Diagnostic :=
  s.state.diagnostics

end Session

/-- The program of a source text, with the state in which reading it ended. -/
def parseProgram (file : String) (source : List Char) : Session :=
  (Session.ofSource file source).finish

end ScriptFront
