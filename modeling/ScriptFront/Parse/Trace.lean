import ScriptFront.Parse.Program

/-!
# Reading a program step by step

A trace holds, for each statement of a text, what it gave, which problems were reported and the
state after it.  Further statements may be tried at the end of the text; they give nothing.
-/

namespace ScriptFront

/-- One statement of a trace. -/
structure TraceStep where
  result : Option Expr
  reported : List Problem
  state : State

namespace State

/-- Tries to read statements, whether there are tokens or not. -/
def attempts : Nat → State → List (Option Expr × State)
  | 0, _ => []
  | n + 1, s =>
    let next := Parse.statement s
    next :: attempts n next.2

/-- Steps with the problems that each of them added, after `count` problems. -/
def traced (count : Nat) : List (Option Expr × State) → List TraceStep
  | [] => []
  | (e, s) :: steps => ⟨e, s.problems.drop count, s⟩ :: traced s.problems.length steps

/-- All statements that are left, and then some more at the end of the text. -/
def trace (s : State) (extra : Nat) : List TraceStep :=
  let steps := s.statements
  let last := (steps.getLast?.map Prod.snd).getD s
  traced s.problems.length (steps ++ last.attempts extra)

end State
end ScriptFront
