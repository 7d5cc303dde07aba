import ScriptFront.Names.EditDistance

/-!
# Suggestions for a misspelt name

Of the names that are known where a name was not found, the closest ones are offered: each name
once, no farther away than a limit, nearest first and otherwise in the given order, at most three.
-/

namespace ScriptFront
namespace Names

/-- The distinct candidates within a distance of a name, each with its distance. -/
def scored (name : String) (candidates : List String) (limit : Int) : List (Nat × String) :=
  (candidates.eraseDups.map fun candidate =>
      (editDistance name.toList candidate.toList, candidate)).filter fun entry =>
    decide ((entry.1 : Int) ≤ limit)

/-- The candidates to offer in place of a name. -/
def suggest (name : String) (candidates : List String) (limit : Int) : List String :=
  (((scored name candidates limit).mergeSort fun a b => a.1 ≤ b.1).take 3).map Prod.snd

/-- The distance up to which a name is taken for a misspelling. -/
def defaultLimit : Int := 2

end Names
end ScriptFront
