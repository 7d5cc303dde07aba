import ScriptFront.Symbol.Tables

/-!
# Histories of tables

A history is a list of steps taken on the tables of a program.  A step may fail; then the steps
behind it in the same block are not taken, and the failure leaves one block after the other until
an attempt catches it.  A scope is one step: it declares entries, takes the steps of its block, and
removes the entries again.  It does so also where its block fails, and the failure goes on from
there.

**Input.** The tables and the steps.

**Results.** The answers in the order in which the steps end, each with the tables at that moment;
the answers of a block come before the answer of its scope.
-/

namespace ScriptFront
namespace Tables

/-- A step of a history. -/
inductive Step where
  | declare (s : Symbol)
  | erase (s : Symbol)
  | lookup (kind : SymbolKind) (name : String)
  | contains (kind : SymbolKind) (name : String)
  | size (kind : SymbolKind)
  | describe (kind : SymbolKind)
  | resolve (name : String)
  | visibleNames
  | fail
  | within (symbols : List Symbol) (block : List Step)
  | attempt (block : List Step)

/-- A scope whose block may be left early, by a failure that is caught right behind the scope. -/
def Step.scope (symbols : List Symbol) (block : List Step) (leftEarly : Bool) : Step :=
  if leftEarly then .attempt [.within symbols (block ++ [.fail])] else .within symbols block

/-- The answer to a step. -/
inductive Answer where
  | flag (b : Bool)
  | found (s : Option Symbol)
  | resolved (s : Option Symbol)
  | size (n : Nat)
  | text (s : String)
  | names (ns : List String)
  | closed (leftEarly : Bool)

/-- What taking steps comes to: the answers, the tables, and whether a failure goes on. -/
structure Ending where
  answers : List (Answer × Tables)
  tables : Tables
  failed : Bool

mutual

/-- One step. -/
def Step.run (t : Tables) : Step → Ending
  | .declare s => ⟨[(.flag (t.shadows s), t.declare s)], t.declare s, false⟩
  | .erase s => ⟨[(.flag (t.holds s), t.erase s)], t.erase s, false⟩
  | .lookup kind name => ⟨[(.found (t.lookup? kind name), t)], t, false⟩
  | .contains kind name => ⟨[(.flag (t.lookup? kind name).isSome, t)], t, false⟩
  | .size kind => ⟨[(.size (t.size kind), t)], t, false⟩
  | .describe kind => ⟨[(.text (t.describe kind), t)], t, false⟩
  | .resolve name => ⟨[(.resolved (t.resolve? name), t)], t, false⟩
  | .visibleNames => ⟨[(.names t.visibleNames, t)], t, false⟩
  | .fail => ⟨[], t, true⟩
  | .within symbols block =>
    let inside := Step.runBlock (symbols.foldl Tables.declare t) block
    let after := symbols.foldl Tables.erase inside.tables
    ⟨inside.answers ++ [(.closed inside.failed, after)], after, inside.failed⟩
  | .attempt block => { Step.runBlock t block with failed := false }

/-- Steps one after the other, up to the first one that fails. -/
def Step.runBlock (t : Tables) : List Step → Ending
  | [] => ⟨[], t, false⟩
  | step :: steps =>
    let first := Step.run t step
    if first.failed then first
    else
      let others := Step.runBlock first.tables steps
      { others with answers := first.answers ++ others.answers }

end

/-- The answers of a history, and the tables behind it. -/
def Step.runAll (t : Tables) (steps : List Step) : List (Answer × Tables) × Tables :=
  ((Step.runBlock t steps).answers, (Step.runBlock t steps).tables)

end Tables
end ScriptFront
