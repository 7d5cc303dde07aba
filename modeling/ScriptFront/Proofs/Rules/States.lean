import ScriptFront.Proofs.Rules.Programs

/-!
# Rules of a property of states

A property of states in which nothing is said of expressions has few rules: how a token is read, how
a step fails, and what is written down in the tables.

**Results.**

* `StateRules.statementRules`: with these rules every reader of statements keeps the property.
-/

namespace ScriptFront

namespace State

variable (s : State) (p : Problem)

theorem tables_report : (s.report p).tables = s.tables ∧ (s.report p).nextId = s.nextId := by
  unfold report
  split <;> exact ⟨rfl, rfl⟩

/-- Going on after a problem writes nothing down in the tables. -/
theorem tables_recover (depth : Nat) :
    (s.recover depth p).tables = s.tables ∧ (s.recover depth p).nextId = s.nextId := by
  unfold recover
  simp only
  split <;> exact tables_report s p

end State

/-- A property of states that the reading of statements keeps, given that blocks keep it. -/
structure StateRules where
  holds : State → Prop
  failed : Problem → State → Prop
  read {s : State} {t : Token} {rest : List Token} :
    holds s → s.unread = t :: rest → t.kind ≠ .semicolon → holds (s.consume t rest)
  fail {s : State} {p : Problem} : p.cause.isUnexpectedEnd = false → holds s → failed p s
  failAtEnd {s : State} (expected : Expected) :
    holds s → s.unread = [] → failed ⟨.unexpectedEnd expected, s.endPosition⟩ s
  stop {s : State} {t : Token} {rest : List Token} (context : String) :
    holds s → s.Awaits → s.unread = t :: rest →
    failed ⟨.invalidExpression context t.lexeme, t.pos⟩ (s.consume t rest)
  assigned {s t u : State} {name field : Token} {e : Entry (Binding Expr)} {v : Instance Expr}
    {b : Binding Expr} {value : Expr} :
    holds s → s.ReadsTarget name field e v b t → Parse.expr t = .ok value u → holds u →
    holds (u.assignField e v field.lexeme value)
  report {s : State} {p : Problem} : p.cause.isUnexpectedEnd = false → holds s → holds (s.report p)
  declare {s : State} {symbol : Nat → Symbol} :
    (∀ id, (symbol id).id = id) → holds s → holds (s.declareNext symbol)
  addProc {s : State} (e : Entry (Impl Expr)) (proc : Proc Expr) :
    holds s → holds (s.addProc e proc)
  complete {s : State} : holds s → holds { s with completed := s.completed + 1 }
  openScope {s : State} (bindings : List (Binding Expr)) :
    holds s → holds (s.openScope bindings)
  close {s : State} (entries : List (Entry (Binding Expr))) :
    holds s → holds (s.closeScope entries)
  failed_close {s : State} {p : Problem} (entries : List (Entry (Binding Expr))) :
    failed p s → failed p (s.closeScope entries)

namespace StateRules

/-- The rules of statements, in which nothing is asked of expressions and statements. -/
def statementRules (I : StateRules) : StatementRules where
  toExprRules := .ofStates I.holds I.failed I.read I.fail I.failAtEnd I.stop I.assigned
  statement _ := True
  report := I.report
  declareVariable _ _ hs _ := I.declare (fun _ => rfl) hs
  declareStruct _ hs := I.declare (fun _ => rfl) hs
  declareProcedure hs _ := I.declare (fun _ => rfl) hs
  declareImpl _ hs := I.declare (fun _ => rfl) hs
  addProc e hs _ := I.addProc e _ hs
  complete := I.complete
  openParameters _ _ hs := I.openScope _ hs
  openCounter _ _ _ _ ht := I.openScope _ ht
  close := I.close
  failed_close := I.failed_close
  statement_of_value _ := trivial
  letStatement _ _ _ _ := trivial
  bareReturn _ := trivial
  returnStatement _ _ := trivial
  ifStatement _ _ _ _ := trivial
  whileStatement _ _ _ _ := trivial
  forLoop _ _ _ _ _ _ _ := trivial
  structDef _ _ := trivial
  procDef _ := trivial
  implBlock _ _ _ := trivial

end StateRules
end ScriptFront
