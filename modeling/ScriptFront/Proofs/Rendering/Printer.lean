import ScriptFront.Tree.Printer

/-!
# Writing with a counter of blocks

Each block takes its count back behind its last line, so that each expression leaves the counter as
it was.  What is written then is the readable form at that depth, and nothing that was written
before has a part in it.

**Results.**

* `Printer.visit_run`: an expression is written as at its depth, and the counter is the same behind
  it.
* `Printer.visit_run_behind`: what was written before leaves no trace.
* `Printer.print_run`, `Printer.printProgram_run`: outside of all blocks, whatever the counter was.
-/

namespace ScriptFront

namespace Printer

open ScriptFront.Expr

section Steps

variable {α β : Type} {depth depth' : Nat}

theorem run_bind {p : Printer α} {f : α → Printer β} {a : α} (h : p.run depth = (a, depth')) :
    (p >>= f).run depth = (f a).run depth' := by
  rw [StateT.run_bind, h]
  rfl

theorem line_run {p : Printer String} {text : String} (h : p.run depth = (text, depth)) :
    (line p).run depth = (indent depth ++ text, depth) :=
  run_bind (f := fun text => (return indent depth ++ text : Printer String)) h

theorem headed_run (head : String) {p : Printer String} {text : String}
    (h : p.run depth = (text, depth)) : (headed head p).run depth = (head ++ text, depth) :=
  run_bind (f := fun text => (return head ++ text : Printer String)) h

theorem close_run (lines : List String) : (close lines).run (depth + 1) =
    ("[\n" ++ "\n".intercalate lines ++ "\n" ++ indent depth ++ "]", depth) :=
  rfl

/-- A block counts itself while its lines are written. -/
theorem block_run {isEmpty : Bool} {p : Printer (List String)} {lines : List String}
    (h : p.run (depth + 1) = (lines, depth + 1)) (hempty : lines.isEmpty = isEmpty) :
    (block isEmpty p).run depth = (blockText depth lines, depth) := by
  subst hempty
  unfold block blockText
  split
  · rfl
  · exact (run_bind h).trans (close_run lines)

theorem isEmpty_statementLines (depth : Nat) (es : List Expr) :
    (statementLines depth es).isEmpty = es.isEmpty := by
  cases es <;> rfl

theorem isEmpty_procLines (depth : Nat) (ps : List (Proc Expr)) :
    (procLines depth ps).isEmpty = ps.isEmpty := by
  cases ps <;> rfl

end Steps

mutual

/-- An expression is written as at its depth, and the counter is the same behind it. -/
theorem visit_run (e : Expr) (depth : Nat) : (visit e).run depth = (e.render depth, depth) := by
  match e with
  | .literal .. | .structDef .. | .returnStatement _ none => rfl
  | .reference _ ⟨_, _, value⟩ | .letStatement _ _ _ value | .assign _ _ value
  | .returnStatement _ (some value) | .fieldAssign _ _ _ value | .fieldAccess _ _ ⟨_, _, value⟩ =>
    exact run_bind (visit_run value depth)
  | .range _ first second | .binary _ first _ second =>
    exact (run_bind (visit_run first depth)).trans (run_bind (visit_run second depth))
  | .call _ _ bindings | .implCall _ _ _ _ bindings | .structInstance _ ⟨_, bindings⟩ =>
    exact run_bind (visitBindings_run bindings depth)
  | .ifStatement _ head body | .whileStatement _ head body | .forLoop _ _ head body =>
    have hbody := block_run (visitLines_run body (depth + 1)) (isEmpty_statementLines _ body)
    exact (run_bind (visit_run head depth)).trans (run_bind hbody)
  | .procDef ⟨_, _, _, _, _, body⟩ =>
    have hbody := block_run (visitLines_run body (depth + 1)) (isEmpty_statementLines _ body)
    exact headed_run _ hbody
  | .implBlock _ _ ⟨_, procs⟩ =>
    exact run_bind (block_run (visitProcs_run procs (depth + 1)) (isEmpty_procLines _ procs))

theorem visitLines_run (es : List Expr) (depth : Nat) :
    (visitLines es).run depth = (statementLines depth es, depth) := by
  match es with
  | [] => rfl
  | e :: es =>
    exact (run_bind (line_run (visit_run e depth))).trans (run_bind (visitLines_run es depth))

theorem visitProcs_run (ps : List (Proc Expr)) (depth : Nat) :
    (visitProcs ps).run depth = (procLines depth ps, depth) := by
  match ps with
  | [] => rfl
  | ⟨_, _, _, _, _, body⟩ :: ps =>
    have hbody := block_run (visitLines_run body (depth + 1)) (isEmpty_statementLines _ body)
    exact (run_bind (line_run (headed_run _ hbody))).trans (run_bind (visitProcs_run ps depth))

theorem visitBindings_run (bs : List (Binding Expr)) (depth : Nat) :
    (visitBindings bs).run depth = (bindingTexts depth bs, depth) := by
  match bs with
  | [] => rfl
  | ⟨_, _, value⟩ :: bs =>
    exact (run_bind (visit_run value depth)).trans (run_bind (visitBindings_run bs depth))

end

section Programs

/-- Expressions that are written one behind the other find the same counter. -/
theorem mapM_visit_run (es : List Expr) (depth : Nat) :
    (es.mapM visit).run depth = (es.map (·.render depth), depth) := by
  induction es with
  | nil => rfl
  | cons e es ih =>
    rw [List.mapM_cons]
    exact (run_bind (visit_run e depth)).trans (run_bind ih)

/-- What was written before leaves no trace. -/
theorem visit_run_behind (es : List Expr) (e : Expr) (depth : Nat) :
    (es.mapM visit >>= fun _ => visit e).run depth = (visit e).run depth :=
  run_bind (mapM_visit_run es depth)

/-- An expression is written in the same way whatever was written before. -/
theorem print_run (e : Expr) (depth : Nat) : (print e).run depth = (e.render 0, 0) :=
  (run_bind (show (set 0 : Printer PUnit).run depth = (⟨⟩, 0) from rfl)).trans (visit_run e 0)

theorem mapM_print_run (p : Program) (depth : Nat) :
    (p.mapM print).run depth = (p.map (·.render 0), if p.isEmpty then depth else 0) := by
  induction p generalizing depth with
  | nil => rfl
  | cons e es ih =>
    rw [List.mapM_cons]
    have hothers : (es.mapM print).run 0 = (es.map (·.render 0), 0) := by
      rw [ih, ite_self]
    exact (run_bind (print_run e depth)).trans (run_bind hothers)

theorem printProgram_run (p : Program) (depth : Nat) :
    ((printProgram p).run depth).1 = p.render := by
  have hrun : (printProgram p).run depth = _ := run_bind (mapM_print_run p depth)
  rw [hrun]
  unfold Program.render
  rw [List.map_map]
  rfl

end Programs
end Printer
end ScriptFront
