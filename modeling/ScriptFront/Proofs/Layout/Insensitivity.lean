import ScriptFront.Proofs.Layout.Statements
import ScriptFront.Proofs.Scanning.Scans

/-!
# The layout of a text does not matter

Two texts whose tokens are of the same kinds, with the same lexemes and literal types, are the same
text within a setting that puts all tokens in one place.  So what is read of them is the same but
for positions: blanks, line ends and comments may stand between tokens as anyone likes.

**Results.**

* `parseProgram_layout`: the program, the diagnostics and the tables are the same.
-/

namespace ScriptFront

/-- All tokens in one place, with nothing around them. -/
def Setting.together (p : Position) : Setting :=
  .leading (fun _ => p) [] p

/-- In one place, tokens with the same faces are the same. -/
theorem map_moved_eq_of_face {ts us : List Token} (h : ts.map Token.face = us.map Token.face)
    (p : Position) : ts.map (Token.moved fun _ => p) = us.map (Token.moved fun _ => p) := by
  have hface (ts : List Token) : ts.map (Token.moved fun _ => p) =
      (ts.map Token.face).map fun (kind, lexeme, lit) => ⟨kind, lexeme, p, lit⟩ := by
    rw [List.map_map]
    rfl
  rw [hface, hface, h]

/--
Two texts with the same tokens but for their positions have the same program, the same diagnostics
in the same order and the same tables, but for positions.
-/
theorem parseProgram_layout {file₁ file₂ : String} {source₁ source₂ : List Char}
    (h : (tokenize file₁ source₁).map Token.face = (tokenize file₂ source₂).map Token.face)
    (p : Position) :
    (parseProgram file₁ source₁).program.map (Expr.moved fun _ => p) =
        (parseProgram file₂ source₂).program.map (Expr.moved fun _ => p) ∧
      (parseProgram file₁ source₁).diagnostics.map (Diagnostic.moved fun _ => p) =
        (parseProgram file₂ source₂).diagnostics.map (Diagnostic.moved fun _ => p) ∧
      (parseProgram file₁ source₁).state.tables.moved (fun _ => p) =
        (parseProgram file₂ source₂).state.tables.moved fun _ => p := by
  have hstart : (State.ofSource file₁ source₁).within (.together p) =
      (State.ofSource file₂ source₂).within (.together p) := by
    unfold State.within State.ofSource Setting.together Setting.leading
    simp only [map_moved_eq_of_face h p]
  have hfinish (file : String) (source : List Char) :
      Session.finish ⟨[], (State.ofSource file source).within (.together p)⟩ =
        ⟨(parseProgram file source).program.map (Expr.moved fun _ => p),
          (parseProgram file source).state.within (.together p)⟩ :=
    Session.finish_within rfl [] _
  have hsame := hfinish file₂ source₂
  rw [← hstart, hfinish file₁ source₁] at hsame
  injection hsame with hprogram hstate
  refine ⟨hprogram, ?_, congrArg State.tables hstate⟩
  have hdiagnostics := congrArg State.diagnostics hstate
  rw [State.diagnostics_within, State.diagnostics_within] at hdiagnostics
  exact hdiagnostics

/-- A type that differs and a name that is not declared, in one line and in several. -/
theorem parseProgram_layout_spread :
    let source₁ := "let x: char = 1; f(x) let y = x".toList
    let source₂ := "let x\n  : char = 1 // one\n;\n\nf(x)let y=x\n".toList
    (tokenize "p" source₁).map Token.face = (tokenize "q" source₂).map Token.face ∧
      (parseProgram "p" source₁).diagnostics.map Diagnostic.code = [some "S001", some "S010"] ∧
      (parseProgram "p" source₁).program.map (Expr.moved fun _ => ⟨"p", 0, 0⟩) =
        (parseProgram "q" source₂).program.map (Expr.moved fun _ => ⟨"p", 0, 0⟩) ∧
      (parseProgram "p" source₁).diagnostics.map (Diagnostic.moved fun _ => ⟨"p", 0, 0⟩) =
        (parseProgram "q" source₂).diagnostics.map (Diagnostic.moved fun _ => ⟨"p", 0, 0⟩) := by
  intro source₁ source₂
  have hface : (tokenize "p" source₁).map Token.face = (tokenize "q" source₂).map Token.face := by
    decide +kernel
  obtain ⟨hprogram, hdiagnostics, _⟩ := parseProgram_layout hface ⟨"p", 0, 0⟩
  exact ⟨hface, by decide +kernel, hprogram, hdiagnostics⟩

end ScriptFront
