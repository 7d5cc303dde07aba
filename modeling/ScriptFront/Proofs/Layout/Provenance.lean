import ScriptFront.Proofs.Layout.Statements
import ScriptFront.Proofs.Moments.Held

/-!
# Positions come from tokens

Reading does the same when the positions of all tokens are changed, and changes those of its results
in the same way.  A change that keeps the positions of tokens and no other ones keeps the text, so
it keeps all that is read of it: there is no position in it but those of tokens.

**Results.**

* `Expr.held_moved`, `Expr.moved_eq_of_contains`: what is held in an expression at other positions.
* `parseProgram_moved_eq`: what is read of a text when the positions of its tokens are kept.
* `parseProgram_positions`: the positions of expressions and of diagnostics are those of tokens.
-/

namespace ScriptFront

section Kept

variable {f : Position → Position}

/-- What an expression holds at other positions. -/
theorem Expr.held_moved (e : Expr) : (e.moved f).held = e.held.map (Expr.moved f) := by
  cases e with
  | returnStatement pos value => cases value <;> rfl
  | _ => simp [Expr.held, Binding.map, Instance.map, Proc.map, Impl.map, Function.comp_def]

/-- If nothing moves in an expression, nothing moves in what it holds. -/
theorem Expr.moved_eq_of_contains {e x : Expr} (h : e.moved f = e) (hx : e.Contains x) :
    x.moved f = x := by
  induction hx with
  | self _ => exact h
  | @inside e x _ hheld _ ih =>
    have hfixed : e.held.map (Expr.moved f) = e.held.map id := by
      rw [← Expr.held_moved, h, List.map_id]
    exact ih (List.map_inj_left.mp hfixed x hheld)

theorem Expr.pos_of_contains {e x : Expr} (h : e.moved f = e) (hx : e.Contains x) :
    f x.pos = x.pos := by
  rw [← x.moved_pos f, Expr.moved_eq_of_contains h hx]

theorem Tables.definitions_moved (t : Tables) :
    (t.moved f).definitions = t.definitions.map (Proc.map f (Expr.moved f)) := by
  unfold Tables.definitions Tables.moved SymbolTable.map
  simp [Entry.map, Impl.map, List.flatMap_map, List.map_flatMap, Function.comp_def]

end Kept

section Texts

variable {file : String} {source : List Char} {f : Position → Position}

/-- What is read of a text is the same when the positions of its tokens are kept. -/
theorem parseProgram_moved_eq (h : ∀ t ∈ tokenize file source, f t.pos = t.pos) :
    (parseProgram file source).program.map (Expr.moved f) = (parseProgram file source).program ∧
      (parseProgram file source).diagnostics.map (Diagnostic.moved f) =
        (parseProgram file source).diagnostics ∧
      (parseProgram file source).state.tables.moved f =
        (parseProgram file source).state.tables := by
  let m : Setting := .leading f [] (endOfText file source)
  have htokens : (tokenize file source).map (Token.moved f) = tokenize file source := by
    refine (List.map_congr_left fun t ht => ?_).trans (List.map_id _)
    rw [Token.moved, h t ht]
    rfl
  have hstart : (State.ofSource file source).within m = .ofSource file source := by
    unfold State.within State.ofSource
    simp only [m, Setting.leading, htokens, List.append_nil]
    rfl
  have hfinish : parseProgram file source =
      ⟨(parseProgram file source).program.map (Expr.moved f),
        (parseProgram file source).state.within m⟩ := by
    have hwithin := Session.finish_within (m := m) rfl [] (.ofSource file source)
    rw [hstart] at hwithin
    exact hwithin
  have hprogram := congrArg Session.program hfinish
  have hstate := congrArg Session.state hfinish
  have hdiagnostics := congrArg State.diagnostics hstate
  rw [State.diagnostics_within] at hdiagnostics
  exact ⟨hprogram.symm, hdiagnostics.symm, (congrArg State.tables hstate).symm⟩

/-- The positions in the list stay, and no other ones. -/
def Position.keep (places : List Position) (p : Position) : Position :=
  if p ∈ places then p else { p with row := p.row + 1 }

theorem Position.keep_eq_iff {places : List Position} {p : Position} :
    p.keep places = p ↔ p ∈ places := by
  unfold keep
  split
  · rename_i hp
    exact iff_of_true rfl hp
  · rename_i hp
    refine iff_of_false (fun h => ?_) hp
    have hrow : p.row + 1 = p.row := congrArg Position.row h
    omega

/-- The positions of the tokens of a text. -/
def tokenPositions (file : String) (source : List Char) : List Position :=
  (tokenize file source).map Token.pos

/-- What has been read of a program: its statements and the definitions of its procedures, those in
failed statements as well. -/
def Session.trees (session : Session) : List Expr :=
  session.program ++ session.state.tables.definitions.map Expr.procDef

/-- The positions of all that has been read hold, and those of the diagnostics, are positions of
tokens. -/
theorem parseProgram_positions (file : String) (source : List Char) :
    (∀ e ∈ (parseProgram file source).trees, ∀ x, e.Contains x →
        x.pos ∈ tokenPositions file source) ∧
      ∀ d ∈ (parseProgram file source).diagnostics, d.pos ∈ tokenPositions file source := by
  let places := tokenPositions file source
  have hplaces {p : Position} (hp : p.keep places = p) : p ∈ places := Position.keep_eq_iff.mp hp
  have fixed {α : Type} {g : α → α} {xs : List α} (h : xs.map g = xs) {x : α} (hx : x ∈ xs) :
      g x = x := List.map_inj_left.mp (h.trans (List.map_id xs).symm) x hx
  obtain ⟨hprogram, hdiagnostics, htables⟩ := parseProgram_moved_eq (f := Position.keep places)
    fun t ht => Position.keep_eq_iff.mpr (List.mem_map_of_mem ht)
  have hdefinitions := congrArg Tables.definitions htables
  rw [Tables.definitions_moved] at hdefinitions
  refine ⟨fun e he x hx => hplaces (Expr.pos_of_contains ?_ hx), fun d hd => ?_⟩
  · rcases List.mem_append.mp he with he | he
    · exact fixed hprogram he
    · obtain ⟨p, hp, rfl⟩ := List.mem_map.mp he
      rw [Expr.moved_procDef, fixed hdefinitions hp]
  · exact hplaces (congrArg Diagnostic.pos (fixed hdiagnostics hd))

end Texts
end ScriptFront
