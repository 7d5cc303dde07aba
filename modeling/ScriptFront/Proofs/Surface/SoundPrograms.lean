import ScriptFront.Proofs.Reading.Literals
import ScriptFront.Proofs.Surface.Determined
import ScriptFront.Proofs.Surface.SoundStatements

/-!
# No token is ignored

A source text in which nothing but advice is reported is the text of the program that is read from
it, token by token, and all texts of that program have the same bare form.

**Results.**

* `lexed_of_mem_tokenize`: numbers start with a digit.
* `finish_denotes`: a program is read from its text.
* `parseProgram_denotes`: the tokens of a source text spell the program, up to what leaves no trace.
-/

namespace ScriptFront

open Surface

section Tokens

namespace Token

theorem scanWord_lit (c : Char) (cs : List Char) : ¬ (scanWord c cs).lit.isNumeric := by
  show ¬ (classifyWord _).2.isNumeric
  unfold classifyWord LiteralType.isNumeric
  repeat' split
  all_goals simp

theorem scanNumber_text (c : Char) (cs : List Char) : (scanNumber c cs).text.head? = some c := by
  unfold scanNumber
  repeat' split
  all_goals rfl

/-- A number starts with a digit. -/
theorem scan_text_of_numeric (c : Char) (cs : List Char) :
    (scan c cs).lit.isNumeric → (scan c cs).text.head? ≠ some '-' := by
  have other {x : Scan} {lit : LiteralType} (hx : x.lit = lit) (hlit : ¬ lit.isNumeric) :
      x.lit.isNumeric → x.text.head? ≠ some '-' := fun h => absurd (hx ▸ h) hlit
  unfold scan
  split
  · exact other (scanString_lit cs) (by simp [LiteralType.isNumeric])
  · split
    · exact other (scanChar_lit cs) (by simp [LiteralType.isNumeric])
    · split
      · exact other (scanMark_lit _ c cs) (by simp [LiteralType.isNumeric])
      · split
        · exact other rfl (scanWord_lit c cs)
        · split
          · rename_i hdigit
            intro _ hminus
            rw [scanNumber_text, Option.some.injEq] at hminus
            rw [hminus] at hdigit
            exact absurd hdigit (by decide)
          · exact other rfl (by simp [Scan.plain, LiteralType.isNumeric])

theorem lexed_of_unsigned {t : Token} (h : t.lit.Unsigned t.lexeme) : t.terminal.Lexed := by
  unfold Token.terminal
  split
  · trivial
  · exact h
  · trivial

end Token

theorem lexed_of_mem_tokenize {file : String} {source : List Char} {t : Token}
    (ht : t ∈ tokenize file source) : t.terminal.Lexed := by
  obtain ⟨c, cs, pos, rfl⟩ := Cursor.exists_scan_of_mem_tokens ht
  refine Token.lexed_of_unsigned fun hnumeric => ?_
  rw [String.toList_ofList]
  exact Token.scan_text_of_numeric c cs hnumeric

end Tokens

section Programs

theorem Parse.readsBlock : Parse.ReadsBlock Parse.block := by
  refine Parse.readsBlock_braced (fun hs hu h => ?_) declarationLaw_loose.relates_block
    fun n => (readingLaw_loose n).relates_block
  exact Parse.bodyUpTo_denotes _ hs hu h

/-- A program in which nothing but advice is reported is read from its text. -/
theorem Session.finish_denotes {s : Session} (hs : s.state.Regular)
    (hadvisory : s.finish.state.Advisory) :
    ∃ items es, ItemsDenote items es ∧ s.finish.program = s.program ++ es ∧
      s.state.terminals = spellItems items := by
  obtain ⟨program, s⟩ := s
  induction s using Parse.statement_induction generalizing program with
  | nil s hunread =>
    rw [finish_of_nil hunread]
    exact ⟨[], [], .nil, (List.append_nil _).symm, by rw [State.terminals, hunread]; rfl⟩
  | cons s t rest hunread ih =>
    rw [finish_of_cons hunread] at hadvisory ⊢
    have hstep := hadvisory.of_prefix (finish_later _).1.problems
    have hoptional := Parse.optionalStatement_of_advisory Parse.readsBlock hstep
    obtain ⟨item, hitem, hspells⟩ :=
      Parse.optionalStatement_denotes Parse.readsBlock hs hstep hoptional
    obtain ⟨items, es, hitems, hprogram, hrest⟩ := ih _ hspells.regular hadvisory
    refine ⟨item :: items, _, Parse.itemsDenote_cons hitem hitems, ?_, ?_⟩
    · rw [hprogram, List.append_assoc]
      rfl
    · rw [Parse.spellItems_cons, ← hrest]
      exact hspells.terminals

/-- Only advice has a code among these. -/
theorem advisory_of_codes {s : State}
    (h : ∀ d ∈ s.diagnostics, d.code = some "S001" ∨ d.code = some "S011") : s.Advisory := by
  intro p hp
  have hcode := h p.diagnostic (List.mem_map_of_mem hp)
  obtain ⟨cause, pos⟩ := p
  cases cause with
  | typeMismatch | redeclared => rfl
  | _ => rcases hcode with hcode | hcode <;> simp [Problem.diagnostic, Cause.code] at hcode

/-- The state in front of the first token is regular. -/
theorem regular_of_lexed {ts : List Token} (h : ∀ t ∈ ts, t.terminal.Lexed) (finish : Position) :
    State.Regular { unread := ts, finish := finish } where
  settled := ⟨rfl, rfl⟩
  numbered := ⟨.empty _, .empty _⟩
  faithful := Tables.faithful_empty
  lexed := h

/--
If nothing but advice is reported for a source text, then its tokens are a text of the program that
is read from it, statement by statement.  The program determines that text but for lone semicolons,
the comma after the last field, a written type that the value has anyway, and what stands between a
bare `return` and the end of the body of a procedure.
-/
theorem parseProgram_denotes (file : String) (source : List Char)
    (h : ∀ d ∈ (parseProgram file source).diagnostics,
      d.code = some "S001" ∨ d.code = some "S011") :
    ∃ items, ItemsDenote items (parseProgram file source).program ∧
      (tokenize file source).map Token.terminal = spellItems items ∧
      ∀ items', ItemsDenote items' (parseProgram file source).program →
        bareItems items' (parseProgram file source).program =
          bareItems items (parseProgram file source).program := by
  have hregular : (State.ofSource file source).Regular :=
    regular_of_lexed (fun _ ht => lexed_of_mem_tokenize ht) (endOfText file source)
  obtain ⟨items, es, hitems, hprogram, hspell⟩ :=
    Session.finish_denotes (s := .ofSource file source) hregular (advisory_of_codes h)
  have hsame : (parseProgram file source).program = es := hprogram
  rw [hsame]
  exact ⟨items, hitems, hspell, fun items' hitems' => bareItems_eq items' hitems' hitems⟩

/-- A second struct of one name is advised against, and no token of it is ignored. -/
theorem parseProgram_denotes_redeclared :
    (parseProgram "p" "struct P { x: i32, } ; struct P { }".toList).diagnostics.map
        Diagnostic.code = [some "S011"] ∧
      ∃ items, ItemsDenote items
          (parseProgram "p" "struct P { x: i32, } ; struct P { }".toList).program ∧
        (tokenize "p" "struct P { x: i32, } ; struct P { }".toList).map Token.terminal =
          spellItems items := by
  obtain ⟨items, hitems, hspell, _⟩ :=
    parseProgram_denotes "p" "struct P { x: i32, } ; struct P { }".toList (by decide +kernel)
  exact ⟨by decide +kernel, items, hitems, hspell⟩

end Programs
end ScriptFront
