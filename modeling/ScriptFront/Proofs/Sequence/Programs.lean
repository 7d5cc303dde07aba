import ScriptFront.Proofs.Layout.Statements
import ScriptFront.Proofs.Sequence.LastToken
import ScriptFront.Proofs.Sequence.Lines
import ScriptFront.Proofs.Surface.SoundPrograms

/-!
# One text behind another

Suppose that a text ends with a semicolon and nothing but advice is reported of it.  Then none of
its statements looks past its end, so they are the same when another text follows; and behind the
semicolon no block is open and no problem is left over, so the other text is read as a text of its
own that starts with the tables of the first one.

**Results.**

* `Session.finish_in_front`: the first text in front of other tokens.
* `parseProgram_append_line`: two texts with a line feed between them.
-/

namespace ScriptFront

open Parse

section Statements

variable {m : Setting} {s : State} {t : Token} {rest : List Token}

/-- The text ends with a semicolon. -/
def State.EndsStatement (s : State) : Prop :=
  ∃ semi ∈ s.unread.getLast?, semi.kind = .semicolon

theorem State.EndsStatement.later {u : State} (h : s.EndsStatement) (hsu : s.Later u)
    (hu : u.unread ≠ []) : u.EndsStatement := by
  obtain ⟨semi, hlast, hsemi⟩ := h
  obtain ⟨ts, hts⟩ := hsu.reads
  rw [hts.unread, List.getLast?_append_of_ne_nil _ hu] at hlast
  exact ⟨semi, hlast, hsemi⟩

/-- Only the semicolon at the end reads the last token of the text. -/
theorem eq_semicolon_of_last (hs : s.Settled) (hends : s.EndsStatement)
    (hunread : s.unread = t :: rest) (hadvisory : (statement s).2.Advisory)
    (hnil : (statement s).2.unread = []) : t.kind = .semicolon := by
  obtain ⟨semi, hlast, hsemi⟩ := hends
  refine Decidable.byContradiction fun hk => ?_
  exact unread_ne_nil_of_ok hs hunread hk hlast hsemi
    (optionalStatement_of_advisory readsBlock hadvisory) hnil

end Statements

namespace Session

/-- The statements in front do not matter for those that are left. -/
theorem finish_eq (program : Program) (s : State) :
    Session.finish ⟨program, s⟩ =
      ⟨program ++ (Session.finish ⟨[], s⟩).program, (Session.finish ⟨[], s⟩).state⟩ := by
  simp only [finish, List.nil_append]

/--
A text that ends with a semicolon, and of which nothing but advice is reported, is read in the same
way in front of other tokens.  At its end no block is open.
-/
theorem finish_in_front (m : Setting) (program : Program) {s : State} (hs : s.Settled)
    (hzero : s.braceDepth = 0) (hends : s.EndsStatement)
    (hadvisory : (Session.finish ⟨[], s⟩).state.Advisory) :
    Session.finish ⟨program, s.within m⟩ =
        Session.finish ⟨program ++ (Session.finish ⟨[], s⟩).program.map (Expr.moved m.place),
          (Session.finish ⟨[], s⟩).state.within m⟩ ∧
      (Session.finish ⟨[], s⟩).state.Settled ∧ (Session.finish ⟨[], s⟩).state.braceDepth = 0 := by
  induction s using statement_induction generalizing program with
  | nil s hunread =>
    obtain ⟨semi, hlast, _⟩ := hends
    rw [hunread] at hlast
    cases hlast
  | cons s t rest hunread ih =>
    have hcons := State.within_unread_of_cons (m := m) hunread
    have hfinish : Session.finish ⟨[], s⟩ =
        ⟨(statement s).1.toList ++ (Session.finish ⟨[], (statement s).2⟩).program,
          (Session.finish ⟨[], (statement s).2⟩).state⟩ :=
      (finish_of_cons hunread).trans (finish_eq _ _)
    rw [hfinish] at hadvisory ⊢
    have hstep := hadvisory.of_prefix (finish_later ⟨[], (statement s).2⟩).1.problems
    by_cases hnil : (statement s).2.unread = []
    · -- The semicolon at the end is a statement that looks at nothing behind it.
      have hk := eq_semicolon_of_last hs hends hunread hstep hnil
      have hempty : Session.finish ⟨[], (statement s).2⟩ = ⟨[], (statement s).2⟩ :=
        finish_of_nil hnil
      rw [hempty, finish_of_cons hcons, statement_of_semicolon hcons hk,
        statement_of_semicolon hunread hk]
      refine ⟨rfl, (State.Later.consume hunread).settled hs hs.closed, ?_⟩
      simp only [State.consume, depthAfter, hk, hzero]
    · have hmem : statement s ∈ s.statements := by
        rw [State.statements_of_cons hunread]
        exact List.mem_cons_self
      obtain ⟨hsettled, hdepth⟩ := settled_of_mem_statements hs hzero hmem
      obtain ⟨hsame, hrest⟩ := ih (program ++ (statement s).1.toList.map (Expr.moved m.place))
        hsettled (hdepth hnil) (hends.later (later_statement s) hnil) hadvisory
      have htoList : ((statement s).1.map (Expr.moved m.place)).toList =
          (statement s).1.toList.map (Expr.moved m.place) := by
        cases (statement s).1 <;> rfl
      refine ⟨?_, hrest⟩
      rw [finish_of_cons hcons, statement_within hunread (.inr hnil), htoList, hsame,
        List.append_assoc, ← List.map_append]

end Session

/-- In front of the tokens `ts`, with what a text that has been read declares, and nothing else. -/
def State.resume (s : State) (ts : List Token) : State where
  unread := ts
  finish := s.finish
  tables := s.tables
  nextId := s.nextId
  completed := s.completed

section Settings

/-- At the same positions, with the tokens `ts` behind. -/
def Setting.inFrontOf (ts : List Token) (finish : Position) : Setting :=
  .leading id ts finish

/-- At the same positions, behind a text that has been read up to the state `s`. -/
def Setting.behindOf {s : State} (hs : s.Advisory) (finish : Position) : Setting where
  place := id
  before := s.read
  reported := s.problems
  behind := []
  finish := finish
  quiet p hp := by
    have hadvice := hs p hp
    cases hcause : p.cause <;> rw [hcause] at hadvice <;> first | rfl | cases hadvice

variable {s : State} (hs : s.Advisory) (finish : Position)

/-- At the end of a text nothing is left over but what it declares. -/
theorem State.within_resume (hnil : s.unread = []) (hdepth : s.braceDepth = 0)
    (hclosed : s.closedBlocks = 0) (ts : List Token) :
    (s.resume ts).within (.behindOf hs finish) = s.within (.inFrontOf ts finish) := by
  have hread : s.read.map (Token.moved id) = s.read := List.map_id _
  have hproblems : s.problems.map (Problem.moved id) = s.problems := List.map_id _
  have hts : ts.map (Token.moved id) = ts := List.map_id _
  simp only [within, resume, Setting.behindOf, Setting.inFrontOf, Setting.leading, hnil, hdepth,
    hclosed, hread, hproblems, hts, List.map_nil, List.nil_append, List.append_nil]

end Settings

/--
A text ends with a semicolon, and nothing but advice is reported of it.  With another text behind
it, its program and its diagnostics stay, and what follows them is what is read of the tokens of the
other text, as many rows further down, from the tables of the first text.
-/
theorem parseProgram_append_line {file : String} {first : List Char} (second : List Char)
    (hlast : ∃ semi ∈ (tokenize file first).getLast?, semi.kind = .semicolon)
    (hadvice : ∀ d ∈ (parseProgram file first).diagnostics,
      d.code = some "S001" ∨ d.code = some "S011") :
    let start := (parseProgram file first).state.resume
      ((tokenize file second).map (Token.moved (Position.down (first.count '\n' + 1))))
    let whole := parseProgram file (first ++ '\n' :: second)
    whole.program = (parseProgram file first).program ++ (Session.finish ⟨[], start⟩).program ∧
      whole.diagnostics =
        (parseProgram file first).diagnostics ++ (Session.finish ⟨[], start⟩).diagnostics ∧
      whole.state.tables = (Session.finish ⟨[], start⟩).state.tables := by
  intro start whole
  have hadvisory : (parseProgram file first).state.Advisory := advisory_of_codes hadvice
  have hplain : ∀ t ∈ (tokenize file first).getLast?, t.kind ≠ .literal := by
    obtain ⟨semi, hsemi, hk⟩ := hlast
    intro t ht
    obtain rfl : semi = t := Option.some.inj (hsemi.symm.trans ht)
    rw [hk]
    decide
  let finish := endOfText file (first ++ '\n' :: second)
  let ts := (tokenize file second).map (Token.moved (Position.down (first.count '\n' + 1)))
  have hsource : State.ofSource file (first ++ '\n' :: second) =
      (State.ofSource file first).within (.inFrontOf ts finish) := by
    have hall : (tokenize file first).map (Token.moved id) = tokenize file first := List.map_id _
    unfold State.ofSource State.within Setting.inFrontOf Setting.leading
    rw [tokenize_append_line second hplain]
    simp only [hall]
    rfl
  obtain ⟨hfront, hsettled, hdepth⟩ := Session.finish_in_front (.inFrontOf ts finish) []
    (s := State.ofSource file first) ⟨rfl, rfl⟩ rfl hlast hadvisory
  have hresume := State.within_resume hadvisory finish (parseProgram_read file first).2 hdepth
    hsettled.closed ts
  have hsame (es : Program) : es.map (Expr.moved id) = es := List.map_id'' Expr.moved_id es
  have hwhole : whole = ⟨(parseProgram file first).program ++ (Session.finish ⟨[], start⟩).program,
      (Session.finish ⟨[], start⟩).state.within (.behindOf hadvisory finish)⟩ :=
    calc
      whole = Session.finish ⟨[], (State.ofSource file first).within (.inFrontOf ts finish)⟩ :=
        congrArg (fun s => Session.finish ⟨[], s⟩) hsource
      _ = Session.finish ⟨(parseProgram file first).program.map (Expr.moved id),
          (parseProgram file first).state.within (.inFrontOf ts finish)⟩ := hfront
      _ = Session.finish ⟨(parseProgram file first).program,
          start.within (.behindOf hadvisory finish)⟩ := by rw [hsame, ← hresume]
      _ = ⟨(parseProgram file first).program ++
            (Session.finish ⟨[], start⟩).program.map (Expr.moved id),
          (Session.finish ⟨[], start⟩).state.within (.behindOf hadvisory finish)⟩ :=
        Session.finish_within rfl _ start
      _ = _ := by rw [hsame]
  have hdiagnostics : ((Session.finish ⟨[], start⟩).state.within
      (.behindOf hadvisory finish)).diagnostics =
      (parseProgram file first).diagnostics ++ (Session.finish ⟨[], start⟩).diagnostics :=
    (State.diagnostics_within _).trans (congrArg (_ ++ ·) (List.map_id _))
  rw [hwhole]
  exact ⟨rfl, hdiagnostics, Tables.moved_id _⟩

/-- The second text uses a variable of the first one, and a name that neither of them declares. -/
theorem parseProgram_append_line_unresolved :
    let first := "struct P { x: i32 }\nlet p: char = 1; // one\n".toList
    let second := "let q = p; r".toList
    let start := (parseProgram "p" first).state.resume
      ((tokenize "p" second).map (Token.moved (Position.down (first.count '\n' + 1))))
    let whole := parseProgram "p" (first ++ '\n' :: second)
    (parseProgram "p" first).diagnostics.map Diagnostic.code = [some "S001"] ∧
      whole.diagnostics.map Diagnostic.code = [some "S001", some "S010"] ∧
      whole.program = (parseProgram "p" first).program ++ (Session.finish ⟨[], start⟩).program ∧
      whole.diagnostics =
        (parseProgram "p" first).diagnostics ++ (Session.finish ⟨[], start⟩).diagnostics := by
  intro first second start whole
  have hlast : ∃ semi ∈ (tokenize "p" first).getLast?, semi.kind = .semicolon :=
    ⟨⟨.semicolon, ";", ⟨"p", 1, 15⟩, .none⟩, by decide +kernel, rfl⟩
  have hcodes : (parseProgram "p" first).diagnostics.map Diagnostic.code = [some "S001"] := by
    decide +kernel
  have hadvice : ∀ d ∈ (parseProgram "p" first).diagnostics,
      d.code = some "S001" ∨ d.code = some "S011" := fun d hd =>
    .inl (List.mem_singleton.mp (hcodes ▸ List.mem_map_of_mem hd))
  obtain ⟨hprogram, hdiagnostics, _⟩ := parseProgram_append_line second hlast hadvice
  exact ⟨hcodes, by decide +kernel, hprogram, hdiagnostics⟩

end ScriptFront
