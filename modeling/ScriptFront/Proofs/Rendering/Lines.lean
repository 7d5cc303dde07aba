import ScriptFront.Proofs.Rendering.Inline
import ScriptFront.Proofs.Rendering.Printer

/-!
# The lines of a written tree

The pieces of a tree make up lines, each with the number of blocks around it.  Blocks around an
expression only move its lines, so that its readable form at one depth is that at any other with
another indent behind each line feed.  In a program each line is indented for the blocks around it
and for nothing else, and the lines of a statement are those that it has on its own, moved for the
blocks around it.

**Results.**

* `Expr.IsInline.render_eq_indented`: blocks around an expression only move its lines.
* `Program.splitOn_render`: the lines of a program are what its line feeds part.
* `Expr.Nested.lines`: where the lines of a nested statement stand.
* `rendering_uniform`: blocks are written in the same way at every depth.
-/

namespace ScriptFront

/-- A line: the number of blocks around it, and what stands behind its indent. -/
structure Line where
  blocks : Nat
  text : String
deriving DecidableEq

/-- What is written of a line. -/
def Line.chars (l : Line) : List Char :=
  List.replicate (4 * l.blocks) ' ' ++ l.text.toList

/-- The same line inside of `k` blocks more. -/
def Line.inside (k : Nat) (l : Line) : Line :=
  { l with blocks := l.blocks + k }

/-- A character with the spaces behind it, if it is a line feed, of a line inside of some blocks. -/
def indentedChar (depth : Nat) (c : Char) : List Char :=
  if c = '\n' then c :: List.replicate (4 * depth) ' ' else [c]

/-- A text with as many spaces behind each line feed as indent a line inside of `depth` blocks. -/
def indented (depth : Nat) (s : String) : String :=
  String.ofList (s.toList.flatMap (indentedChar depth))

namespace Piece

/-- The lines of some pieces, the first of which goes on with the line `current`. -/
def linesFrom (current : Line) : List Piece → List Line
  | [] => [current]
  | text s :: ps => linesFrom { current with text := current.text ++ s } ps
  | line blocks :: ps => current :: linesFrom ⟨blocks, ""⟩ ps

section Depth

variable {ps : List Piece}

theorem flatMap_indentedChar_of_inline {cs : List Char} (depth : Nat) (h : '\n' ∉ cs) :
    cs.flatMap (indentedChar depth) = cs := by
  induction cs with
  | nil => rfl
  | cons c cs ih =>
    rw [List.mem_cons, not_or] at h
    have hc : indentedChar depth c = [c] := if_neg (Ne.symm h.1)
    rw [List.flatMap_cons, hc, ih h.2, List.singleton_append]

theorem flatMap_indentedChar_line (depth blocks : Nat) :
    ((line blocks).chars 0).flatMap (indentedChar depth) = (line blocks).chars depth := by
  have hspaces : '\n' ∉ List.replicate (4 * (0 + blocks)) ' ' := by simp
  have hfeed : indentedChar depth '\n' = '\n' :: List.replicate (4 * depth) ' ' := if_pos rfl
  rw [chars, List.flatMap_cons, flatMap_indentedChar_of_inline depth hspaces, hfeed, chars,
    List.cons_append, List.replicate_append_replicate, Nat.zero_add, Nat.mul_add]

/-- Texts that stay on their lines are written at some depth as at depth zero, indented. -/
theorem Tidy.write_eq (h : Tidy ps) (depth : Nat) :
    write depth ps = (write 0 ps).flatMap (indentedChar depth) := by
  induction h with
  | nil => rfl
  | text hs _ ih =>
    rw [write_cons, write_cons, List.flatMap_append, ← ih, chars, chars,
      flatMap_indentedChar_of_inline depth hs]
  | line _ _ ih =>
    rw [write_cons, write_cons, List.flatMap_append, ← ih, flatMap_indentedChar_line]

end Depth

section Lines

variable {ps : List Piece} {current : Line}

/-- The lines are written one below the other. -/
theorem flatMap_linesFrom (current : Line) (ps : List Piece) :
    (linesFrom current ps).flatMap (fun l => l.chars ++ ['\n']) =
      current.chars ++ write 0 ps ++ ['\n'] := by
  induction ps generalizing current with
  | nil => simp [linesFrom, write]
  | cons p ps ih =>
    cases p with
    | text s =>
      rw [linesFrom, ih]
      simp [chars, Line.chars]
    | line blocks =>
      rw [linesFrom, List.flatMap_cons, ih]
      simp [chars, Line.chars]

/-- The first line is the one that was gone on with. -/
theorem exists_linesFrom (current : Line) (ps : List Piece) :
    ∃ text below, linesFrom current ps = ⟨current.blocks, text⟩ :: below := by
  induction ps generalizing current with
  | nil => exact ⟨current.text, [], rfl⟩
  | cons p ps ih =>
    cases p with
    | text s => exact ih _
    | line blocks => exact ⟨current.text, _, rfl⟩

/-- The lines are inline, and what stands behind an indent is no space. -/
theorem Tidy.linesFrom (h : Tidy ps) (hinline : Inline current.text)
    (hstarts : StartsInk current.text ∨ current.text = "" ∧ Starts ps) :
    ∀ l ∈ Piece.linesFrom current ps, Inline l.text ∧ StartsInk l.text := by
  induction h generalizing current with
  | nil =>
    rcases hstarts with hstarts | ⟨_, _, _, hnone, _⟩
    · exact List.forall_mem_singleton.mpr ⟨hinline, hstarts⟩
    · cases hnone
  | @text s ps hs _ ih =>
    -- An empty line gets its first character from this text, and a line that has one keeps it.
    refine ih (inline_append.mpr ⟨hinline, hs⟩) (.inl ?_)
    rcases hstarts with hstarts | ⟨hnone, _, _, hfirst, hstarts⟩
    · exact startsInk_append hstarts s
    · cases hfirst
      rw [hnone]
      simpa using hstarts
  | @line blocks ps hnext _ ih =>
    rcases hstarts with hstarts | ⟨_, _, _, hfirst, _⟩
    · have hempty : Inline "" := by decide
      have hrest := @ih ⟨blocks, ""⟩ hempty (.inr ⟨rfl, hnext⟩)
      exact List.forall_mem_cons.mpr ⟨⟨hinline, hstarts⟩, hrest⟩
    · cases hfirst

theorem linesFrom_append_line (current : Line) (ps qs : List Piece) (blocks : Nat) :
    linesFrom current (ps ++ line blocks :: qs) =
      linesFrom current ps ++ linesFrom ⟨blocks, ""⟩ qs := by
  induction ps generalizing current with
  | nil => rfl
  | cons p ps ih =>
    cases p with
    | text s => exact ih _
    | line b => exact congrArg (current :: ·) (ih _)

theorem linesFrom_inside (k : Nat) (current : Line) (ps : List Piece) :
    linesFrom (current.inside k) (ps.map (inside k)) =
      (linesFrom current ps).map (Line.inside k) := by
  induction ps generalizing current with
  | nil => rfl
  | cons p ps ih =>
    cases p with
    | text s => exact ih { current with text := current.text ++ s }
    | line blocks => exact congrArg (current.inside k :: ·) (ih ⟨blocks, ""⟩)

end Lines

section Nesting

variable {k : Nat} {ps qs rs : List Piece} {parts lines : List (List Piece)}

/-- The first pieces stand among the second ones on lines of their own, inside of `k` blocks. -/
def Within (k : Nat) (ps qs : List Piece) : Prop :=
  ∃ before blocks after, qs = before ++ line k :: (ps.map (inside k) ++ line blocks :: after)

theorem Within.of_isInfix (h : Within k ps qs) (hqs : qs <:+: rs) : Within k ps rs := by
  obtain ⟨before, blocks, after, rfl⟩ := h
  obtain ⟨front, back, rfl⟩ := hqs
  exact ⟨front ++ before, blocks, after ++ back, by simp⟩

theorem Within.inside (h : Within k ps qs) : Within (k + 1) ps (qs.map (inside 1)) := by
  obtain ⟨before, blocks, after, rfl⟩ := h
  have htwice : Piece.inside 1 ∘ Piece.inside k = Piece.inside (k + 1) := by
    funext p
    cases p <;> rfl
  refine ⟨before.map (Piece.inside 1), blocks + 1, after.map (Piece.inside 1), ?_⟩
  rw [List.map_append, List.map_cons, List.map_append, List.map_map, htwice, List.map_cons]
  rfl

theorem Within.map_isInfix (h : Within k ps qs) : ps.map (Piece.inside k) <:+: qs := by
  obtain ⟨before, blocks, after, rfl⟩ := h
  exact ⟨before ++ [line k], line blocks :: after, by simp⟩

theorem isInfix_commas (h : ps ∈ parts) : ps <:+: commas parts := by
  unfold commas
  induction parts with
  | nil => cases h
  | cons qs parts ih =>
    cases parts with
    | nil =>
      obtain rfl := List.mem_singleton.mp h
      simp
    | cons rs parts =>
      rw [List.intercalate_cons_cons, List.append_assoc]
      rcases List.mem_cons.mp h with rfl | h
      · exact (List.prefix_append _ _).isInfix
      · exact (ih h).trans ((List.suffix_append _ _).trans (List.suffix_append _ _)).isInfix

/-- A line of a block ends at the next one, or at the bracket behind the last one. -/
theorem within_block (h : ps ∈ lines) : Within 1 ps (block lines) := by
  obtain ⟨front, back, rfl⟩ := List.append_of_mem h
  have hne : (front ++ ps :: back).isEmpty = false := by cases front <;> rfl
  have hblock : block (front ++ ps :: back) =
      (text "[" :: front.flatMap fun ps => line 1 :: ps.map (inside 1)) ++
        line 1 :: (ps.map (inside 1) ++
          ((back.flatMap fun ps => line 1 :: ps.map (inside 1)) ++ [line 0, text "]"])) := by
    simp [block, hne]
  rw [hblock]
  cases back with
  | nil => exact ⟨_, 0, [text "]"], rfl⟩
  | cons next back => exact ⟨_, 1, _, rfl⟩

theorem Within.block (h : Within k ps qs) (hqs : qs ∈ lines) :
    Within (k + 1) ps (block lines) :=
  h.inside.of_isInfix (within_block hqs).map_isInfix

end Nesting
end Piece

namespace Expr

open Piece

/-- The statements on the lines of the block of an expression. -/
def statements : Expr → List Expr
  | ifStatement _ _ body | whileStatement _ _ body | forLoop _ _ _ body => body
  | procDef p => p.body
  | implBlock _ _ block => block.procs.map procDef
  | _ => []

/-- The expressions that are written on the line of an expression. -/
def inlined : Expr → List Expr
  | ifStatement _ test _ | whileStatement _ test _ => [test]
  | forLoop _ _ bounds _ => [bounds]
  | procDef _ | implBlock .. => []
  | e => e.shown

/-- The second expression is a statement in the first one, inside of so many of its blocks. -/
inductive Nested : Nat → Expr → Expr → Prop where
  | statement {e x : Expr} : x ∈ e.statements → Nested 1 e x
  | inlined {k : Nat} {e x y : Expr} : x ∈ e.inlined → Nested k x y → Nested k e y
  | inside {k : Nat} {e x y : Expr} : x ∈ e.statements → Nested k x y → Nested (k + 1) e y

/-- The lines of an expression. -/
def lines (e : Expr) : List Line :=
  linesFrom ⟨0, ""⟩ e.pieces

section Nesting

variable {k : Nat} {e x : Expr}

theorem pieces_mem_statementPieces {es : List Expr} (h : x ∈ es) :
    x.pieces ∈ statementPieces es := by
  induction es with
  | nil => cases h
  | cons e es ih =>
    rcases List.mem_cons.mp h with rfl | h
    · exact List.mem_cons_self
    · exact List.mem_cons_of_mem _ (ih h)

theorem pieces_mem_procPieces {ps : List (Proc Expr)} (h : x ∈ ps.map procDef) :
    x.pieces ∈ procPieces ps := by
  induction ps with
  | nil => cases h
  | cons p ps ih =>
    rcases List.mem_cons.mp h with rfl | h
    · exact List.mem_cons_self
    · exact List.mem_cons_of_mem _ (ih h)

/-- The statements of a block have their pieces among its lines. -/
theorem exists_block (h : x ∈ e.statements) :
    ∃ lines, x.pieces ∈ lines ∧ block lines <:+: e.pieces := by
  cases e with
  | ifStatement _ test body | whileStatement _ test body | forLoop _ _ test body =>
    exact ⟨_, pieces_mem_statementPieces h, (List.suffix_append _ _).isInfix⟩
  | procDef p => exact ⟨_, pieces_mem_statementPieces h, (List.suffix_append _ _).isInfix⟩
  | implBlock _ _ b => exact ⟨_, pieces_mem_procPieces h, (List.suffix_append _ _).isInfix⟩
  | _ => cases h

/-- The values of bindings are written among them. -/
theorem pieces_isInfix_bindings {bs : List (Binding Expr)} (h : x ∈ bs.map Binding.value) :
    ∃ ps ∈ bindingPieces bs, x.pieces <:+: ps := by
  induction bs with
  | nil => cases h
  | cons b bs ih =>
    rcases List.mem_cons.mp h with rfl | h
    · exact ⟨_, List.mem_cons_self, (List.suffix_append _ _).isInfix⟩
    · obtain ⟨ps, hps, hx⟩ := ih h
      exact ⟨ps, List.mem_cons_of_mem _ hps, hx⟩

theorem pieces_isInfix_commas {bs : List (Binding Expr)} (h : x ∈ bs.map Binding.value) :
    x.pieces <:+: commas (bindingPieces bs) := by
  obtain ⟨ps, hps, hx⟩ := pieces_isInfix_bindings h
  exact hx.trans (isInfix_commas hps)

/-- What is written on the line of an expression is written without a change. -/
theorem pieces_isInfix (h : x ∈ e.inlined) : x.pieces <:+: e.pieces := by
  -- A part stands between two texts; behind it there may be a block, or a second operand.
  have hmiddle (before ps after : List Piece) : ps <:+: before ++ ps ++ after :=
    List.infix_append before ps after
  have hhead (before ps after rest : List Piece) : ps <:+: before ++ ps ++ after ++ rest :=
    (hmiddle before ps after).trans (List.prefix_append _ _).isInfix
  have hfirst (before ps after op mid rest last : List Piece) :
      ps <:+: before ++ ps ++ after ++ op ++ mid ++ rest ++ last :=
    (hhead before ps after op).trans ((hmiddle [] _ mid).trans (hhead [] _ rest last))
  cases e with
  | reference | letStatement | assign | fieldAssign | fieldAccess =>
    obtain rfl := List.mem_singleton.mp h
    exact hmiddle _ _ _
  | ifStatement | whileStatement | forLoop =>
    obtain rfl := List.mem_singleton.mp h
    exact hhead _ _ _ _
  | call _ _ bs | implCall _ _ _ _ bs | structInstance _ v =>
    exact (pieces_isInfix_commas h).trans (hmiddle _ _ _)
  | returnStatement _ value =>
    cases value with
    | none => cases h
    | some value =>
      obtain rfl := List.mem_singleton.mp h
      exact hmiddle _ _ _
  | range _ start stop =>
    rcases List.mem_cons.mp h with rfl | h
    · exact (hhead _ _ _ _).trans (List.prefix_append _ _).isInfix
    · obtain rfl := List.mem_singleton.mp h
      exact hmiddle _ _ _
  | binary _ lhs op rhs =>
    rcases List.mem_cons.mp h with rfl | h
    · exact hfirst _ _ _ _ _ _ _
    · obtain rfl := List.mem_singleton.mp h
      exact hmiddle _ _ _
  | literal | structDef | procDef | implBlock => cases h

theorem Nested.within (h : Nested k e x) : Within k x.pieces e.pieces := by
  induction h with
  | statement hx =>
    obtain ⟨lines, hlines, hblock⟩ := exists_block hx
    exact (within_block hlines).of_isInfix hblock
  | inlined hx _ ih => exact ih.of_isInfix (pieces_isInfix hx)
  | inside hx _ ih =>
    obtain ⟨lines, hlines, hblock⟩ := exists_block hx
    exact (ih.block hlines).of_isInfix hblock

/-- An expression starts outside of its own blocks. -/
theorem exists_lines (e : Expr) : ∃ text below, e.lines = ⟨0, text⟩ :: below :=
  exists_linesFrom ⟨0, ""⟩ e.pieces

/-- The lines of a nested statement are its own, inside of the blocks around it. -/
theorem Nested.lines (h : Nested k e x) : x.lines.map (Line.inside k) <:+: e.lines := by
  obtain ⟨before, blocks, after, hpieces⟩ := h.within
  have hmoved := linesFrom_inside k ⟨0, ""⟩ x.pieces
  rw [Line.inside, Nat.zero_add] at hmoved
  unfold Expr.lines
  rw [hpieces, linesFrom_append_line, linesFrom_append_line, hmoved]
  exact ⟨_, _, List.append_assoc _ _ _⟩

example (pos : Position) :
    lines (.whileStatement pos (.literal pos "true" .bool)
      [.ifStatement pos (.literal pos "false" .bool) [.returnStatement pos none]]) =
    [⟨0, "While (Literal ('true', Bool)) ["⟩, ⟨1, "If (Literal ('false', Bool)) ["⟩, ⟨2, "Return"⟩,
      ⟨1, "]"⟩, ⟨0, "]"⟩] := by
  rfl

end Nesting

section Inline

variable {e : Expr}

/-- Blocks around an expression only move its lines. -/
theorem IsInline.render_eq_indented (h : e.IsInline) (depth : Nat) :
    e.render depth = indented depth (e.render 0) := by
  have hdepth : (e.render depth).toList = write depth e.pieces := writes_pieces e depth
  have hzero : (e.render 0).toList = write 0 e.pieces := writes_pieces e 0
  rw [← String.toList_inj, indented, String.toList_ofList, hdepth, hzero]
  exact (laid_pieces e h).tidy.write_eq depth

theorem IsInline.lines (h : e.IsInline) : ∀ l ∈ e.lines, Inline l.text ∧ StartsInk l.text :=
  have hlaid := laid_pieces e h
  hlaid.tidy.linesFrom (by decide) (.inr ⟨rfl, hlaid.starts⟩)

/-- An expression is written as its lines, one below the other. -/
theorem flatMap_lines (e : Expr) :
    e.lines.flatMap (fun l => l.chars ++ ['\n']) = (e.render 0 ++ "\n").toList := by
  have hzero : (e.render 0).toList = write 0 e.pieces := writes_pieces e 0
  rw [Expr.lines, flatMap_linesFrom, String.toList_append, hzero]
  rfl

end Inline
end Expr

/-- The lines of a program. -/
def Program.lines (p : Program) : List Line :=
  p.flatMap Expr.lines

section Programs

theorem Line.not_mem_chars {l : Line} (h : Inline l.text) : '\n' ∉ l.chars := by
  rw [Line.chars, List.mem_append, not_or]
  exact ⟨by simp, h⟩

/-- Lines that each end with a line feed, with nothing behind the last one. -/
theorem flatMap_eq_intercalate (ls : List Line) :
    ls.flatMap (fun l => l.chars ++ ['\n']) = ['\n'].intercalate (ls.map Line.chars ++ [[]]) := by
  induction ls with
  | nil => rfl
  | cons l ls ih =>
    rw [List.flatMap_cons, ih]
    cases ls <;> simp [List.intercalate_cons_cons]

theorem Program.lines_isInfix {p : Program} {e : Expr} (he : e ∈ p) : e.lines <:+: p.lines := by
  obtain ⟨before, after, rfl⟩ := List.append_of_mem he
  unfold Program.lines
  rw [List.flatMap_append, List.flatMap_cons, ← List.append_assoc]
  exact List.infix_append _ _ _

theorem Program.flatMap_lines (p : Program) :
    p.lines.flatMap (fun l => l.chars ++ ['\n']) = p.render.toList := by
  rw [Program.render, String.toList_join, List.flatMap_map, Program.lines, List.flatMap_assoc]
  exact congrArg (p.flatMap ·) (funext Expr.flatMap_lines)

/-- A program is parted into its lines by its line feeds. -/
theorem Program.splitOn_render {p : Program} (h : ∀ e ∈ p, e.IsInline) :
    p.render.toList.splitOn '\n' = p.lines.map Line.chars ++ [[]] := by
  have hlines : ∀ l ∈ p.lines.map Line.chars, '\n' ∉ l := by
    refine List.forall_mem_map.mpr fun l hl => ?_
    obtain ⟨e, he, hl⟩ := List.mem_flatMap.mp hl
    exact Line.not_mem_chars ((h e he).lines l hl).1
  rw [← p.flatMap_lines, flatMap_eq_intercalate]
  refine List.splitOn_intercalate _ (List.forall_mem_append.mpr ⟨hlines, by simp⟩) ?_
  exact List.append_ne_nil_of_right_ne_nil _ (List.cons_ne_nil _ _)

/-- Each expression is written by itself, whatever stands before it. -/
theorem Program.render_append (p q : Program) : Program.render (p ++ q) = p.render ++ q.render := by
  unfold Program.render
  rw [List.map_append, String.join_append]

/--
Blocks are written in the same way at every depth.

* An expression inside of `depth` blocks is written as outside of all blocks, with `4 * depth`
  spaces behind each line feed, and the counter of blocks is then as before.  The names in what is
  read of a text go over the end of no line, so that only literals could.
* The lines of a program are indented by four spaces for each block around them and by nothing else.
  A statement inside of `k` blocks starts on a line inside of `k` blocks, and it has the same lines
  as on its own, each inside of `k` blocks more.
* What an expression is written as does not depend on what was written before it.
-/
theorem rendering_uniform :
    (∀ e : Expr, e.IsInline → ∀ depth,
      (Printer.visit e).run depth = (indented depth (e.render 0), depth)) ∧
    (∀ file source, ∀ root ∈ (parseProgram file source).trees, ∀ e, root.Contains e →
      e.LiteralsInline → e.IsInline) ∧
    (∀ p : Program, (∀ e ∈ p, e.IsInline) →
      p.render.toList.splitOn '\n' = p.lines.map Line.chars ++ [[]] ∧
      (∀ l ∈ p.lines, StartsInk l.text) ∧
      ∀ e ∈ p, ∀ k x, e.Nested k x → ∃ text below, x.lines = ⟨0, text⟩ :: below ∧
        ⟨k, text⟩ :: below.map (Line.inside k) <:+: p.lines) ∧
    (∀ (es : List Expr) (e : Expr) depth,
      (es.mapM Printer.visit >>= fun _ => Printer.visit e).run depth =
        (Printer.visit e).run depth) ∧
    (∀ (p : Program) depth, ((Printer.printProgram p).run depth).1 = p.render) ∧
    ∀ before (e : Expr) after,
      Program.render (before ++ e :: after) =
        Program.render before ++ (e.render 0 ++ "\n") ++ Program.render after := by
  refine ⟨fun e h depth => ?_, fun file source root hroot e he hliterals => ?_, fun p h => ?_,
    Printer.visit_run_behind, Printer.printProgram_run, fun before e after => ?_⟩
  · rw [Printer.visit_run, h.render_eq_indented]
  · exact ⟨parseProgram_names_inline file source root hroot e he, hliterals⟩
  · refine ⟨Program.splitOn_render h, fun l hl => ?_, fun e he k x hx => ?_⟩
    · obtain ⟨e, he, hl⟩ := List.mem_flatMap.mp hl
      exact ((h e he).lines l hl).2
    · obtain ⟨text, below, hlines⟩ := x.exists_lines
      refine ⟨text, below, hlines, ?_⟩
      have hmoved := hx.lines.trans (Program.lines_isInfix he)
      rwa [hlines, List.map_cons, Line.inside, Nat.zero_add] at hmoved
  · have hfirst : Program.render [e] = e.render 0 ++ "\n" := by simp [Program.render]
    rw [← List.singleton_append, ← List.append_assoc, Program.render_append,
      Program.render_append, hfirst]

end Programs
end ScriptFront
