import ScriptFront.Tree.Render
import Mathlib.Data.List.Forall2

/-!
# The pieces of a written tree

A written tree is a sequence of pieces: texts, and new lines inside of some number of blocks.  The
pieces of an expression do not depend on the blocks around it; a block has the pieces of its lines
inside of one block more.  What is written of them at some depth is the readable form at that depth.

**Results.**

* `Expr.writes_pieces`: the pieces of an expression give its readable form at every depth.
-/

namespace ScriptFront

/-- A part of a written tree. -/
inductive Piece where
  | text (s : String)
  /-- A new line inside of some blocks. -/
  | line (blocks : Nat)

namespace Piece

/-- The same piece inside of `k` blocks more. -/
def inside (k : Nat) : Piece → Piece
  | text s => text s
  | line blocks => line (blocks + k)

/-- What is written of a piece inside of `depth` blocks. -/
def chars (depth : Nat) : Piece → List Char
  | text s => s.toList
  | line blocks => '\n' :: List.replicate (4 * (depth + blocks)) ' '

/-- What is written of several pieces. -/
def write (depth : Nat) (ps : List Piece) : List Char :=
  ps.flatMap (chars depth)

/-- A block with the pieces of each line. -/
def block (lines : List (List Piece)) : List Piece :=
  if lines.isEmpty then [text "[]"]
  else
    [text "["] ++ lines.flatMap (fun ps => line 1 :: ps.map (inside 1)) ++ [line 0, text "]"]

/-- Pieces with commas between them. -/
def commas (parts : List (List Piece)) : List Piece :=
  [text ", "].intercalate parts

end Piece

namespace Expr

open Piece

mutual

/-- The pieces of an expression. -/
def pieces : Expr → List Piece
  | literal _ lexeme lit =>
    [text ("Literal ('" ++ lexeme ++ "', " ++ Text.titleCase lit.label ++ ")")]
  | reference _ ⟨name, typeName, value⟩ =>
    [text ("Variable (" ++ name ++ ": " ++ typeName ++ " = ")] ++ value.pieces ++ [text ")"]
  | letStatement _ name typeName value =>
    [text ("Let (" ++ name ++ ": " ++ typeName ++ " = ")] ++ value.pieces ++ [text ")"]
  | assign _ target value =>
    [text ("Assign (" ++ target.name ++ " = ")] ++ value.pieces ++ [text ")"]
  | returnStatement _ none => [text "Return"]
  | returnStatement _ (some value) => [text "Return ("] ++ value.pieces ++ [text ")"]
  | ifStatement _ condition body =>
    [text "If ("] ++ condition.pieces ++ [text ") "] ++ block (statementPieces body)
  | whileStatement _ condition body =>
    [text "While ("] ++ condition.pieces ++ [text ") "] ++ block (statementPieces body)
  | range _ start stop =>
    [text "Range ("] ++ start.pieces ++ [text ".."] ++ stop.pieces ++ [text ")"]
  | forLoop _ counter bounds body =>
    [text ("For (" ++ counter.name ++ " in ")] ++ bounds.pieces ++ [text ") "] ++
      block (statementPieces body)
  | procDef ⟨_, _, name, returnType, params, body⟩ =>
    [text (procHead name params returnType)] ++ block (statementPieces body)
  | call _ callee args =>
    [text ("FunCall " ++ callee.name ++ "(")] ++ commas (bindingPieces args) ++ [text ")"]
  | structDef _ struct =>
    [text (bracedText ("StructDef " ++ struct.name) (typedNamesText struct.fields))]
  | structInstance _ ⟨struct, fields⟩ =>
    [text ("StructInstance " ++ struct.name ++ " \x7b ")] ++ commas (bindingPieces fields) ++
      [text " \x7d"]
  | implBlock _ _ ⟨struct, procs⟩ =>
    [text ("Impl " ++ struct.name ++ " ")] ++ block (procPieces procs)
  | implCall _ _ struct callee args =>
    [text ("ImplFunCall " ++ struct ++ "::" ++ callee.name ++ "(")] ++
      commas (bindingPieces args) ++ [text ")"]
  | fieldAssign _ owner field value =>
    [text ("FieldAssign (" ++ owner.name ++ "." ++ field.name ++ " = ")] ++ value.pieces ++
      [text ")"]
  | fieldAccess _ owner ⟨name, _, value⟩ =>
    [text ("FieldAccess (" ++ owner.name ++ "." ++ name ++ " = ")] ++ value.pieces ++ [text ")"]
  | binary _ lhs op rhs =>
    [text "BinaryOp ("] ++ lhs.pieces ++ [text ", "] ++ [text (Text.titleCase op.label)] ++
      [text ", "] ++ rhs.pieces ++ [text ")"]

/-- The pieces of each statement of a block. -/
def statementPieces : List Expr → List (List Piece)
  | [] => []
  | e :: es => e.pieces :: statementPieces es

/-- The pieces of each procedure of an impl block. -/
def procPieces : List (Proc Expr) → List (List Piece)
  | [] => []
  | ⟨_, _, name, returnType, params, body⟩ :: ps =>
    ([text (procHead name params returnType)] ++ block (statementPieces body)) :: procPieces ps

/-- The pieces of each of some bindings. -/
def bindingPieces : List (Binding Expr) → List (List Piece)
  | [] => []
  | ⟨name, typeName, value⟩ :: bs =>
    ([text (name ++ ": " ++ typeName ++ " = ")] ++ value.pieces) :: bindingPieces bs

end

end Expr

namespace Piece

variable {depth : Nat} {ps qs : List Piece} {s t : String}

@[simp] theorem write_cons (p : Piece) (ps : List Piece) :
    write depth (p :: ps) = p.chars depth ++ write depth ps :=
  List.flatMap_cons

@[simp] theorem write_append (ps qs : List Piece) :
    write depth (ps ++ qs) = write depth ps ++ write depth qs :=
  List.flatMap_append

/-- Inside of `k` blocks more everything is written `k` blocks deeper. -/
theorem write_inside (k : Nat) (ps : List Piece) :
    write depth (ps.map (inside k)) = write (depth + k) ps := by
  have hchars (p : Piece) : (p.inside k).chars depth = p.chars (depth + k) := by
    cases p with
    | text s => rfl
    | line blocks => rw [inside, chars, chars, Nat.add_assoc, Nat.add_comm blocks]
  unfold write
  rw [List.flatMap_map]
  exact congrArg (ps.flatMap ·) (funext hchars)

/-- Inside of `depth` blocks the pieces are written as the text. -/
def Writes (depth : Nat) (ps : List Piece) (s : String) : Prop :=
  s.toList = write depth ps

/-- The pieces of each line are written as its text, behind the indent for the blocks around it. -/
def WritesLines (depth : Nat) (lines : List (List Piece)) (texts : List String) : Prop :=
  List.Forall₂ (fun ps => Writes depth ([text (Expr.indent depth)] ++ ps)) lines texts

theorem writes_text (s : String) : Writes depth [text s] s :=
  (List.append_nil _).symm

theorem Writes.append (hs : Writes depth ps s) (ht : Writes depth qs t) :
    Writes depth (ps ++ qs) (s ++ t) := by
  unfold Writes
  rw [String.toList_append, write_append, hs, ht]

theorem Writes.enclose (hs : Writes depth ps s) (before after : String) :
    Writes depth ([text before] ++ ps ++ [text after]) (before ++ s ++ after) :=
  ((writes_text before).append hs).append (writes_text after)

theorem Writes.commas {parts : List (List Piece)} {texts : List String}
    (h : List.Forall₂ (Writes depth) parts texts) :
    Writes depth (commas parts) (", ".intercalate texts) := by
  unfold Piece.commas
  induction h with
  | nil => rfl
  | @cons ps s parts texts hps hothers ih =>
    cases hothers with
    | nil => simpa using hps
    | cons hqs hothers =>
      rw [List.intercalate_cons_cons, String.intercalate_cons_cons]
      exact (hps.append (writes_text ", ")).append ih

theorem WritesLines.nil : WritesLines depth [] [] :=
  List.Forall₂.nil

theorem WritesLines.cons {lines : List (List Piece)} {texts : List String} (hs : Writes depth ps s)
    (h : WritesLines depth lines texts) :
    WritesLines depth (ps :: lines) ((Expr.indent depth ++ s) :: texts) :=
  List.Forall₂.cons ((writes_text _).append hs) h

/-- Texts with line feeds between them, behind a line feed. -/
theorem lineFeed_intercalate {texts : List String} (h : texts ≠ []) :
    '\n' :: ("\n".intercalate texts).toList = texts.flatMap fun s => '\n' :: s.toList := by
  induction texts with
  | nil => exact absurd rfl h
  | cons s texts ih =>
    cases texts with
    | nil => simp
    | cons t texts =>
      rw [String.intercalate_cons_cons, List.flatMap_cons, ← ih (List.cons_ne_nil _ _)]
      simp

/-- The lines of a block are written behind a line feed each. -/
theorem WritesLines.write_eq {lines : List (List Piece)} {texts : List String}
    (h : WritesLines (depth + 1) lines texts) :
    write depth (lines.flatMap fun ps => line 1 :: ps.map (inside 1)) =
      texts.flatMap fun s => '\n' :: s.toList := by
  induction h with
  | nil => rfl
  | @cons ps s lines texts hline _ ih =>
    rw [List.flatMap_cons, write_append, ih, List.flatMap_cons, write_cons, write_inside,
      show s.toList = _ from hline, write_append]
    simp [chars, write, Expr.indent]

/-- A block is written as its lines between brackets. -/
theorem WritesLines.block {lines : List (List Piece)} {texts : List String}
    (h : WritesLines (depth + 1) lines texts) :
    Writes depth (block lines) (Expr.blockText depth texts) := by
  have hwrite := h.write_eq
  unfold Piece.block Expr.blockText
  cases h with
  | nil => exact writes_text "[]"
  | cons _ _ =>
    rw [← lineFeed_intercalate (List.cons_ne_nil _ _)] at hwrite
    unfold Writes
    simp only [List.isEmpty_cons, Bool.false_eq_true, if_false, String.toList_append,
      write_append, hwrite]
    simp [chars, write, Expr.indent]

end Piece

namespace Expr

open Piece

mutual

/-- The pieces of an expression give its readable form at every depth. -/
theorem writes_pieces (e : Expr) (depth : Nat) : Writes depth e.pieces (e.render depth) := by
  match e with
  | .literal .. | .structDef .. | .returnStatement _ none => exact writes_text _
  | .reference _ ⟨_, _, value⟩ | .letStatement _ _ _ value | .assign _ _ value
  | .returnStatement _ (some value) | .fieldAssign _ _ _ value | .fieldAccess _ _ ⟨_, _, value⟩ =>
    exact (writes_pieces value depth).enclose _ _
  | .range _ first second =>
    have hfirst := (writes_pieces first depth).enclose "Range (" ".."
    exact (hfirst.append (writes_pieces second depth)).append (writes_text ")")
  | .binary _ lhs op rhs =>
    have hlhs := (writes_pieces lhs depth).enclose "BinaryOp (" ", "
    have hop := (hlhs.append (writes_text (Text.titleCase op.label))).append (writes_text ", ")
    exact (hop.append (writes_pieces rhs depth)).append (writes_text ")")
  | .call _ _ bindings | .implCall _ _ _ _ bindings | .structInstance _ ⟨_, bindings⟩ =>
    exact (Writes.commas (writes_bindingPieces bindings depth)).enclose _ _
  | .ifStatement _ head body | .whileStatement _ head body | .forLoop _ _ head body =>
    exact ((writes_pieces head depth).enclose _ _).append
      (WritesLines.block (writes_statementPieces body (depth + 1)))
  | .procDef ⟨_, _, _, _, _, body⟩ =>
    exact (writes_text _).append (WritesLines.block (writes_statementPieces body (depth + 1)))
  | .implBlock _ _ ⟨_, procs⟩ =>
    exact (writes_text _).append (WritesLines.block (writes_procPieces procs (depth + 1)))

theorem writes_statementPieces (es : List Expr) (depth : Nat) :
    WritesLines depth (statementPieces es) (statementLines depth es) := by
  match es with
  | [] => exact .nil
  | e :: es => exact .cons (writes_pieces e depth) (writes_statementPieces es depth)

theorem writes_procPieces (ps : List (Proc Expr)) (depth : Nat) :
    WritesLines depth (procPieces ps) (procLines depth ps) := by
  match ps with
  | [] => exact .nil
  | ⟨_, _, name, returnType, params, body⟩ :: ps =>
    have hproc := (writes_text (procHead name params returnType)).append
      (WritesLines.block (writes_statementPieces body (depth + 1)))
    exact .cons hproc (writes_procPieces ps depth)

theorem writes_bindingPieces (bs : List (Binding Expr)) (depth : Nat) :
    List.Forall₂ (Writes depth) (bindingPieces bs) (bindingTexts depth bs) := by
  match bs with
  | [] => exact .nil
  | ⟨name, typeName, value⟩ :: bs =>
    have hbinding := (writes_text (name ++ ": " ++ typeName ++ " = ")).append
      (writes_pieces value depth)
    exact .cons hbinding (writes_bindingPieces bs depth)

end

end Expr
end ScriptFront
