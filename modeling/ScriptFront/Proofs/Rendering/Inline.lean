import ScriptFront.Proofs.Names.Written
import ScriptFront.Proofs.Rendering.Pieces
import ScriptFront.Proofs.Scanning.Spelling

/-!
# Texts that stay on their lines

The line feeds of a written tree are those between the lines of its blocks, if no name and no
literal has one of its own.  Names have none if the tree is read of a text, since none continues a
word; literals may have some.  Then each text stays on its line, and the first on a new line starts
with no space, so that nothing could be taken for a part of the indent.

**Results.**

* `Expr.laid_pieces`: what is written of an expression without line feeds in names and literals.
* `parseProgram_names_inline`: the names in what is read of a text.
-/

namespace ScriptFront

/-- A text without a line feed. -/
def Inline (s : String) : Prop :=
  '\n' ∉ s.toList

instance (s : String) : Decidable (Inline s) :=
  inferInstanceAs (Decidable (¬ _))

@[simp] theorem inline_append {s t : String} : Inline (s ++ t) ↔ Inline s ∧ Inline t := by
  unfold Inline
  rw [String.toList_append, List.mem_append, not_or]

/-- What stands on a line starts with some character, and that is no space. -/
def StartsInk (s : String) : Prop :=
  ∃ c ∈ s.toList.head?, c ≠ ' '

theorem startsInk_append {s : String} (h : StartsInk s) (t : String) : StartsInk (s ++ t) := by
  obtain ⟨c, hc, hne⟩ := h
  refine ⟨c, ?_, hne⟩
  rw [String.toList_append, List.head?_append, Option.mem_def.mp hc]
  rfl

namespace Piece

/-- The first piece is a text that starts with no space. -/
def Starts (ps : List Piece) : Prop :=
  ∃ s rest, ps = text s :: rest ∧ StartsInk s

/-- Texts stay on their lines, and a new line starts with a text that starts with no space. -/
inductive Tidy : List Piece → Prop where
  | nil : Tidy []
  | text {s : String} {ps : List Piece} : Inline s → Tidy ps → Tidy (text s :: ps)
  | line {blocks : Nat} {ps : List Piece} : Starts ps → Tidy ps → Tidy (line blocks :: ps)

/-- The pieces of something that may stand on a line of its own. -/
structure Laid (ps : List Piece) : Prop where
  starts : Starts ps
  tidy : Tidy ps

section Laying

variable {ps qs : List Piece} {s : String}

theorem Starts.append (h : Starts ps) (qs : List Piece) : Starts (ps ++ qs) := by
  obtain ⟨s, rest, rfl, hs⟩ := h
  exact ⟨s, rest ++ qs, rfl, hs⟩

theorem Tidy.append (hps : Tidy ps) (hqs : Tidy qs) : Tidy (ps ++ qs) := by
  induction hps with
  | nil => exact hqs
  | text hs _ ih => exact .text hs ih
  | line hstarts _ ih => exact .line (hstarts.append _) ih

theorem Starts.inside (h : Starts ps) (k : Nat) : Starts (ps.map (inside k)) := by
  obtain ⟨s, rest, rfl, hs⟩ := h
  exact ⟨s, rest.map (Piece.inside k), rfl, hs⟩

theorem Tidy.inside (h : Tidy ps) (k : Nat) : Tidy (ps.map (inside k)) := by
  induction h with
  | nil => exact .nil
  | text hs _ ih => exact .text hs ih
  | line hstarts _ ih => exact .line (hstarts.inside k) ih

theorem Laid.append (hps : Laid ps) (hqs : Tidy qs) : Laid (ps ++ qs) :=
  ⟨hps.starts.append qs, hps.tidy.append hqs⟩

theorem tidy_text (h : Inline s) : Tidy [text s] :=
  .text h .nil

theorem laid_text (hs : StartsInk s) (h : Inline s) : Laid [text s] :=
  ⟨⟨s, [], rfl, hs⟩, tidy_text h⟩

theorem Tidy.enclose {before after : String} (h : Tidy ps) (hstarts : StartsInk before)
    (hbefore : Inline before) (hafter : Inline after) :
    Laid ([Piece.text before] ++ ps ++ [Piece.text after]) :=
  ((laid_text hstarts hbefore).append h).append (tidy_text hafter)

theorem tidy_flatMap {α : Type} {xs : List α} {f : α → List Piece} (h : ∀ x ∈ xs, Tidy (f x)) :
    Tidy (xs.flatMap f) := by
  induction xs with
  | nil => exact .nil
  | cons x xs ih =>
    rw [List.flatMap_cons]
    exact (h x List.mem_cons_self).append (ih fun y hy => h y (List.mem_cons_of_mem x hy))

theorem tidy_commas {parts : List (List Piece)} (h : ∀ ps ∈ parts, Tidy ps) :
    Tidy (commas parts) := by
  unfold commas
  induction parts with
  | nil => exact .nil
  | cons ps parts ih =>
    obtain ⟨hps, hparts⟩ := List.forall_mem_cons.mp h
    cases parts with
    | nil => simpa using hps
    | cons qs parts =>
      rw [List.intercalate_cons_cons]
      exact (hps.append (tidy_text (by decide))).append (ih hparts)

/-- A block is tidy if each of its lines may stand on its own. -/
theorem tidy_block {lines : List (List Piece)} (h : ∀ ps ∈ lines, Laid ps) :
    Tidy (block lines) := by
  unfold block
  split
  · exact tidy_text (by decide)
  · refine .append (.append (tidy_text (by decide)) (tidy_flatMap fun ps hps => ?_)) ?_
    · exact .line ((h ps hps).starts.inside 1) ((h ps hps).tidy.inside 1)
    · exact .line ⟨"]", [], rfl, ']', by decide, by decide⟩ (tidy_text (by decide))

end Laying
end Piece

namespace Expr

/-- The expressions that are written as parts of an expression. -/
def shown : Expr → List Expr
  | fieldAccess _ _ field => [field.value]
  | e => e.children

/-- The property is true of an expression and of all that is written as a part of it. -/
inductive AllShown (P : Expr → Prop) : Expr → Prop where
  | intro {e : Expr} : P e → (∀ x ∈ e.shown, AllShown P x) → AllShown P e

/-- The lexeme of a literal. -/
def lexeme? : Expr → Option String
  | literal _ lexeme _ => some lexeme
  | _ => none

/-- No literal that is written goes over the end of a line. -/
def LiteralsInline (e : Expr) : Prop :=
  e.AllShown fun x => ∀ lexeme ∈ x.lexeme?, Inline lexeme

/-- Neither a name nor a literal goes over the end of a line. -/
structure IsInline (e : Expr) : Prop where
  names : e.NamedBy Inline
  literals : e.LiteralsInline

section Shown

variable {e x : Expr}

theorem AllShown.self {P : Expr → Prop} (h : e.AllShown P) : P e := by
  cases h with
  | intro he _ => exact he

/-- What is written as a part of an expression is held by it. -/
theorem mem_held_of_mem_shown (h : x ∈ e.shown) : x ∈ e.held := by
  cases e with
  | assign | forLoop | call | implCall | fieldAccess => exact List.mem_cons_of_mem _ h
  | fieldAssign => exact List.mem_cons_of_mem _ (List.mem_cons_of_mem _ h)
  | literal | structDef => cases h
  | _ => exact h

theorem IsInline.inline_names (h : e.IsInline) : ∀ name ∈ e.names, Inline name :=
  (namedBy_iff.mp h.names).1

theorem IsInline.shown (h : e.IsInline) (hx : x ∈ e.shown) : x.IsInline := by
  refine ⟨h.names.held (mem_held_of_mem_shown hx), ?_⟩
  cases h.literals with
  | intro _ hshown => exact hshown x hx

end Shown

section Texts

theorem inline_typedNamesText {fields : List TypedName}
    (h : ∀ name ∈ fields.flatMap TypedName.names, Inline name) :
    Inline (typedNamesText fields) := by
  unfold typedNamesText
  induction fields with
  | nil => decide
  | cons f fields ih =>
    rw [List.flatMap_cons, List.forall_mem_append, TypedName.names, List.forall_mem_cons,
      List.forall_mem_singleton] at h
    obtain ⟨⟨hname, htype⟩, hothers⟩ := h
    have hfirst : Inline (typedNameText f) := by simp +decide [typedNameText, hname, htype]
    cases fields with
    | nil => simpa using hfirst
    | cons g fields =>
      rw [List.map_cons, List.map_cons, String.intercalate_cons_cons]
      simpa +decide [hfirst] using ih hothers

theorem inline_structDef {struct : StructDef} (h : struct.NamedBy Inline) :
    Inline (bracedText ("StructDef " ++ struct.name) (typedNamesText struct.fields)) := by
  obtain ⟨hname, hfields⟩ := List.forall_mem_cons.mp h
  simp +decide [bracedText, hname, inline_typedNamesText hfields]

/-- The head of a procedure may stand on a line of its own. -/
theorem laid_procHead {p : Proc Expr} (h : p.NamedBy Inline) :
    Piece.Laid [.text (procHead p.name p.params p.returnType)] := by
  obtain ⟨hname, hothers⟩ := List.forall_mem_cons.mp (Proc.namedBy_iff.mp h).1
  obtain ⟨htype, hparams⟩ := List.forall_mem_append.mp hothers
  have hreturn : Inline (p.returnType.getD "None") := by
    cases hr : p.returnType with
    | none => decide
    | some typeName => exact htype typeName (by simp [hr])
  refine Piece.laid_text (by simp [StartsInk, procHead]) ?_
  simp +decide [procHead, hname, inline_typedNamesText hparams, hreturn]

end Texts

open Piece

section Bindings

variable {bs : List (Binding Expr)}

/-- The bindings in a call or in a struct instance, with the values that are written. -/
theorem IsInline.bindings {e : Expr} (h : e.IsInline) (hnames : ∀ b ∈ bs, b.NamedBy Inline)
    (hshown : e.shown = bs.map Binding.value) : ∀ b ∈ bs, b.NamedBy Inline ∧ b.value.IsInline :=
  fun b hb => ⟨hnames b hb, h.shown (hshown ▸ List.mem_map_of_mem hb)⟩

end Bindings

mutual

/-- The pieces of an expression may stand on a line of their own. -/
theorem laid_pieces (e : Expr) (h : e.IsInline) : Laid e.pieces := by
  match e with
  | .literal _ lexeme lit =>
    have hlexeme : Inline lexeme := h.literals.self lexeme rfl
    exact laid_text (by simp [StartsInk]) (by cases lit <;> simp +decide [hlexeme])
  | .structDef _ struct =>
    exact laid_text (by simp [StartsInk, bracedText]) (inline_structDef h.inline_names)
  | .returnStatement _ none => exact laid_text ⟨'R', by decide, by decide⟩ (by decide)
  | .reference _ ⟨name, typeName, value⟩ =>
    have hvalue := laid_pieces value (h.shown List.mem_cons_self)
    have hbinding := namedBy_reference.mp h.names
    exact hvalue.tidy.enclose (by simp [StartsInk])
      (by simp +decide [hbinding.name, hbinding.typeName]) (by decide)
  | .letStatement _ name typeName value =>
    have hvalue := laid_pieces value (h.shown List.mem_cons_self)
    obtain ⟨hname, hothers⟩ := List.forall_mem_cons.mp h.inline_names
    have htype := List.forall_mem_singleton.mp hothers
    exact hvalue.tidy.enclose (by simp [StartsInk]) (by simp +decide [hname, htype]) (by decide)
  | .assign _ target value =>
    have hvalue := laid_pieces value (h.shown List.mem_cons_self)
    have hname := h.inline_names target.name List.mem_cons_self
    exact hvalue.tidy.enclose (by simp [StartsInk]) (by simp +decide [hname]) (by decide)
  | .returnStatement _ (some value) =>
    have hvalue := laid_pieces value (h.shown List.mem_cons_self)
    exact hvalue.tidy.enclose ⟨'R', by decide, by decide⟩ (by decide) (by decide)
  | .fieldAssign _ owner field value =>
    have hvalue := laid_pieces value (h.shown List.mem_cons_self)
    have hnames := h.inline_names
    have howner := hnames owner.name List.mem_cons_self
    have hfield := hnames field.name (List.mem_append_right _ List.mem_cons_self)
    exact hvalue.tidy.enclose (by simp [StartsInk]) (by simp +decide [howner, hfield]) (by decide)
  | .fieldAccess _ owner ⟨name, _, value⟩ =>
    have hvalue := laid_pieces value (h.shown List.mem_cons_self)
    have hnames := h.inline_names
    have howner := hnames owner.name List.mem_cons_self
    have hfield := hnames name (List.mem_append_right _ List.mem_cons_self)
    exact hvalue.tidy.enclose (by simp [StartsInk]) (by simp +decide [howner, hfield]) (by decide)
  | .range _ start stop =>
    have hstart := laid_pieces start (h.shown List.mem_cons_self)
    have hstop := laid_pieces stop (h.shown (List.mem_cons_of_mem _ List.mem_cons_self))
    have hfirst : Laid ([text "Range ("] ++ start.pieces ++ [text ".."]) :=
      hstart.tidy.enclose ⟨'R', by decide, by decide⟩ (by decide) (by decide)
    exact (hfirst.append hstop.tidy).append (tidy_text (by decide))
  | .binary _ lhs op rhs =>
    have hlhs := laid_pieces lhs (h.shown List.mem_cons_self)
    have hrhs := laid_pieces rhs (h.shown (List.mem_cons_of_mem _ List.mem_cons_self))
    have hfirst : Laid ([text "BinaryOp ("] ++ lhs.pieces ++ [text ", "]) :=
      hlhs.tidy.enclose ⟨'B', by decide, by decide⟩ (by decide) (by decide)
    have hop : Laid ([text "BinaryOp ("] ++ lhs.pieces ++ [text ", "] ++
        [text (Text.titleCase op.label)] ++ [text ", "]) :=
      (hfirst.append (tidy_text (by cases op <;> decide))).append (tidy_text (by decide))
    exact (hop.append hrhs.tidy).append (tidy_text (by decide))
  | .call _ callee args =>
    obtain ⟨hcallee, hargs⟩ := namedBy_call.mp h.names
    have hname := hcallee.name
    have hparts := tidy_bindingPieces args (h.bindings hargs rfl)
    exact (tidy_commas hparts).enclose (by simp [StartsInk]) (by simp +decide [hname]) (by decide)
  | .implCall _ _ struct callee args =>
    obtain ⟨hstruct, hcallee, hargs⟩ := namedBy_implCall.mp h.names
    have hname := hcallee.name
    have hparts := tidy_bindingPieces args (h.bindings hargs rfl)
    exact (tidy_commas hparts).enclose (by simp [StartsInk]) (by simp +decide [hstruct, hname])
      (by decide)
  | .structInstance _ ⟨struct, fields⟩ =>
    obtain ⟨hstruct, hfields⟩ := namedBy_structInstance.mp h.names
    have hname := hstruct struct.name List.mem_cons_self
    have hparts := tidy_bindingPieces fields (h.bindings hfields rfl)
    exact (tidy_commas hparts).enclose (by simp [StartsInk]) (by simp +decide [hname]) (by decide)
  | .ifStatement _ test body =>
    have htest := laid_pieces test (h.shown List.mem_cons_self)
    have hbody := laid_statementPieces body fun e he => h.shown (List.mem_cons_of_mem _ he)
    have hhead : Laid ([text "If ("] ++ test.pieces ++ [text ") "]) :=
      htest.tidy.enclose ⟨'I', by decide, by decide⟩ (by decide) (by decide)
    exact hhead.append (tidy_block hbody)
  | .whileStatement _ test body =>
    have htest := laid_pieces test (h.shown List.mem_cons_self)
    have hbody := laid_statementPieces body fun e he => h.shown (List.mem_cons_of_mem _ he)
    have hhead : Laid ([text "While ("] ++ test.pieces ++ [text ") "]) :=
      htest.tidy.enclose ⟨'W', by decide, by decide⟩ (by decide) (by decide)
    exact hhead.append (tidy_block hbody)
  | .forLoop _ counter bounds body =>
    have hbounds := laid_pieces bounds (h.shown List.mem_cons_self)
    have hbody := laid_statementPieces body fun e he => h.shown (List.mem_cons_of_mem _ he)
    have hname := h.inline_names counter.name List.mem_cons_self
    have hhead : Laid ([text ("For (" ++ counter.name ++ " in ")] ++ bounds.pieces ++
        [text ") "]) :=
      hbounds.tidy.enclose (by simp [StartsInk]) (by simp +decide [hname]) (by decide)
    exact hhead.append (tidy_block hbody)
  | .procDef ⟨_, _, name, returnType, params, body⟩ =>
    have hbody := laid_statementPieces body fun e he => h.shown he
    exact (laid_procHead h.names).append (tidy_block hbody)
  | .implBlock _ _ ⟨struct, procs⟩ =>
    have hprocs := laid_procPieces procs fun p hp => h.shown (List.mem_map_of_mem hp)
    have hname := h.inline_names struct.name List.mem_cons_self
    exact (laid_text (by simp [StartsInk]) (by simp +decide [hname])).append (tidy_block hprocs)

theorem laid_statementPieces (es : List Expr) (h : ∀ e ∈ es, e.IsInline) :
    ∀ ps ∈ statementPieces es, Laid ps := by
  match es with
  | [] => exact List.forall_mem_nil _
  | e :: es =>
    obtain ⟨he, hes⟩ := List.forall_mem_cons.mp h
    exact List.forall_mem_cons.mpr ⟨laid_pieces e he, laid_statementPieces es hes⟩

theorem laid_procPieces (ps : List (Proc Expr)) (h : ∀ p ∈ ps, (procDef p).IsInline) :
    ∀ qs ∈ procPieces ps, Laid qs := by
  match ps with
  | [] => exact List.forall_mem_nil _
  | ⟨_, _, _, _, _, body⟩ :: ps =>
    obtain ⟨hp, hps⟩ := List.forall_mem_cons.mp h
    have hbody := laid_statementPieces body fun e he => hp.shown he
    exact List.forall_mem_cons.mpr ⟨(laid_procHead hp.names).append (tidy_block hbody),
      laid_procPieces ps hps⟩

theorem tidy_bindingPieces (bs : List (Binding Expr))
    (h : ∀ b ∈ bs, b.NamedBy Inline ∧ b.value.IsInline) : ∀ ps ∈ bindingPieces bs, Tidy ps := by
  match bs with
  | [] => exact List.forall_mem_nil _
  | ⟨name, typeName, value⟩ :: bs =>
    obtain ⟨⟨hb, hvalue⟩, hbs⟩ := List.forall_mem_cons.mp h
    have hhead : Inline (name ++ ": " ++ typeName ++ " = ") := by
      simp +decide [hb.name, hb.typeName]
    exact List.forall_mem_cons.mpr ⟨(tidy_text hhead).append (laid_pieces value hvalue).tidy,
      tidy_bindingPieces bs hbs⟩

end
end Expr

section Names

theorem TokenKind.keyword?_ne_identifier (word : String) : keyword? word ≠ some .identifier := by
  unfold keyword?
  split <;> simp

theorem TokenKind.ofChar?_ne_identifier (c : Char) : ofChar? c ≠ some .identifier := by
  unfold ofChar?
  split <;> simp

theorem TokenKind.ofPair?_ne_identifier (c d : Char) : ofPair? c d ≠ some .identifier := by
  unfold ofPair?
  split <;> simp

namespace Token

theorem isWord_of_form {k : TokenKind} {lit : LiteralType} {text : List Char}
    (h : Form k lit text) (hk : k = .identifier) : isWord text = true := by
  subst hk
  cases h with
  | identifier hword _ _ => exact hword
  | keyword h => exact absurd h (TokenKind.keyword?_ne_identifier _)
  | mark h => exact absurd h (TokenKind.ofChar?_ne_identifier _)
  | wideMark h => exact absurd h (TokenKind.ofPair?_ne_identifier _ _)

theorem isWordChar_of_mem_word {text : List Char} (h : isWord text = true) :
    ∀ c ∈ text, isWordChar c = true := by
  cases text with
  | nil => exact List.forall_mem_nil _
  | cons c cs =>
    rw [isWord, Bool.and_eq_true, List.all_eq_true] at h
    exact List.forall_mem_cons.mpr ⟨isWordChar_of_isWordStart h.1, h.2⟩

/-- A line feed does not continue a word. -/
theorem inline_lexeme {t : Token} (h : t.WellFormed) (hk : t.kind = .identifier) :
    Inline t.lexeme := by
  intro hfeed
  have hword := isWordChar_of_mem_word (isWord_of_form h hk) '\n' hfeed
  rw [isWordChar_of_isBlank (by decide)] at hword
  cases hword

end Token

theorem Written.inline {file : String} {source : List Char} {name : String}
    (h : Written file source name) : Inline name := by
  rcases h with hbuiltin | ⟨t, ht, hk, rfl⟩
  · exact (show ∀ name ∈ builtinTypes, Inline name by decide) name hbuiltin
  · exact Token.inline_lexeme (Token.wellFormed_of_mem_tokens ht) hk

/-- No name in what is read of a text goes over the end of a line. -/
theorem parseProgram_names_inline (file : String) (source : List Char) :
    ∀ root ∈ (parseProgram file source).trees, ∀ e, root.Contains e → e.NamedBy Inline := by
  intro root hroot e he
  have hwritten := (parseProgram_names_written file source root hroot).contains he
  exact hwritten.mono fun x hx name hname => (hx name hname).inline

end Names
end ScriptFront
