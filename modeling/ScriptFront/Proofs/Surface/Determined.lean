import ScriptFront.Proofs.Surface.Syntax

/-!
# The tree of a program determines its text

Two texts that stand for one program differ only in what leaves no trace in the tree.  The bare form
of a text is what remains without it: no lone semicolons, no comma after the last field, no written
type that is the type of the value anyway, and nothing between a bare `return` and the end of the
body of a procedure.

**Results.**

* `Phrase.bare_eq`, `Statement.bare_eq`: the bare form is determined by what a text stands for.
* `bareItems_eq`: so is that of a program.
-/

namespace ScriptFront

namespace Expr

/-- The type that the value of a `let` has, whatever type has been written. -/
def inferredType? : Expr → Option String
  | .letStatement _ _ _ value => some value.valueType
  | _ => none

/-- The statements in the block of a statement. -/
def inner : Expr → List Expr
  | .ifStatement _ _ body | .whileStatement _ _ body | .forLoop _ _ _ body => body
  | .procDef proc => proc.body
  | _ => []

/-- The bodies of the procedures of an impl block. -/
def innerBodies : Expr → List (List Expr)
  | .implBlock _ _ block => block.procs.map Proc.body
  | _ => []

end Expr

namespace Surface

section BareForm

mutual

/-- A phrase without commas after the last field. -/
def Phrase.bare : Phrase → Phrase
  | .operand x => .operand x
  | .call name args => .call name (Phrase.bareAll args)
  | .implCall struct name args => .implCall struct name (Phrase.bareAll args)
  | .fieldAccess owner field => .fieldAccess owner field
  | .chain lhs op rhs => .chain lhs.bare op rhs
  | .step lhs op => .step lhs.bare op
  | .not inner => .not inner.bare
  | .structLiteral name fields _ => .structLiteral name (Phrase.bareFields fields) false
  | .assign name value => .assign name value.bare
  | .fieldAssign owner field value => .fieldAssign owner field value.bare

def Phrase.bareAll : List Phrase → List Phrase
  | [] => []
  | x :: xs => x.bare :: Phrase.bareAll xs

def Phrase.bareFields : List (String × Phrase) → List (String × Phrase)
  | [] => []
  | (name, x) :: fields => (name, x.bare) :: Phrase.bareFields fields

end

mutual

/-- A statement without what leaves no trace in the expression for which it stands. -/
def Statement.bare : Statement → Expr → Statement
  | .phrase x, _ => .phrase x.bare
  | .letStatement name hint value, e =>
    .letStatement name (hint.filter fun typeName => e.inferredType? ≠ some typeName) value.bare
  | .returnStatement value, _ => .returnStatement (value.map Phrase.bare)
  | .ifStatement condition items, e => .ifStatement condition.bare (bareItems items e.inner)
  | .whileStatement condition items, e => .whileStatement condition.bare (bareItems items e.inner)
  | .forLoop counter start stop items, e =>
    .forLoop counter start.bare stop.bare (bareItems items e.inner)
  | .procDef proc, e => .procDef (bareProc proc e.inner)
  | .structDef name fields _, _ => .structDef name fields false
  | .implBlock struct procs, e => .implBlock struct (bareProcs procs e.innerBodies)

/-- The statements of a list, in their bare form and without lone semicolons. -/
def bareItems : List (Option Statement) → List Expr → List (Option Statement)
  | none :: items, es => bareItems items es
  | some x :: items, e :: es => some (x.bare e) :: bareItems items es
  | _, _ => []

/-- A procedure with the given body, without what is skipped in it. -/
def bareProc : ProcText Statement → List Expr → ProcText Statement
  | ⟨name, params, returnType, items, _⟩, es => ⟨name, params, returnType, bareItems items es, []⟩

def bareProcs : List (ProcText Statement) → List (List Expr) → List (ProcText Statement)
  | p :: ps, es :: ess => bareProc p es :: bareProcs ps ess
  | _, _ => []

end

end BareForm

section Phrases

theorem Operand.Denotes.eq {x y : Operand} {e : Expr} (hx : x.Denotes e) (hy : y.Denotes e) :
    x = y := by
  cases hx with
  | @literal pos text lit hsign =>
    generalize he : Expr.literal pos text lit = e at hy
    cases hy with
    | literal =>
      injection he with _ htext hlit
      rw [htext, hlit]
    | negative hnumeric =>
      injection he with _ htext hlit
      rw [htext, hlit] at hsign
      exact absurd (by simp) (hsign hnumeric)
    | reference => cases he
  | @negative pos text lit hnumeric =>
    generalize he : Expr.literal pos ("-" ++ text) lit = e at hy
    cases hy with
    | literal hsign =>
      injection he with _ htext hlit
      rw [← htext, ← hlit] at hsign
      exact absurd (by simp) (hsign hnumeric)
    | negative =>
      injection he with _ htext hlit
      rw [String.append_right_inj] at htext
      rw [htext, hlit]
    | reference => cases he
  | reference =>
    cases hy
    rfl

mutual

/-- What a phrase stands for determines its bare form. -/
theorem Phrase.bare_eq (x : Phrase) {y : Phrase} {e : Expr} (hx : x.Denotes e)
    (hy : y.Denotes e) : x.bare = y.bare := by
  cases hx with
  | operand hx => cases hy with
    | operand hy => rw [hx.eq hy]
    | _ => cases hx
  | call hxs => cases hy with
    | operand hy => cases hy
    | call hys => rw [Phrase.bare, Phrase.bare, Phrase.bareAll_eq _ hxs hys]
  | implCall hxs => cases hy with
    | operand hy => cases hy
    | implCall hys => rw [Phrase.bare, Phrase.bare, Phrase.bareAll_eq _ hxs hys]
  | fieldAccess => cases hy with
    | operand hy => cases hy
    | fieldAccess => rfl
  | chain _ hx hrhs hneg hstep => cases hy with
    | operand hy => cases hy
    | chain _ hy hrhs' => rw [Phrase.bare, Phrase.bare, Phrase.bare_eq _ hx hy, hrhs.eq hrhs']
    | step _ _ hstep' => rw [hstep] at hstep'; cases hstep'
    | not => exact absurd rfl hneg
  | @step _ pos _ _ _ _ hx hstep =>
    generalize Expr.literal pos "1" .number = rhs at hy
    cases hy with
    | operand hy => cases hy
    | chain _ _ _ _ hstep' => rw [hstep] at hstep'; cases hstep'
    | step _ hy => rw [Phrase.bare, Phrase.bare, Phrase.bare_eq _ hx hy]
    | not => cases hstep
  | @not _ pos _ _ hx =>
    generalize Expr.literal pos "" .none = rhs at hy
    cases hy with
    | operand hy => cases hy
    | chain _ _ _ hneg => exact absurd rfl hneg
    | step _ _ hstep => cases hstep
    | not hy => rw [Phrase.bare, Phrase.bare, Phrase.bare_eq _ hx hy]
  | structLiteral hnames hxs => cases hy with
    | operand hy => cases hy
    | structLiteral hnames' hys =>
      rw [Phrase.bare, Phrase.bare, Phrase.bareFields_eq _ (hnames.trans hnames'.symm) hxs hys]
  | assign hx => cases hy with
    | operand hy => cases hy
    | assign hy => rw [Phrase.bare, Phrase.bare, Phrase.bare_eq _ hx hy]
  | fieldAssign hx => cases hy with
    | operand hy => cases hy
    | fieldAssign hy => rw [Phrase.bare, Phrase.bare, Phrase.bare_eq _ hx hy]

theorem Phrase.bareAll_eq (xs : List Phrase) {ys : List Phrase} {es : List Expr}
    (hxs : List.Forall₂ Phrase.Denotes xs es) (hys : List.Forall₂ Phrase.Denotes ys es) :
    Phrase.bareAll xs = Phrase.bareAll ys := by
  cases hxs with
  | nil =>
    cases hys
    rfl
  | cons hx hxs => cases hys with
    | cons hy hys =>
      rw [Phrase.bareAll, Phrase.bareAll, Phrase.bare_eq _ hx hy, Phrase.bareAll_eq _ hxs hys]

theorem Phrase.bareFields_eq (xs : List (String × Phrase)) {ys : List (String × Phrase)}
    {es : List Expr} (hnames : xs.map Prod.fst = ys.map Prod.fst)
    (hxs : List.Forall₂ Phrase.Denotes (xs.map Prod.snd) es)
    (hys : List.Forall₂ Phrase.Denotes (ys.map Prod.snd) es) :
    Phrase.bareFields xs = Phrase.bareFields ys := by
  match xs, ys, hnames, hxs, hys with
  | [], [], _, _, _ => rfl
  | (name, x) :: xs, (name', y) :: ys, hnames, .cons hx hxs, .cons hy hys =>
    rw [List.map_cons, List.map_cons, List.cons.injEq] at hnames
    rw [Phrase.bareFields, Phrase.bareFields, Phrase.bare_eq x hx hy,
      Phrase.bareFields_eq xs hnames.2 hxs hys, show name = name' from hnames.1]

end

end Phrases

section Statements

/-- Only a written type that differs from the type of the value is left of a written type. -/
theorem filter_hint_eq {hint hint' : Option String} {typeName : String}
    (h : hint.getD typeName = hint'.getD typeName) :
    hint.filter (fun t => some typeName ≠ some t) =
      hint'.filter (fun t => some typeName ≠ some t) := by
  cases hint with
  | none => cases hint' with
    | none => rfl
    | some t =>
      simp only [Option.getD_none, Option.getD_some] at h
      simp [h, Option.filter]
  | some t => cases hint' with
    | none =>
      simp only [Option.getD_none, Option.getD_some] at h
      simp [h, Option.filter]
    | some t' =>
      simp only [Option.getD_some] at h
      rw [h]

/-- Lone semicolons only stand for no statement at all. -/
theorem bareItems_of_nil {items : Items} (h : ItemsDenote items []) : bareItems items [] = [] := by
  induction items with
  | nil => rfl
  | cons item items ih => cases h with
    | semicolon h => rw [bareItems, ih h]

/-- In front of the first statement there are lone semicolons only. -/
theorem bareItems_of_cons {items : Items} {e : Expr} {es : List Expr}
    (h : ItemsDenote items (e :: es)) :
    ∃ (y : Statement) (rest : Items), y.Denotes e ∧ ItemsDenote rest es ∧
      bareItems items (e :: es) = some (y.bare e) :: bareItems rest es := by
  induction items with
  | nil => cases h
  | cons item items ih => cases h with
    | semicolon h =>
      rw [bareItems]
      exact ih h
    | cons hy hrest => exact ⟨_, _, hy, hrest, by rw [bareItems]⟩

mutual

/-- What a statement stands for determines its bare form. -/
theorem Statement.bare_eq (x : Statement) {y : Statement} {e : Expr} (hx : x.Denotes e)
    (hy : y.Denotes e) : x.bare e = y.bare e := by
  cases hx with
  | phrase hx => cases hy with
    | phrase hy => rw [Statement.bare, Statement.bare, Phrase.bare_eq _ hx hy]
    | _ => cases hx with
      | operand hx => cases hx
  | @letStatement pos name hint x value hx =>
    generalize htype : hint.getD value.valueType = typeName at hy
    cases hy with
    | phrase hy => cases hy with
      | operand hy => cases hy
    | letStatement hy =>
      rw [Statement.bare, Statement.bare, Phrase.bare_eq _ hx hy, Expr.inferredType?,
        filter_hint_eq htype]
  | bareReturn => cases hy with
    | phrase hy => cases hy with
      | operand hy => cases hy
    | bareReturn => rfl
  | returnStatement hx => cases hy with
    | phrase hy => cases hy with
      | operand hy => cases hy
    | returnStatement hy =>
      rw [Statement.bare, Statement.bare, Option.map_some, Option.map_some, Phrase.bare_eq _ hx hy]
  | ifStatement hx hitems => cases hy with
    | phrase hy => cases hy with
      | operand hy => cases hy
    | ifStatement hy hitems' =>
      rw [Statement.bare, Statement.bare, Phrase.bare_eq _ hx hy, Expr.inner,
        bareItems_eq _ hitems hitems']
  | whileStatement hx hitems => cases hy with
    | phrase hy => cases hy with
      | operand hy => cases hy
    | whileStatement hy hitems' =>
      rw [Statement.bare, Statement.bare, Phrase.bare_eq _ hx hy, Expr.inner,
        bareItems_eq _ hitems hitems']
  | forLoop hx hz hitems => cases hy with
    | phrase hy => cases hy with
      | operand hy => cases hy
    | forLoop hy hz' hitems' =>
      rw [Statement.bare, Statement.bare, Phrase.bare_eq _ hx hy, Phrase.bare_eq _ hz hz',
        Expr.inner, bareItems_eq _ hitems hitems']
  | procDef hp => cases hy with
    | phrase hy => cases hy with
      | operand hy => cases hy
    | procDef hp' =>
      rw [Statement.bare, Statement.bare, Expr.inner, bareProc_eq _ hp hp']
  | structDef => cases hy with
    | phrase hy => cases hy with
      | operand hy => cases hy
    | structDef => rfl
  | implBlock hps => cases hy with
    | phrase hy => cases hy with
      | operand hy => cases hy
    | implBlock hps' =>
      rw [Statement.bare, Statement.bare, Expr.innerBodies, bareProcs_eq _ hps hps']

/-- What a list of statements stands for determines its bare form. -/
theorem bareItems_eq (items : List (Option Statement)) {items' : Items} {es : List Expr}
    (h : ItemsDenote items es) (h' : ItemsDenote items' es) :
    bareItems items es = bareItems items' es := by
  cases h with
  | nil => rw [bareItems_of_nil h', bareItems_of_nil .nil]
  | semicolon h => rw [bareItems, bareItems_eq _ h h']
  | cons hx hrest =>
    obtain ⟨y, rest, hy, hrest', heq⟩ := bareItems_of_cons h'
    rw [heq, bareItems, Statement.bare_eq _ hx hy, bareItems_eq _ hrest hrest']

theorem bareProc_eq (p : ProcText Statement) {p' : ProcText Statement} {proc : Proc Expr}
    (h : ProcDenotes p proc) (h' : ProcDenotes p' proc) :
    bareProc p proc.body = bareProc p' proc.body := by
  cases h with
  | mk hitems => cases h' with
    | mk hitems' => rw [bareProc, bareProc, bareItems_eq _ hitems hitems']

theorem bareProcs_eq (ps : List (ProcText Statement)) {ps' : List (ProcText Statement)}
    {procs : List (Proc Expr)} (h : ProcsDenote ps procs) (h' : ProcsDenote ps' procs) :
    bareProcs ps (procs.map Proc.body) = bareProcs ps' (procs.map Proc.body) := by
  cases h with
  | nil =>
    cases h'
    rfl
  | cons hp hps => cases h' with
    | cons hp' hps' =>
      rw [List.map_cons, bareProcs, bareProcs, bareProc_eq _ hp hp', bareProcs_eq _ hps hps']

end

end Statements
end Surface
end ScriptFront
