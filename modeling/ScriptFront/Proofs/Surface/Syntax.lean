import ScriptFront.Proofs.Reading.Balance
import ScriptFront.Tree.Basic
import Mathlib.Data.List.Forall2

/-!
# The text of a program

A program is written down as a list of terminals, which are tokens without their positions.  The
text of a program has a structure of its own: phrases, which give values, and statements.  Names are
only names in a text, while in the tree of a program they have been resolved.

Some parts of a text leave no trace in the tree: semicolons, the comma after the last field, a
written type that is the type of the value, and whatever follows a bare `return` in the body of a
procedure.

**Results.**

* `Phrase.spell`, `Statement.spell`: the terminals of a text.
* `Phrase.Denotes`, `Statement.Denotes`: what a text stands for, constructor by constructor.
-/

namespace ScriptFront

/-- A token without its position; what is neither a name nor a literal has one spelling. -/
inductive Terminal where
  | mark (k : TokenKind)
  | name (text : String)
  | literal (text : String) (lit : LiteralType)
deriving DecidableEq

/-- All kinds of tokens but names and literals have one spelling. -/
def TokenKind.isMark : TokenKind → Bool
  | .identifier | .literal => false
  | _ => true

/-- A token without its position. -/
def Token.terminal (t : Token) : Terminal :=
  match t.kind with
  | .identifier => .name t.lexeme
  | .literal => .literal t.lexeme t.lit
  | k => .mark k

/-- The kind of token that stands for an operator. -/
def Operator.mark : Operator → TokenKind
  | .add => .plus
  | .sub => .minus
  | .mul => .multiply
  | .div => .divide
  | .eq => .equal
  | .ne => .notEqual
  | .lt => .lessThan
  | .lte => .lessEqual
  | .gt => .greaterThan
  | .gte => .greaterEqual
  | .neg => .not
  | .inc => .increment
  | .dec => .decrement

/-- Numbers may stand behind a minus sign. -/
def LiteralType.isNumeric (lit : LiteralType) : Prop :=
  lit = .number ∨ lit = .float

/-- A number has no sign in its own text: a minus sign is a terminal in front of it. -/
def LiteralType.Unsigned (lit : LiteralType) (text : String) : Prop :=
  lit.isNumeric → text.toList.head? ≠ some '-'

/-- The terminals of tokens as they are scanned. -/
def Terminal.Lexed : Terminal → Prop
  | .literal text lit => lit.Unsigned text
  | .mark _ | .name _ => True

namespace Surface

section Texts

/-- What may stand behind an operator. -/
inductive Operand where
  | literal (text : String) (lit : LiteralType)
  | negative (text : String) (lit : LiteralType)
  | reference (name : String)

/-- The text of an expression. -/
inductive Phrase where
  | operand (x : Operand)
  | call (name : String) (args : List Phrase)
  | implCall (struct name : String) (args : List Phrase)
  | fieldAccess (owner field : String)
  | chain (lhs : Phrase) (op : Operator) (rhs : Operand)
  | step (lhs : Phrase) (op : Operator)
  | not (inner : Phrase)
  | structLiteral (name : String) (fields : List (String × Phrase)) (comma : Bool)
  | assign (name : String) (value : Phrase)
  | fieldAssign (owner field : String) (value : Phrase)

/-- The text of a procedure behind its keyword; `skipped` is what stands between a bare `return` and
the end of the body. -/
structure ProcText (α : Type) where
  name : String
  params : List TypedName
  returnType : Option String
  body : List (Option α)
  skipped : List Terminal

/-- The text of a statement.  In a list of statements, `none` is a lone semicolon. -/
inductive Statement where
  | phrase (x : Phrase)
  | letStatement (name : String) (hint : Option String) (value : Phrase)
  | returnStatement (value : Option Phrase)
  | ifStatement (condition : Phrase) (body : List (Option Statement))
  | whileStatement (condition : Phrase) (body : List (Option Statement))
  | forLoop (counter : String) (start stop : Phrase) (body : List (Option Statement))
  | procDef (proc : ProcText Statement)
  | structDef (name : String) (fields : List TypedName) (comma : Bool)
  | implBlock (struct : String) (procs : List (ProcText Statement))

/-- The statements of a program or block, with the semicolons between them. -/
abbrev Items := List (Option Statement)

end Texts

section Spelling

/-- Parts of a text with commas between them, and behind the last one if it is asked for. -/
def joined : List (List Terminal) → Bool → List Terminal
  | [], _ => []
  | [x], trailing => if trailing then x ++ [.mark .comma] else x
  | x :: y :: xs, trailing => x ++ .mark .comma :: joined (y :: xs) trailing

/-- A type behind a colon. -/
def spellType : Option String → List Terminal
  | none => []
  | some typeName => [.mark .colon, .name typeName]

/-- A name with its type. -/
def spellTyped (x : TypedName) : List Terminal :=
  [.name x.name, .mark .colon, .name x.typeName]

def Operand.spell : Operand → List Terminal
  | .literal text lit => [.literal text lit]
  | .negative text lit => [.mark .minus, .literal text lit]
  | .reference name => [.name name]

mutual

/-- The terminals of a phrase. -/
def Phrase.spell : Phrase → List Terminal
  | .operand x => x.spell
  | .call name args =>
    .name name :: .mark .leftParen :: joined (Phrase.spellAll args) false ++ [.mark .rightParen]
  | .implCall struct name args =>
    .name struct :: .mark .doubleColon :: .name name :: .mark .leftParen ::
      joined (Phrase.spellAll args) false ++ [.mark .rightParen]
  | .fieldAccess owner field => [.name owner, .mark .dot, .name field]
  | .chain lhs op rhs => lhs.spell ++ .mark op.mark :: rhs.spell
  | .step lhs op => lhs.spell ++ [.mark op.mark]
  | .not inner => .mark .not :: inner.spell
  | .structLiteral name fields comma =>
    .name name :: .mark .leftBrace :: joined (Phrase.spellFields fields) comma ++
      [.mark .rightBrace]
  | .assign name value => .name name :: .mark .assign :: value.spell
  | .fieldAssign owner field value =>
    .name owner :: .mark .dot :: .name field :: .mark .assign :: value.spell

/-- The terminals of several phrases, one by one. -/
def Phrase.spellAll : List Phrase → List (List Terminal)
  | [] => []
  | x :: xs => x.spell :: Phrase.spellAll xs

/-- The terminals of the fields of a struct literal, one by one. -/
def Phrase.spellFields : List (String × Phrase) → List (List Terminal)
  | [] => []
  | (name, x) :: fields => (.name name :: .mark .colon :: x.spell) :: Phrase.spellFields fields

end

mutual

/-- The terminals of a statement. -/
def Statement.spell : Statement → List Terminal
  | .phrase x => x.spell
  | .letStatement name hint value =>
    .mark .letWord :: .name name :: spellType hint ++ .mark .assign :: value.spell
  | .returnStatement none => [.mark .returnWord]
  | .returnStatement (some value) => .mark .returnWord :: value.spell
  | .ifStatement condition body =>
    .mark .ifWord :: condition.spell ++ .mark .leftBrace :: spellItems body ++ [.mark .rightBrace]
  | .whileStatement condition body =>
    .mark .whileWord :: condition.spell ++ .mark .leftBrace :: spellItems body ++
      [.mark .rightBrace]
  | .forLoop counter start stop body =>
    .mark .forWord :: .name counter :: .mark .inWord :: start.spell ++ .mark .range :: stop.spell ++
      .mark .leftBrace :: spellItems body ++ [.mark .rightBrace]
  | .procDef proc => .mark .procWord :: spellProc proc
  | .structDef name fields comma =>
    .mark .structWord :: .name name :: .mark .leftBrace :: joined (fields.map spellTyped) comma ++
      [.mark .rightBrace]
  | .implBlock struct procs =>
    .mark .implWord :: .name struct :: .mark .leftBrace :: spellProcs procs ++ [.mark .rightBrace]

/-- The terminals of a list of statements. -/
def spellItems : List (Option Statement) → List Terminal
  | [] => []
  | none :: items => .mark .semicolon :: spellItems items
  | some x :: items => x.spell ++ spellItems items

/-- The terminals of a procedure behind its keyword. -/
def spellProc : ProcText Statement → List Terminal
  | ⟨name, params, returnType, body, skipped⟩ =>
    .name name :: .mark .leftParen :: joined (params.map spellTyped) false ++ .mark .rightParen ::
      spellType returnType ++ .mark .leftBrace :: spellItems body ++ skipped ++ [.mark .rightBrace]

/-- The terminals of the procedures of an impl block, with their keywords. -/
def spellProcs : List (ProcText Statement) → List Terminal
  | [] => []
  | p :: ps => .mark .procWord :: spellProc p ++ spellProcs ps

end

end Spelling

section Meaning

/-- Operators may follow a phrase of this form. -/
def Phrase.isOpen : Phrase → Bool
  | .operand _ | .call .. | .implCall .. | .fieldAccess .. | .chain .. | .step .. => true
  | .not _ | .structLiteral .. | .assign .. | .fieldAssign .. => false

/-- What an operand stands for; a number with a minus sign is read as one literal. -/
inductive Operand.Denotes : Operand → Expr → Prop
  | literal {pos : Position} {text : String} {lit : LiteralType} :
      lit.Unsigned text → Denotes (.literal text lit) (.literal pos text lit)
  | negative {pos : Position} {text : String} {lit : LiteralType} : lit.isNumeric →
      Denotes (.negative text lit) (.literal pos ("-" ++ text) lit)
  | reference {pos : Position} {binding : Binding Expr} :
      Denotes (.reference binding.name) (.reference pos binding)

/-- What a phrase stands for. -/
inductive Phrase.Denotes : Phrase → Expr → Prop
  | operand {x : Operand} {e : Expr} : x.Denotes e → Denotes (.operand x) e
  | call {pos : Position} {callee : Proc Expr} {bindings : List (Binding Expr)}
      {args : List Phrase} :
      List.Forall₂ Denotes args (bindings.map Binding.value) →
      Denotes (.call callee.name args) (.call pos callee bindings)
  | implCall {pos : Position} {impl : Nat} {struct : String} {callee : Proc Expr}
      {bindings : List (Binding Expr)} {args : List Phrase} :
      List.Forall₂ Denotes args (bindings.map Binding.value) →
      Denotes (.implCall struct callee.name args) (.implCall pos impl struct callee bindings)
  | fieldAccess {pos : Position} {owner field : Binding Expr} :
      Denotes (.fieldAccess owner.name field.name) (.fieldAccess pos owner field)
  | chain {pos : Position} {x : Phrase} {lhs rhs : Expr} {op : Operator} {y : Operand} :
      x.isOpen → Denotes x lhs → y.Denotes rhs → op ≠ .neg → op.isStep = false →
      Denotes (.chain x op y) (.binary pos lhs op rhs)
  | step {pos pos' : Position} {x : Phrase} {lhs : Expr} {op : Operator} :
      x.isOpen → Denotes x lhs → op.isStep →
      Denotes (.step x op) (.binary pos lhs op (.literal pos' "1" .number))
  | not {pos pos' : Position} {x : Phrase} {inner : Expr} : Denotes x inner →
      Denotes (.not x) (.binary pos inner .neg (.literal pos' "" .none))
  | structLiteral {pos : Position} {value : Instance Expr} {fields : List (String × Phrase)}
      {comma : Bool} :
      fields.map Prod.fst = value.fields.map Binding.name →
      List.Forall₂ Denotes (fields.map Prod.snd) (value.fields.map Binding.value) →
      Denotes (.structLiteral value.struct.name fields comma) (.structInstance pos value)
  | assign {pos : Position} {target : Binding Expr} {x : Phrase} {value : Expr} :
      Denotes x value → Denotes (.assign target.name x) (.assign pos target value)
  | fieldAssign {pos : Position} {owner field : Binding Expr} {x : Phrase} {value : Expr} :
      Denotes x value →
      Denotes (.fieldAssign owner.name field.name x) (.fieldAssign pos owner field value)

/-- A bare `return` is the last statement of some items. -/
def endsBare (items : Items) : Prop :=
  items.getLast? = some (some (.returnStatement none))

mutual

/-- What a statement stands for. -/
inductive Statement.Denotes : Statement → Expr → Prop
  | phrase {x : Phrase} {e : Expr} : x.Denotes e → Statement.Denotes (.phrase x) e
  | letStatement {pos : Position} {name : String} {hint : Option String} {x : Phrase}
      {value : Expr} : x.Denotes value →
      Statement.Denotes (.letStatement name hint x)
        (.letStatement pos name (hint.getD value.valueType) value)
  | bareReturn {pos : Position} :
      Statement.Denotes (.returnStatement none) (.returnStatement pos none)
  | returnStatement {pos : Position} {x : Phrase} {value : Expr} : x.Denotes value →
      Statement.Denotes (.returnStatement (some x)) (.returnStatement pos (some value))
  | ifStatement {pos : Position} {x : Phrase} {condition : Expr} {items : Items}
      {body : List Expr} : x.Denotes condition → ItemsDenote items body →
      Statement.Denotes (.ifStatement x items) (.ifStatement pos condition body)
  | whileStatement {pos : Position} {x : Phrase} {condition : Expr} {items : Items}
      {body : List Expr} : x.Denotes condition → ItemsDenote items body →
      Statement.Denotes (.whileStatement x items) (.whileStatement pos condition body)
  | forLoop {pos pos' : Position} {counter : Binding Expr} {x y : Phrase} {start stop : Expr}
      {items : Items} {body : List Expr} : x.Denotes start → y.Denotes stop →
      ItemsDenote items body →
      Statement.Denotes (.forLoop counter.name x y items)
        (.forLoop pos counter (.range pos' start stop) body)
  | procDef {p : ProcText Statement} {proc : Proc Expr} : ProcDenotes p proc →
      Statement.Denotes (.procDef p) (.procDef proc)
  | structDef {pos : Position} {struct : StructDef} {comma : Bool} :
      Statement.Denotes (.structDef struct.name struct.fields comma) (.structDef pos struct)
  | implBlock {pos : Position} {impl : Nat} {block : Impl Expr} {ps : List (ProcText Statement)} :
      ProcsDenote ps block.procs →
      Statement.Denotes (.implBlock block.struct.name ps) (.implBlock pos impl block)

/-- What a list of statements stands for: one expression for each that is no lone semicolon. -/
inductive ItemsDenote : Items → List Expr → Prop
  | nil : ItemsDenote [] []
  | semicolon {items : Items} {es : List Expr} : ItemsDenote items es →
      ItemsDenote (none :: items) es
  | cons {x : Statement} {e : Expr} {items : Items} {es : List Expr} : x.Denotes e →
      ItemsDenote items es → ItemsDenote (some x :: items) (e :: es)

/-- What a procedure stands for.  Something is skipped in front of its end only behind a bare
`return`, and braces match in it. -/
inductive ProcDenotes : ProcText Statement → Proc Expr → Prop
  | mk {proc : Proc Expr} {items : Items} {skipped : List Terminal} :
      ItemsDenote items proc.body →
      (skipped = [] ∨ endsBare items ∧
        ∃ ts : List Token, Balanced ts ∧ skipped = ts.map Token.terminal) →
      ProcDenotes ⟨proc.name, proc.params, proc.returnType, items, skipped⟩ proc

/-- What several procedures stand for. -/
inductive ProcsDenote : List (ProcText Statement) → List (Proc Expr) → Prop
  | nil : ProcsDenote [] []
  | cons {p : ProcText Statement} {proc : Proc Expr} {ps : List (ProcText Statement)}
      {procs : List (Proc Expr)} : ProcDenotes p proc → ProcsDenote ps procs →
      ProcsDenote (p :: ps) (proc :: procs)

end

end Meaning
end Surface
end ScriptFront
