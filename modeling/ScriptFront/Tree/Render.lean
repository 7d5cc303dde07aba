import ScriptFront.Text.Case
import ScriptFront.Tree.Basic

/-!
# The readable form of a tree

An expression is written on one line, apart from the blocks in it.  A block is written between
brackets with each statement on a line of its own, indented by four spaces for each block around
it; an empty block is `[]`.  The form is meant for reading and is not read back.
-/

namespace ScriptFront
namespace Expr

/-- The spaces in front of a line inside of `depth` blocks. -/
def indent (depth : Nat) : String :=
  String.ofList (List.replicate (4 * depth) ' ')

/-- The lines of a block between its brackets. -/
def blockText (depth : Nat) (lines : List String) : String :=
  if lines.isEmpty then "[]"
  else "[\n" ++ "\n".intercalate lines ++ "\n" ++ indent depth ++ "]"

/-- A name with its type. -/
def typedNameText (f : TypedName) : String :=
  f.name ++ ": " ++ f.typeName

/-- Names with their types, separated by commas. -/
def typedNamesText (fs : List TypedName) : String :=
  ", ".intercalate (fs.map typedNameText)

/-- The head of a procedure: its name, parameters and return type. -/
def procHead (name : String) (params : List TypedName) (returnType : Option String) : String :=
  "ProcDef " ++ name ++ "(" ++ typedNamesText params ++ "): " ++ returnType.getD "None" ++ " "

/-- Texts between curly brackets after a name. -/
def bracedText (name inside : String) : String :=
  name ++ " \x7b " ++ inside ++ " \x7d"

mutual

/-- An expression inside of `depth` blocks. -/
def render (depth : Nat) : Expr → String
  | literal _ text lit => "Literal ('" ++ text ++ "', " ++ Text.titleCase lit.label ++ ")"
  | reference _ ⟨name, typeName, value⟩ =>
    "Variable (" ++ name ++ ": " ++ typeName ++ " = " ++ value.render depth ++ ")"
  | letStatement _ name typeName value =>
    "Let (" ++ name ++ ": " ++ typeName ++ " = " ++ value.render depth ++ ")"
  | assign _ target value => "Assign (" ++ target.name ++ " = " ++ value.render depth ++ ")"
  | returnStatement _ none => "Return"
  | returnStatement _ (some value) => "Return (" ++ value.render depth ++ ")"
  | ifStatement _ condition body =>
    "If (" ++ condition.render depth ++ ") " ++
      blockText depth (statementLines (depth + 1) body)
  | whileStatement _ condition body =>
    "While (" ++ condition.render depth ++ ") " ++
      blockText depth (statementLines (depth + 1) body)
  | range _ start stop => "Range (" ++ start.render depth ++ ".." ++ stop.render depth ++ ")"
  | forLoop _ counter bounds body =>
    "For (" ++ counter.name ++ " in " ++ bounds.render depth ++ ") " ++
      blockText depth (statementLines (depth + 1) body)
  | procDef ⟨_, _, name, returnType, params, body⟩ =>
    procHead name params returnType ++ blockText depth (statementLines (depth + 1) body)
  | call _ callee args =>
    "FunCall " ++ callee.name ++ "(" ++ ", ".intercalate (bindingTexts depth args) ++ ")"
  | structDef _ struct => bracedText ("StructDef " ++ struct.name) (typedNamesText struct.fields)
  | structInstance _ ⟨struct, fields⟩ =>
    bracedText ("StructInstance " ++ struct.name) (", ".intercalate (bindingTexts depth fields))
  | implBlock _ _ ⟨struct, procs⟩ =>
    "Impl " ++ struct.name ++ " " ++ blockText depth (procLines (depth + 1) procs)
  | implCall _ _ struct callee args =>
    "ImplFunCall " ++ struct ++ "::" ++ callee.name ++ "(" ++
      ", ".intercalate (bindingTexts depth args) ++ ")"
  | fieldAssign _ owner field value =>
    "FieldAssign (" ++ owner.name ++ "." ++ field.name ++ " = " ++ value.render depth ++ ")"
  | fieldAccess _ owner ⟨name, _, value⟩ =>
    "FieldAccess (" ++ owner.name ++ "." ++ name ++ " = " ++ value.render depth ++ ")"
  | binary _ lhs op rhs =>
    "BinaryOp (" ++ lhs.render depth ++ ", " ++ Text.titleCase op.label ++ ", " ++
      rhs.render depth ++ ")"

/-- The lines of the statements of a block. -/
def statementLines (depth : Nat) : List Expr → List String
  | [] => []
  | e :: es => (indent depth ++ e.render depth) :: statementLines depth es

/-- The lines of the procedures of an impl block. -/
def procLines (depth : Nat) : List (Proc Expr) → List String
  | [] => []
  | ⟨_, _, name, returnType, params, body⟩ :: ps =>
    (indent depth ++ (procHead name params returnType ++
      blockText depth (statementLines (depth + 1) body))) :: procLines depth ps

/-- Bindings: a name, its type and the value bound to it. -/
def bindingTexts (depth : Nat) : List (Binding Expr) → List String
  | [] => []
  | ⟨name, typeName, value⟩ :: bs =>
    (name ++ ": " ++ typeName ++ " = " ++ value.render depth) :: bindingTexts depth bs

end

/-- One binding outside of all blocks. -/
def bindingText (b : Binding Expr) : String :=
  b.name ++ ": " ++ b.typeName ++ " = " ++ b.value.render 0

/-- The title of the form of an expression. -/
def formTitle (e : Expr) : String :=
  Text.titleCase e.kind.label

end Expr

/-- A program, each expression ended by a line feed. -/
def Program.render (p : Program) : String :=
  String.join (p.map fun e => e.render 0 ++ "\n")

end ScriptFront
