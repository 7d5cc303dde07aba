import ScriptFront.Position
import ScriptFront.Tree.Operator

/-!
# Resolved programs

A program is a list of expressions; every statement is an expression too.  The tree is resolved:
a call holds the procedure that it calls, a struct literal the definition of its struct, and a
reference to a variable the binding that the variable had when the reference was read.

The parts of an expression that other parts of the library handle on their own (bindings, struct
instances, procedures, impl blocks) are structures over the type of expressions.  A call of a
procedure of an impl block names the block by its entry in the symbol tables, because a block may
still grow after the call was read.
-/

namespace ScriptFront

/-- A name with the name of its type: a parameter, or a field of a struct. -/
structure TypedName where
  name : String
  typeName : String
deriving DecidableEq

/-- A name with its type and the expression bound to it. -/
structure Binding (α : Type) where
  name : String
  typeName : String
  value : α
deriving DecidableEq

/-- A struct: its name, and its fields in the order of their declaration. -/
structure StructDef where
  name : String
  fields : List TypedName
deriving DecidableEq

/-- A value of a struct: one binding for each field, in the same order. -/
structure Instance (α : Type) where
  struct : StructDef
  fields : List (Binding α)
deriving DecidableEq

/--
A procedure: its place in the order in which procedures are completed, the position of its
keyword, its name, the name of its return type, its parameters and its body.
-/
structure Proc (α : Type) where
  number : Nat
  pos : Position
  name : String
  returnType : Option String
  params : List TypedName
  body : List α
deriving DecidableEq

/-- The procedures given for a struct. -/
structure Impl (α : Type) where
  struct : StructDef
  procs : List (Proc α)
deriving DecidableEq

/-- The first procedure of a name. -/
def Impl.proc? {α : Type} (block : Impl α) (name : String) : Option (Proc α) :=
  block.procs.find? fun p => p.name = name

/-- An expression or statement; the position is that of its first token. -/
inductive Expr where
  | literal (pos : Position) (text : String) (lit : LiteralType)
  | reference (pos : Position) (binding : Binding Expr)
  | letStatement (pos : Position) (name typeName : String) (value : Expr)
  | assign (pos : Position) (target : Binding Expr) (value : Expr)
  | returnStatement (pos : Position) (value : Option Expr)
  | ifStatement (pos : Position) (condition : Expr) (body : List Expr)
  | whileStatement (pos : Position) (condition : Expr) (body : List Expr)
  | range (pos : Position) (start stop : Expr)
  | forLoop (pos : Position) (counter : Binding Expr) (bounds : Expr) (body : List Expr)
  | procDef (proc : Proc Expr)
  | call (pos : Position) (callee : Proc Expr) (args : List (Binding Expr))
  | structDef (pos : Position) (struct : StructDef)
  | structInstance (pos : Position) (value : Instance Expr)
  | implBlock (pos : Position) (impl : Nat) (block : Impl Expr)
  | implCall (pos : Position) (impl : Nat) (struct : String) (callee : Proc Expr)
      (args : List (Binding Expr))
  | fieldAssign (pos : Position) (owner field : Binding Expr) (value : Expr)
  | fieldAccess (pos : Position) (owner field : Binding Expr)
  | binary (pos : Position) (lhs : Expr) (op : Operator) (rhs : Expr)

/-- The expressions of a source text, in the order in which they stand there. -/
abbrev Program := List Expr

/-- The forms of expressions. -/
inductive ExprKind where
  | ifStatement
  | whileStatement
  | forLoop
  | range
  | letStatement
  | assign
  | returnStatement
  | reference
  | procDef
  | call
  | structDef
  | structInstance
  | implBlock
  | implCall
  | fieldAssign
  | fieldAccess
  | binary
  | literal
deriving DecidableEq

namespace ExprKind

/-- Every form. -/
def all : List ExprKind :=
  [ifStatement, whileStatement, forLoop, range, letStatement, assign, returnStatement, reference,
   procDef, call, structDef, structInstance, implBlock, implCall, fieldAssign, fieldAccess, binary,
   literal]

/-- The name of a form. -/
def label : ExprKind → String
  | ifStatement => "IF_STATEMENT"
  | whileStatement => "WHILE_STATEMENT"
  | forLoop => "FOR_LOOP"
  | range => "RANGE"
  | letStatement => "LET_STATEMENT"
  | assign => "ASSIGN_STATEMENT"
  | returnStatement => "RETURN_STATEMENT"
  | reference => "VARIABLE"
  | procDef => "PROC_DEF"
  | call => "FUN_CALL"
  | structDef => "STRUCT_DEF"
  | structInstance => "STRUCT_INSTANCE"
  | implBlock => "IMPL"
  | implCall => "IMPL_FUN_CALL"
  | fieldAssign => "FIELD_ASSIGN"
  | fieldAccess => "FIELD_ACCESS"
  | binary => "BINARY_OP"
  | literal => "LITERAL"

/-- The tag of a form: its name in lower case. -/
def tag (k : ExprKind) : String :=
  String.ofList (k.label.toList.map Char.toLower)

end ExprKind

namespace Expr

/-- The form of an expression. -/
def kind : Expr → ExprKind
  | literal .. => .literal
  | reference .. => .reference
  | letStatement .. => .letStatement
  | assign .. => .assign
  | returnStatement .. => .returnStatement
  | ifStatement .. => .ifStatement
  | whileStatement .. => .whileStatement
  | range .. => .range
  | forLoop .. => .forLoop
  | procDef .. => .procDef
  | call .. => .call
  | structDef .. => .structDef
  | structInstance .. => .structInstance
  | implBlock .. => .implBlock
  | implCall .. => .implCall
  | fieldAssign .. => .fieldAssign
  | fieldAccess .. => .fieldAccess
  | binary .. => .binary

/-- The position of an expression. -/
def pos : Expr → Position
  | literal p .. | reference p .. | letStatement p .. | assign p .. | returnStatement p ..
  | ifStatement p .. | whileStatement p .. | range p .. | forLoop p .. | call p ..
  | structDef p .. | structInstance p .. | implBlock p .. | implCall p .. | fieldAssign p ..
  | fieldAccess p .. | binary p .. => p
  | procDef proc => proc.pos

/-- The name of the type of the value that an expression gives; `none` if it gives none. -/
def valueType : Expr → String
  | literal _ _ lit => lit.typeName
  | reference _ binding => binding.typeName
  | range .. => "range"
  | call _ callee _ => callee.returnType.getD "none"
  | structInstance _ value => value.struct.name
  | implCall _ _ _ callee _ => callee.returnType.getD "none"
  | fieldAssign _ _ field _ => field.typeName
  | fieldAccess _ _ field => field.typeName
  | binary _ lhs op _ => if op.isBoolean then "bool" else lhs.valueType
  | _ => "none"

/-- The expressions directly inside an expression. -/
def children : Expr → List Expr
  | reference _ binding => [binding.value]
  | letStatement _ _ _ value => [value]
  | assign _ _ value => [value]
  | returnStatement _ value => value.toList
  | ifStatement _ condition body => condition :: body
  | whileStatement _ condition body => condition :: body
  | range _ start stop => [start, stop]
  | forLoop _ _ bounds body => bounds :: body
  | procDef proc => proc.body
  | call _ _ args => args.map Binding.value
  | structInstance _ value => value.fields.map Binding.value
  | implBlock _ _ block => block.procs.map procDef
  | implCall _ _ _ _ args => args.map Binding.value
  | fieldAssign _ _ _ value => [value]
  | binary _ lhs _ rhs => [lhs, rhs]
  | literal .. | structDef .. | fieldAccess .. => []

end Expr
end ScriptFront
