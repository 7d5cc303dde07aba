import ScriptFront.Symbol.Tables
import ScriptFront.Text.Quoted

/-!
# The full form of a tree

The full form of an expression names every part of it, down to the tokens of its literals.  A call
of a procedure of an impl block holds the whole block as it is at the end, so a part can come to
lie inside of itself; there it is written as three points.

**Algorithm.** The parts being written are kept as marks.  A part that is read from the text is told
apart by its form, position and weight.  Rebinding a field of an instance makes another instance at
the same position, so an instance is told apart by the parts bound to its fields as well.  The
weight falls on the way into a tree, so a mark is met again only after the way has led through an
impl block.  Going through blocks is bounded by their number.
-/

namespace ScriptFront
namespace Expr

section Weights

mutual

/-- The number of the parts of an expression, those of called procedures among them. -/
def weight : Expr → Nat
  | literal .. => 1
  | reference _ ⟨_, _, value⟩ => value.weight + 1
  | letStatement _ _ _ value => value.weight + 1
  | assign _ ⟨_, _, old⟩ value => old.weight + value.weight + 1
  | returnStatement _ none => 1
  | returnStatement _ (some value) => value.weight + 1
  | ifStatement _ condition body => condition.weight + weights body + 1
  | whileStatement _ condition body => condition.weight + weights body + 1
  | range _ start stop => start.weight + stop.weight + 1
  | forLoop _ ⟨_, _, value⟩ bounds body => value.weight + bounds.weight + weights body + 1
  | procDef ⟨_, _, _, _, _, body⟩ => weights body + 1
  | call _ ⟨_, _, _, _, _, body⟩ args => weights body + bindingWeights args + 1
  | structDef .. => 1
  | structInstance _ ⟨_, fields⟩ => bindingWeights fields + 1
  | implBlock _ _ ⟨_, procs⟩ => procWeights procs + 1
  | implCall _ _ _ ⟨_, _, _, _, _, body⟩ args => weights body + bindingWeights args + 1
  | fieldAssign _ ⟨_, _, owner⟩ ⟨_, _, field⟩ value =>
    owner.weight + field.weight + value.weight + 1
  | fieldAccess _ ⟨_, _, owner⟩ ⟨_, _, field⟩ => owner.weight + field.weight + 1
  | binary _ lhs _ rhs => lhs.weight + rhs.weight + 1

/-- The weights of expressions. -/
def weights : List Expr → Nat
  | [] => 0
  | e :: es => e.weight + weights es

/-- The weights of the values of bindings. -/
def bindingWeights : List (Binding Expr) → Nat
  | [] => 0
  | ⟨_, _, value⟩ :: bs => value.weight + bindingWeights bs

/-- The weights of procedures. -/
def procWeights : List (Proc Expr) → Nat
  | [] => 0
  | ⟨_, _, _, _, _, body⟩ :: ps => weights body + 1 + procWeights ps

end

end Weights

/-- What tells apart the expressions that are read from a text. -/
structure Part where
  kind : ExprKind
  pos : Position
  weight : Nat
deriving DecidableEq

/-- The form, position and weight of an expression. -/
def part (e : Expr) : Part :=
  ⟨e.kind, e.pos, e.weight⟩

/--
A part that is being written: a block, a procedure, an expression, an instance or a field of an
instance.
-/
inductive Mark where
  | impl (id : Nat)
  | proc (number : Nat)
  | expr (p : Part)
  | instance (struct : String) (p : Part) (fields : List Part)
  | field (name : String) (p : Part)
deriving DecidableEq

/-- The mark of an instance that is the value of an expression. -/
def instanceMark (p : Part) (value : Instance Expr) : Mark :=
  .instance value.struct.name p (value.fields.map fun b => b.value.part)

/-- A part with its mark; three points if the part is being written already. -/
def guarded (path : List Mark) (mark : Mark) (text : List Mark → String) : String :=
  if mark ∈ path then "..." else text (mark :: path)

section Records

/-- A record: its name, and its parts with their names. -/
def recordText (name : String) (parts : List (String × String)) : String :=
  name ++ "(" ++ ", ".intercalate (parts.map fun part => part.1 ++ "=" ++ part.2) ++ ")"

/-- A list. -/
def listText (items : List String) : String :=
  "[" ++ ", ".intercalate items ++ "]"

/-- A member of an enumeration with its value. -/
def memberText (enumeration name value : String) : String :=
  "<" ++ enumeration ++ "." ++ name ++ ": " ++ value ++ ">"

/-- A position. -/
def positionText (p : Position) : String :=
  "Position(" ++ Text.quoted p.file ++ ", " ++ toString p.row ++ ", " ++ toString p.column ++ ")"

/-- A literal type. -/
def literalTypeText (lit : LiteralType) : String :=
  memberText "LiteralType" lit.label (Text.quoted lit.tag)

/-- A literal with its token. -/
def literalText (pos : Position) (text : String) (lit : LiteralType) : String :=
  let kind := TokenKind.literal
  let token := recordText "Token"
    [("type", memberText "TokenType" kind.label (toString kind.number)),
     ("lexeme", Text.quoted text), ("position", positionText pos),
     ("literal_type", literalTypeText lit)]
  recordText "LiteralNode" [("token", token), ("literal_type", literalTypeText lit)]

/-- A name with its type. -/
def typedNameRecord (f : TypedName) : String :=
  recordText "VarMetadataNode"
    [("name", Text.quoted f.name), ("type_name", Text.quoted f.typeName)]

/-- A binding whose value has been written. -/
def bindingRecord (name typeName value : String) : String :=
  recordText "VariableNode" [("metadata", typedNameRecord ⟨name, typeName⟩), ("value", value)]

/-- A struct definition. -/
def structRecord (struct : StructDef) : String :=
  recordText "StructDefNode"
    [("type_name", Text.quoted struct.name),
     ("fields", listText (struct.fields.map typedNameRecord))]

/-- A procedure whose body has been written. -/
def procRecord (name : String) (returnType : Option String) (params : List TypedName)
    (body : List String) : String :=
  recordText "ProcDefNode"
    [("name", Text.quoted name),
     ("return_type", (returnType.map Text.quoted).getD "None"),
     ("args", listText (params.map typedNameRecord)), ("statements", listText body)]

/-- An impl block whose procedures have been written. -/
def implRecord (struct : StructDef) (procs : List String) : String :=
  recordText "ImplNode" [("struct_def", structRecord struct), ("procedures", listText procs)]

/-- An expression whose own record has been written. -/
def expressionText (kind : ExprKind) (record : String) : String :=
  "Expression(" ++ kind.label ++ ", " ++ record ++ ")"

end Records

section Writing

variable (implText : List Mark → Nat → String)

mutual

/-- An expression, inside of the parts in `path`. -/
def fullText (path : List Mark) : Expr → String
  | literal pos text lit => expressionText .literal (literalText pos text lit)
  | structDef _ struct => expressionText .structDef (structRecord struct)
  | procDef ⟨number, _, name, returnType, params, body⟩ =>
    expressionText .procDef <| guarded path (.proc number) fun path =>
      procRecord name returnType params (fullTexts path body)
  | implBlock _ id ⟨struct, procs⟩ =>
    expressionText .implBlock <| guarded path (.impl id) fun path =>
      implRecord struct (procTexts path procs)
  | e@(reference _ ⟨name, typeName, value⟩) =>
    expressionText .reference <| guarded path (.expr e.part) fun path =>
      bindingRecord name typeName (value.fullText path)
  | e@(letStatement _ name typeName value) =>
    expressionText .letStatement <| guarded path (.expr e.part) fun path =>
      recordText "LetNode"
        [("name", Text.quoted name), ("type_name", Text.quoted typeName),
         ("value", value.fullText path)]
  | e@(assign _ ⟨name, typeName, old⟩ value) =>
    expressionText .assign <| guarded path (.expr e.part) fun path =>
      recordText "AssignNode"
        [("target", bindingRecord name typeName (old.fullText path)),
         ("new_value", value.fullText path)]
  | returnStatement _ none =>
    expressionText .returnStatement (recordText "ReturnNode" [("value", "None")])
  | e@(returnStatement _ (some value)) =>
    expressionText .returnStatement <|
      guarded path (.expr e.part) fun path =>
        recordText "ReturnNode" [("value", value.fullText path)]
  | e@(ifStatement _ condition body) =>
    expressionText .ifStatement <| guarded path (.expr e.part) fun path =>
      recordText "IfNode"
        [("condition", condition.fullText path),
         ("statements", listText (fullTexts path body))]
  | e@(whileStatement _ condition body) =>
    expressionText .whileStatement <|
      guarded path (.expr e.part) fun path =>
        recordText "WhileNode"
          [("condition", condition.fullText path),
           ("statements", listText (fullTexts path body))]
  | e@(range _ start stop) =>
    expressionText .range <| guarded path (.expr e.part) fun path =>
      recordText "RangeNode" [("start", start.fullText path), ("end", stop.fullText path)]
  | e@(forLoop _ ⟨name, typeName, value⟩ bounds body) =>
    expressionText .forLoop <| guarded path (.expr e.part) fun path =>
      recordText "ForNode"
        [("counter", bindingRecord name typeName (value.fullText path)),
         ("range", bounds.fullText path), ("statements", listText (fullTexts path body))]
  | e@(call _ ⟨number, _, name, returnType, params, body⟩ args) =>
    expressionText .call <| guarded path (.expr e.part) fun path =>
      recordText "FunCallNode"
        [("proc_def", guarded path (.proc number) fun path =>
            procRecord name returnType params (fullTexts path body)),
         ("args", listText (bindingFullTexts path args))]
  | e@(structInstance _ ⟨struct, fields⟩) =>
    expressionText .structInstance <|
      guarded path (instanceMark e.part ⟨struct, fields⟩) fun path =>
        recordText "StructInstanceNode"
          [("struct_def", structRecord struct),
           ("fields", listText (fieldTexts path fields))]
  | e@(implCall _ id _ ⟨number, _, name, returnType, params, body⟩ args) =>
    expressionText .implCall <| guarded path (.expr e.part) fun path =>
      recordText "ImplFunCallNode"
        [("impl_node", implText path id),
         ("fun_call", recordText "FunCallNode"
            [("proc_def", guarded path (.proc number) fun path =>
                procRecord name returnType params (fullTexts path body)),
             ("args", listText (bindingFullTexts path args))])]
  | e@(fieldAssign _ ⟨ownerName, ownerType, owner⟩ ⟨name, typeName, field⟩ value) =>
    expressionText .fieldAssign <| guarded path (.expr e.part) fun path =>
      recordText "FieldAssignNode"
        [("struct_instance", bindingRecord ownerName ownerType (owner.fullText path)),
         ("field", guarded path (.field name field.part) fun path =>
            bindingRecord name typeName (field.fullText path)),
         ("new_value", value.fullText path)]
  | e@(fieldAccess _ ⟨ownerName, ownerType, owner⟩ ⟨name, typeName, field⟩) =>
    expressionText .fieldAccess <| guarded path (.expr e.part) fun path =>
      recordText "FieldAccessNode"
        [("struct_instance", bindingRecord ownerName ownerType (owner.fullText path)),
         ("field", guarded path (.field name field.part) fun path =>
            bindingRecord name typeName (field.fullText path))]
  | e@(binary _ lhs op rhs) =>
    expressionText .binary <| guarded path (.expr e.part) fun path =>
      recordText "BinaryOpNode"
        [("lhs", lhs.fullText path),
         ("op", memberText "BinaryOp" op.label (Text.quoted op.symbol)),
         ("rhs", rhs.fullText path)]

/-- Expressions. -/
def fullTexts (path : List Mark) : List Expr → List String
  | [] => []
  | e :: es => e.fullText path :: fullTexts path es

/-- Bindings that belong to one expression alone. -/
def bindingFullTexts (path : List Mark) : List (Binding Expr) → List String
  | [] => []
  | ⟨name, typeName, value⟩ :: bs =>
    bindingRecord name typeName (value.fullText path) :: bindingFullTexts path bs

/-- The fields of an instance, which several instances may share. -/
def fieldTexts (path : List Mark) : List (Binding Expr) → List String
  | [] => []
  | ⟨name, typeName, value⟩ :: bs =>
    (guarded path (.field name value.part) fun path =>
      bindingRecord name typeName (value.fullText path)) :: fieldTexts path bs

/-- The procedures of an impl block. -/
def procTexts (path : List Mark) : List (Proc Expr) → List String
  | [] => []
  | ⟨number, _, name, returnType, params, body⟩ :: ps =>
    (expressionText .procDef <| guarded path (.proc number) fun path =>
      procRecord name returnType params (fullTexts path body)) :: procTexts path ps

end

end Writing

/-- An impl block, through at most the given number of further blocks. -/
def implTextUpTo (impls : SymbolTable (Impl Expr)) : Nat → List Mark → Nat → String
  | 0, _, _ => "..."
  | n + 1, path, id =>
    guarded path (.impl id) fun path =>
      match impls.get? id with
      | none => "..."
      | some block =>
        implRecord block.struct (procTexts (implTextUpTo impls n) path block.procs)

/-- The full form of an expression of a program that ends with the given impl blocks. -/
def inspect (impls : SymbolTable (Impl Expr)) (e : Expr) : String :=
  e.fullText (implTextUpTo impls (impls.size + 1)) []

end Expr
end ScriptFront
