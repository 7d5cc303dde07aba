import ScriptFront.Parse.Default
import ScriptFront.Parse.Expression
import ScriptFront.Parse.Recovery

/-!
# Reading statements

A statement starts with a keyword or is an expression.  Blocks of statements stand in braces.  A
statement in which an error is found gives nothing: the problem is reported and reading goes on at
the next boundary, so that no error leaves a statement.

**Algorithm.** The readers of statements are given the reader for the blocks inside of them.
`bodyUpTo n` closes the recursion for at most `n` unread tokens: every statement reads one, so at
level zero the input has ended.
-/

namespace ScriptFront
namespace Parse

section Simple

/-- A name with its type. -/
def typedName : Parse TypedName := do
  let name ← expect .identifier
  let _ ← expect .colon
  let typeName ← expect .identifier
  return ⟨name.lexeme, typeName.lexeme⟩

/-- A type after a colon, if there is one. -/
def optionalType : Parse (Option String) := do
  if ← accept .colon then
    return some (← expect .identifier).lexeme
  else
    return none

/-- Names with their types, separated by commas, at least one. -/
def typedNames : Nat → Parse (List TypedName)
  | 0 => return [← typedName]
  | n + 1 => do
    let first ← typedName
    if ← accept .comma then
      return first :: (← typedNames n)
    else
      return [first]

/-- The parameters of a procedure between its parentheses. -/
def parameters : Parse (List TypedName) := do
  if ← check .rightParen then
    return []
  else
    bounded typedNames

/-- The fields of a struct; a comma may follow the last one. -/
def structFields : Nat → Parse (List TypedName)
  | 0 => return [← typedName]
  | n + 1 => do
    if ← check .rightBrace then
      return []
    else
      let first ← typedName
      if ← accept .comma then
        return first :: (← structFields n)
      else
        return [first]

/-- Reports a written type that differs from the type of a value. -/
def checkWrittenType (written : Option String) (value : Expr) : Parse Unit :=
  match written with
  | none => pure ()
  | some typeName =>
    if typeName = value.valueType then pure ()
    else report (.typeMismatch typeName value.valueType) value.pos

/--
The statement `let name = value` or `let name: type = value`, after its keyword.  A written type
that differs from that of the value is reported and stands.
-/
def letStatement (keyword : Token) : Parse Expr := do
  let name ← expect .identifier
  let written ← optionalType
  let _ ← expect .assign
  let value ← expr
  checkWrittenType written value
  let typeName := written.getD value.valueType
  let entry ← newEntry ⟨name.lexeme, typeName, value.boundValue⟩
  let _ ← declare (.variable entry)
  return .letStatement keyword.pos name.lexeme typeName value

/-- The statement `return` or `return value`, after its keyword. -/
def returnStatement (keyword : Token) : Parse Expr := do
  match ← peek with
  | none => return .returnStatement keyword.pos none
  | some t =>
    if t.kind = .semicolon ∨ t.kind = .rightBrace then
      return .returnStatement keyword.pos none
    else
      return .returnStatement keyword.pos (some (← expr))

/-- The condition of a statement: an operation, or an expression whose type is that of truth
values. -/
def condition : Parse Expr := do
  let e ← expr
  if e.kind ≠ .binary ∧ e.valueType ≠ "bool" then
    fail (.nonBooleanCondition e.valueType) e.pos
  else
    return e

/-- Warns of a declaration whose name its table already had. -/
def warnIfShadowed (shadowed : Bool) (sort : String) (name : Token) : Parse Unit :=
  if shadowed then report (.redeclared sort name.lexeme) name.pos else pure ()

/-- The definition `struct Name { field: type, ... }`, after its keyword. -/
def structStatement (keyword : Token) : Parse Expr := do
  let name ← expect .identifier
  let _ ← expect .leftBrace
  let fields ← bounded structFields
  let _ ← expect .rightBrace
  let struct := ⟨name.lexeme, fields⟩
  let shadowed ← declare (.struct (← newEntry struct))
  warnIfShadowed shadowed "struct" name
  return .structDef keyword.pos struct

end Simple

section Compounds

variable (block : Bool → Parse (List Expr))

/--
A procedure after its keyword.  Its parameters are variables with default values while the body is
read; its own name is not declared here.  The token of the name is given back as well.
-/
def procedure (keyword : Token) : Parse (Token × Proc Expr) := do
  let name ← expect .identifier
  let _ ← expect .leftParen
  let params ← parameters
  let _ ← expect .rightParen
  let returnType ← optionalType
  let structs := (← tables).structs
  let body ← withVariables (params.map (·.defaultBinding structs name.pos)) fun _ => block true
  let number ← completeProc
  return (name, ⟨number, keyword.pos, name.lexeme, returnType, params, body⟩)

/-- A procedure that every later statement may call. -/
def procStatement (keyword : Token) : Parse Expr := do
  let (name, proc) ← procedure block keyword
  let shadowed ← declare (.procedure (← newEntry proc))
  warnIfShadowed shadowed "procedure" name
  return .procDef proc

/-- A procedure inside of an impl block, with its keyword. -/
def implProc : Parse (Proc Expr) := do
  let keyword ← expect .procWord
  let (_, proc) ← procedure block keyword
  return proc

/-- The procedures of an impl block, up to its closing brace. -/
def implProcs (entry : Entry (Impl Expr)) : Nat → Parse Unit
  | 0 => failAtEnd (.kind .procWord)
  | n + 1 => do
    if ← accept .rightBrace then
      return ()
    else
      let proc ← implProc block
      addProc entry proc
      implProcs entry n

/--
An impl block after its opening brace.  The block is declared before its procedures are read, so
that each of them may call those above it.
-/
def implBody (struct : StructDef) (name : Token) : Parse (Entry (Impl Expr)) := do
  let entry ← newEntry ⟨struct, []⟩
  let shadowed ← declare (.impl entry)
  warnIfShadowed shadowed "impl" name
  bounded (implProcs block entry)
  return entry

/-- The block `impl Name { proc ... }`, after its keyword. -/
def implStatement (keyword : Token) : Parse Expr := do
  let name ← expect .identifier
  match (← tables).structs.lookup? name.lexeme with
  | none => fail (.undeclaredStruct name.lexeme) name.pos
  | some struct =>
    let _ ← expect .leftBrace
    let entry ← implBody block struct.decl name
    return .implBlock keyword.pos entry.id (← currentImpl entry)

/-- The current binding of the first of some variables; `initial` without any. -/
def firstBinding (initial : Binding Expr) : List (Entry (Binding Expr)) → Parse (Binding Expr)
  | [] => pure initial
  | e :: _ => currentBinding e

/--
The loop `for counter in start..stop { ... }`, after its keyword.  The counter is a variable while
the body is read, and the loop holds the binding that it has at the end of the body.
-/
def forStatement (keyword : Token) : Parse Expr := do
  let name ← expect .identifier
  let _ ← expect .inWord
  let start ← expr
  let _ ← expect .range
  let stop ← expr
  let initial := ⟨name.lexeme, "i32", start⟩
  withVariables [initial] fun entries => do
    let body ← block false
    let counter ← firstBinding initial entries
    return .forLoop keyword.pos counter (.range start.pos start stop) body

/-- The statement whose first token has been read. -/
def statementFrom (t : Token) : Parse Expr := do
  match t.kind with
  | .letWord => letStatement t
  | .procWord => procStatement block t
  | .structWord => structStatement t
  | .implWord => implStatement block t
  | .ifWord =>
    let test ← condition
    return .ifStatement t.pos test (← block false)
  | .whileWord =>
    let test ← condition
    return .whileStatement t.pos test (← block false)
  | .forWord => forStatement block t
  | .returnWord => returnStatement t
  | .literal | .identifier | .not | .minus | .invalid => exprFrom t
  | _ => fail (.strayToken t.lexeme) t.pos

/-- One statement or a lone semicolon, which is no statement. -/
def optionalStatement : Parse (Option Expr) := do
  if ← accept .semicolon then
    return none
  else
    return some (← statementFrom block (← advance))

/-- One statement; nothing for a lone semicolon and for a statement with an error. -/
def statementWith (s : State) : Option Expr × State :=
  match optionalStatement block s with
  | .ok e s' => (e, s')
  | .error p s' => (none, s'.recover s.braceDepth p)

end Compounds

/-- A block in braces, given the reader for what stands between them. -/
def braced (body : Bool → Parse (List Expr)) (ofProc : Bool) : Parse (List Expr) := do
  let _ ← expect .leftBrace
  body ofProc

/-- A `return` without a value. -/
def isBareReturn : Option Expr → Bool
  | some (.returnStatement _ none) => true
  | _ => false

/--
What follows the statement `e` of a block, up to the closing brace.  In the body of a procedure a
bare `return` ends the block, and what follows it is skipped.
-/
def bodyRest (others : Bool → Parse (List Expr)) (ofProc : Bool) (e : Option Expr) :
    Parse (List Expr) := do
  if ← leaveClosedBlock then
    return e.toList
  else if ofProc && isBareReturn e then
    skipToClose
    return e.toList
  else
    return e.toList ++ (← others ofProc)

/-- The next statement of a block and those after it, up to the closing brace. -/
def bodyStep (statement : State → Option Expr × State) (others : Bool → Parse (List Expr))
    (ofProc : Bool) : Parse (List Expr) := do
  match ← peek with
  | none => failAtEnd (.kind .rightBrace)
  | some t =>
    if t.kind = .rightBrace then
      let _ ← advance
      return []
    else
      bodyRest others ofProc (← always statement)

/-- The statements of a block after its opening brace, in at most the given number of tokens. -/
def bodyUpTo : Nat → Bool → Parse (List Expr)
  | 0, _ => failAtEnd (.kind .rightBrace)
  | n + 1, ofProc => bodyStep (statementWith (braced (bodyUpTo n))) (bodyUpTo n) ofProc

/-- The statements of a block after its opening brace. -/
def body (ofProc : Bool) : Parse (List Expr) :=
  bounded fun n => bodyUpTo n ofProc

/-- A block in braces. -/
def block : Bool → Parse (List Expr) :=
  braced body

/-- One statement. -/
def statement (s : State) : Option Expr × State :=
  statementWith block s

end Parse
end ScriptFront
