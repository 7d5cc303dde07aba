import ScriptFront.Parse.State

/-!
# Reading expressions

An expression starts with a literal, a name, a negation or a minus.  After an operand come
operators, which are folded from left to right without any precedence.  A name is resolved as soon
as it is read: to a variable first, then to a procedure, then to a struct.

**Input.** A state with the tokens still to be read.

**Algorithm.** `exprStep` reads one expression and is given the reader for the expressions inside
of it.  `exprUpTo n` closes the recursion for at most `n` unread tokens: every level reads one, so
at level zero the input has ended.
-/

namespace ScriptFront
namespace Parse

/-- The suggestions for a name that is not among the candidates. -/
def suggestionsFor (name : String) (candidates : List String) : Option (List String) :=
  some (Names.suggest name candidates Names.defaultLimit)

section Operands

/-- A number after a minus sign that stands at `pos`. -/
def negativeLiteral (pos : Position) : Parse Expr := do
  let t ← advance
  if t.kind = .literal ∧ (t.lit = .number ∨ t.lit = .float) then
    return .literal pos ("-" ++ t.lexeme) t.lit
  else
    fail (.invalidExpression "numeric literal after '-'" t.lexeme) t.pos

/-- The operand after an operator: a literal, a negative number or a variable. -/
def operand : Parse Expr := do
  let t ← advance
  match t.kind with
  | .literal => return .literal t.pos t.lexeme t.lit
  | .minus => negativeLiteral t.pos
  | .identifier =>
    let known ← tables
    match known.vars.lookup? t.lexeme with
    | some e => return .reference t.pos e.decl
    | none =>
      fail (.unresolvedName t.lexeme (suggestionsFor t.lexeme known.vars.names)) t.pos
  | .invalid => fail (.invalidCharacter t.lexeme) t.pos
  | _ => fail (.invalidExpression "literal or variable" t.lexeme) t.pos

/-- The right side of an operator at `pos`; the step operators go by one. -/
def rightSide (op : Operator) (pos : Position) : Parse Expr :=
  if op.isStep then pure (.literal pos "1" .number) else operand

/-- Folds operators with their operands into the expression on their left. -/
def foldUpTo : Nat → Expr → Parse Expr
  | 0, lhs => pure lhs
  | n + 1, lhs => do
    match ← peek with
    | none => return lhs
    | some t =>
      match Operator.foldable? t.kind with
      | none => return lhs
      | some op => do
        let _ ← advance
        let rhs ← rightSide op t.pos
        foldUpTo n (.binary lhs.pos lhs op rhs)

/-- Folds all operators that follow. -/
def foldOperators (lhs : Expr) : Parse Expr :=
  bounded fun n => foldUpTo n lhs

end Operands

section Compounds

variable (expr : Parse Expr)

/-- Expressions separated by commas, at least one. -/
def commaSeparated : Nat → Parse (List Expr)
  | 0 => return [← expr]
  | n + 1 => do
    let e ← expr
    if ← accept .comma then
      return e :: (← commaSeparated n)
    else
      return [e]

/-- The values between the parentheses of a call. -/
def callValues : Parse (List Expr) := do
  if ← check .rightParen then
    return []
  else
    bounded (commaSeparated expr)

/-- The arguments of a call in parentheses, bound to the parameters of the callee. -/
def callArgs (callee : Proc Expr) (pos : Position) : Parse (List (Binding Expr)) := do
  let _ ← expect .leftParen
  let values ← callValues expr
  let _ ← expect .rightParen
  if values.length ≠ callee.params.length then
    fail (.argumentCount callee.name callee.params.length values.length) pos
  else
    return callee.params.zipWith (fun p value => ⟨p.name, p.typeName, value⟩) values

/-- The fields of a struct literal, which have to come in the order of their declaration. -/
def literalFields (struct : String) : List TypedName → Parse (List (Binding Expr))
  | [] => do
    if ← check .rightBrace then
      return []
    else
      let t ← expect .identifier
      fail (.unknownField struct t.lexeme none) t.pos
  | declared :: others => do
    if ← check .rightBrace then
      return []
    else
      let t ← expect .identifier
      if t.lexeme ≠ declared.name then
        fail (.fieldOrder declared.name t.lexeme) t.pos
      else
        let _ ← expect .colon
        let value ← expr
        let binding := ⟨declared.name, declared.typeName, value⟩
        if ← accept .comma then
          return binding :: (← literalFields struct others)
        else
          return [binding]

/-- A struct literal after the name of the struct, which stands at `pos`. -/
def structLiteral (pos : Position) (struct : StructDef) : Parse Expr := do
  let _ ← expect .leftBrace
  let fields ← literalFields expr struct.name struct.fields
  let _ ← expect .rightBrace
  if fields.length < struct.fields.length then
    fail (.missingFields struct.name (struct.fieldNames.drop fields.length)) pos
  else
    return .structInstance pos ⟨struct, fields⟩

/-- What may follow the name of a struct: a call of one of its procedures, or a literal. -/
def structUse (pos : Position) (struct : StructDef) : Parse Expr := do
  if ← accept .doubleColon then
    let method ← expect .identifier
    match (← tables).impls.lookup? struct.name with
    | none => fail (.missingImpl struct.name) pos
    | some e =>
      match e.decl.proc? method.lexeme with
      | none => fail (.unknownMethod struct.name method.lexeme) method.pos
      | some callee =>
        let args ← callArgs expr callee method.pos
        foldOperators (.implCall pos e.id e.decl.struct.name callee args)
  else
    structLiteral expr pos struct

/--
A field of a variable after the point: its value, or an assignment.  An assignment binds the
variable to a copy of the instance that it had when the field was read.
-/
def fieldUse (pos : Position) (e : Entry (Binding Expr)) : Parse Expr := do
  let name ← expect .identifier
  match e.decl.value.instance? with
  | none => fail (.notAStruct e.decl.name e.decl.typeName) pos
  | some value =>
    match value.field? name.lexeme with
    | none =>
      fail (.unknownField value.struct.name name.lexeme
        (suggestionsFor name.lexeme value.struct.fieldNames)) name.pos
    | some field =>
      if ← accept .assign then
        let newValue ← expr
        let updated := (value.withField? name.lexeme newValue).getD value
        let current ← currentBinding e
        rebind e (.structInstance current.value.pos updated)
        return .fieldAssign pos (← currentBinding e) (field.rebind newValue) newValue
      else
        foldOperators (.fieldAccess pos e.decl field)

/-- What may follow the name of a variable: an assignment, a field, or operators. -/
def variableUse (pos : Position) (e : Entry (Binding Expr)) : Parse Expr := do
  if ← accept .assign then
    let newValue ← expr
    return .assign pos (← currentBinding e) newValue
  else if ← accept .dot then
    fieldUse expr pos e
  else
    foldOperators (.reference pos e.decl)

/-- The expression that starts with the name `t`. -/
def nameUse (t : Token) : Parse Expr := do
  let known ← tables
  match known.resolve? t.lexeme with
  | some (.variable e) => variableUse expr t.pos e
  | some (.procedure e) => do
    let args ← callArgs expr e.decl t.pos
    foldOperators (.call t.pos e.decl args)
  | some (.struct e) => structUse expr t.pos e.decl
  | _ => fail (.unresolvedName t.lexeme (suggestionsFor t.lexeme known.visibleNames)) t.pos

/-- The expression whose first token `t` has been read. -/
def exprStep (t : Token) : Parse Expr := do
  match t.kind with
  | .literal => foldOperators (.literal t.pos t.lexeme t.lit)
  | .identifier => nameUse expr t
  | .not =>
    let inner ← expr
    return .binary t.pos inner .neg (.literal t.pos "" .none)
  | .minus => foldOperators (← negativeLiteral t.pos)
  | .invalid => fail (.invalidCharacter t.lexeme) t.pos
  | _ => fail (.invalidExpression "expression" t.lexeme) t.pos

end Compounds

/-- An expression in at most the given number of tokens. -/
def exprUpTo : Nat → Parse Expr
  | 0 => failAtEnd (.words "more input")
  | n + 1 => do exprStep (exprUpTo n) (← advance)

/-- The next expression. -/
def expr : Parse Expr :=
  bounded exprUpTo

/-- The expression whose first token has been read. -/
def exprFrom (t : Token) : Parse Expr :=
  bounded fun n => exprStep (exprUpTo n) t

end Parse
end ScriptFront
