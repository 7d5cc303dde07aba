import ScriptFront.Tree.Render

/-!
# Writing a tree with a counter

The readable form of a tree can be written in one go with a counter of the blocks around the place
that is written.  A block counts itself while its lines are written and takes that back behind the
last of them.
-/

namespace ScriptFront

/-- A step of writing, with the number of blocks around the place. -/
abbrev Printer := StateM Nat

namespace Printer

open ScriptFront.Expr

/-- A line of a block, indented for the blocks around it. -/
def line (text : Printer String) : Printer String := do
  let depth ← get
  return indent depth ++ (← text)

/-- What stands behind the head of a procedure. -/
def headed (head : String) (body : Printer String) : Printer String :=
  return head ++ (← body)

/-- The end of a block behind its lines. -/
def close (lines : List String) : Printer String := do
  modify (· - 1)
  let depth ← get
  return "[\n" ++ "\n".intercalate lines ++ "\n" ++ indent depth ++ "]"

/-- A block around some lines; the lines of an empty one are not gone through. -/
def block (isEmpty : Bool) (lines : Printer (List String)) : Printer String :=
  if isEmpty then
    return "[]"
  else do
    modify (· + 1)
    close (← lines)

mutual

/-- Writes an expression. -/
def visit : Expr → Printer String
  | literal _ text lit =>
    return "Literal ('" ++ text ++ "', " ++ Text.titleCase lit.label ++ ")"
  | reference _ ⟨name, typeName, value⟩ =>
    return "Variable (" ++ name ++ ": " ++ typeName ++ " = " ++ (← visit value) ++ ")"
  | letStatement _ name typeName value =>
    return "Let (" ++ name ++ ": " ++ typeName ++ " = " ++ (← visit value) ++ ")"
  | assign _ target value => return "Assign (" ++ target.name ++ " = " ++ (← visit value) ++ ")"
  | returnStatement _ none => return "Return"
  | returnStatement _ (some value) => return "Return (" ++ (← visit value) ++ ")"
  | ifStatement _ condition body =>
    return "If (" ++ (← visit condition) ++ ") " ++ (← block body.isEmpty (visitLines body))
  | whileStatement _ condition body =>
    return "While (" ++ (← visit condition) ++ ") " ++ (← block body.isEmpty (visitLines body))
  | range _ start stop => return "Range (" ++ (← visit start) ++ ".." ++ (← visit stop) ++ ")"
  | forLoop _ counter bounds body =>
    return "For (" ++ counter.name ++ " in " ++ (← visit bounds) ++ ") " ++
      (← block body.isEmpty (visitLines body))
  | procDef ⟨_, _, name, returnType, params, body⟩ =>
    headed (procHead name params returnType) (block body.isEmpty (visitLines body))
  | call _ callee args =>
    return "FunCall " ++ callee.name ++ "(" ++ ", ".intercalate (← visitBindings args) ++ ")"
  | structDef _ struct =>
    return bracedText ("StructDef " ++ struct.name) (typedNamesText struct.fields)
  | structInstance _ ⟨struct, fields⟩ =>
    return bracedText ("StructInstance " ++ struct.name)
      (", ".intercalate (← visitBindings fields))
  | implBlock _ _ ⟨struct, procs⟩ =>
    return "Impl " ++ struct.name ++ " " ++ (← block procs.isEmpty (visitProcs procs))
  | implCall _ _ struct callee args =>
    return "ImplFunCall " ++ struct ++ "::" ++ callee.name ++ "(" ++
      ", ".intercalate (← visitBindings args) ++ ")"
  | fieldAssign _ owner field value =>
    return "FieldAssign (" ++ owner.name ++ "." ++ field.name ++ " = " ++ (← visit value) ++ ")"
  | fieldAccess _ owner ⟨name, _, value⟩ =>
    return "FieldAccess (" ++ owner.name ++ "." ++ name ++ " = " ++ (← visit value) ++ ")"
  | binary _ lhs op rhs =>
    return "BinaryOp (" ++ (← visit lhs) ++ ", " ++ Text.titleCase op.label ++ ", " ++
      (← visit rhs) ++ ")"

/-- Writes the lines of the statements of a block. -/
def visitLines : List Expr → Printer (List String)
  | [] => return []
  | e :: es => return (← line (visit e)) :: (← visitLines es)

/-- Writes the lines of the procedures of an impl block. -/
def visitProcs : List (Proc Expr) → Printer (List String)
  | [] => return []
  | ⟨_, _, name, returnType, params, body⟩ :: ps =>
    let proc := headed (procHead name params returnType) (block body.isEmpty (visitLines body))
    return (← line proc) :: (← visitProcs ps)

/-- Writes bindings. -/
def visitBindings : List (Binding Expr) → Printer (List String)
  | [] => return []
  | ⟨name, typeName, value⟩ :: bs =>
    return (name ++ ": " ++ typeName ++ " = " ++ (← visit value)) :: (← visitBindings bs)

end

/-- Writes an expression as one outside of all blocks. -/
def print (e : Expr) : Printer String := do
  set 0
  visit e

/-- Writes a program, each expression ended by a line feed. -/
def printProgram (p : Program) : Printer String :=
  return String.join ((← p.mapM print).map (· ++ "\n"))

end Printer
end ScriptFront
