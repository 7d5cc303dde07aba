import ScriptFront.Token.Kind

/-!
# Operators of expressions

The operators that join two operands.  Negation takes one operand, and the step operators `++` and
`--` have the number one as their second operand.
-/

namespace ScriptFront

/-- An operator of an expression. -/
inductive Operator where
  | add
  | sub
  | mul
  | div
  | eq
  | ne
  | lt
  | lte
  | gt
  | gte
  | neg
  | inc
  | dec
deriving DecidableEq

namespace Operator

/-- The name of an operator. -/
def label : Operator → String
  | add => "ADD"
  | sub => "SUB"
  | mul => "MUL"
  | div => "DIV"
  | eq => "EQ"
  | ne => "NE"
  | lt => "LT"
  | lte => "LTE"
  | gt => "GT"
  | gte => "GTE"
  | neg => "NEG"
  | inc => "INC"
  | dec => "DEC"

/-- The spelling of an operator. -/
def symbol : Operator → String
  | add => "+"
  | sub => "-"
  | mul => "*"
  | div => "/"
  | eq => "=="
  | ne => "!="
  | lt => "<"
  | lte => "<="
  | gt => ">"
  | gte => ">="
  | neg => "!"
  | inc => "++"
  | dec => "--"

/-- Comparisons and negation always give a truth value. -/
def isBoolean : Operator → Bool
  | eq | ne | lt | lte | gt | gte | neg => true
  | _ => false

/-- Increment and decrement. -/
def isStep : Operator → Bool
  | inc | dec => true
  | _ => false

/-- The operator that a token stands for. -/
def ofToken? : TokenKind → Option Operator
  | .plus => some add
  | .minus => some sub
  | .multiply => some mul
  | .divide => some div
  | .equal => some eq
  | .notEqual => some ne
  | .lessThan => some lt
  | .lessEqual => some lte
  | .greaterThan => some gt
  | .greaterEqual => some gte
  | .not => some neg
  | .increment => some inc
  | .decrement => some dec
  | _ => none

/-- The operator that may follow an operand; negation only stands in front of one. -/
def foldable? (k : TokenKind) : Option Operator :=
  if k = .not then none else ofToken? k

theorem foldable?_ne_neg (k : TokenKind) : foldable? k ≠ some neg := by
  cases k <;> decide

end Operator
end ScriptFront
