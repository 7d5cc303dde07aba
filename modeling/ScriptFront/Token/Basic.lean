import ScriptFront.Position
import ScriptFront.Token.Kind

/-!
# Tokens

A token is a kind, the text it stands for, the position where it starts and, for a literal, the
type of the literal.
-/

namespace ScriptFront

/-- A token of a source text. -/
structure Token where
  kind : TokenKind
  lexeme : String
  pos : Position
  lit : LiteralType := .none
deriving DecidableEq, Inhabited

namespace Token

/-- The line that stands for a token in a listing. -/
def display (t : Token) : String :=
  let kind :=
    if t.kind = .literal then t.kind.label ++ "(" ++ t.lit.label ++ ")" else t.kind.label
  "<" ++ t.pos.display ++ " " ++ kind ++ "> " ++ t.lexeme

/-- A literal. -/
def isLiteral (t : Token) : Bool :=
  t.kind = .literal

/-- A keyword with the spelling that belongs to it. -/
def isKeyword (t : Token) : Bool :=
  TokenKind.keyword? t.lexeme = some t.kind

/-- An operator. -/
def isOperator (t : Token) : Bool :=
  t.kind.isOperator

/-- An identifier. -/
def isIdentifier (t : Token) : Bool :=
  t.kind = .identifier

end Token
end ScriptFront
