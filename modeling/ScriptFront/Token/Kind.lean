/-!
# Kinds of tokens and types of literals

The closed vocabulary of the language: marks, operators, keywords, identifiers and literals, and
the kind of a character that starts no token.  A literal carries one of six literal types, five of
which have a name that a program can write.
-/

namespace ScriptFront

/-- What a token is. -/
inductive TokenKind where
  | leftParen
  | rightParen
  | leftBrace
  | rightBrace
  | colon
  | doubleColon
  | semicolon
  | comma
  | dot
  | range
  | plus
  | minus
  | multiply
  | divide
  | assign
  | equal
  | notEqual
  | lessThan
  | lessEqual
  | greaterThan
  | greaterEqual
  | not
  | increment
  | decrement
  | letWord
  | procWord
  | structWord
  | implWord
  | ifWord
  | whileWord
  | forWord
  | inWord
  | returnWord
  | identifier
  | literal
  | invalid
deriving DecidableEq, Inhabited

namespace TokenKind

/-- Every kind, in the order in which kinds are numbered. -/
def all : List TokenKind :=
  [leftParen, rightParen, leftBrace, rightBrace, colon, doubleColon, semicolon, comma, dot, range,
   plus, minus, multiply, divide, assign, equal, notEqual, lessThan, lessEqual, greaterThan,
   greaterEqual, not, increment, decrement, letWord, procWord, structWord, implWord, ifWord,
   whileWord, forWord, inWord, returnWord, identifier, literal, invalid]

/-- The name of a kind in token listings. -/
def label : TokenKind → String
  | leftParen => "LEFT_PAREN"
  | rightParen => "RIGHT_PAREN"
  | leftBrace => "LEFT_BRACE"
  | rightBrace => "RIGHT_BRACE"
  | colon => "COLON"
  | doubleColon => "DOUBLE_COLON"
  | semicolon => "SEMICOLON"
  | comma => "COMMA"
  | dot => "DOT"
  | range => "RANGE"
  | plus => "PLUS"
  | minus => "MINUS"
  | multiply => "MULTIPLY"
  | divide => "DIVIDE"
  | assign => "ASSIGN"
  | equal => "EQUAL"
  | notEqual => "NOT_EQUAL"
  | lessThan => "LESS_THAN"
  | lessEqual => "LESS_EQUAL"
  | greaterThan => "GREATER_THAN"
  | greaterEqual => "GREATER_EQUAL"
  | not => "NOT"
  | increment => "INCREMENT"
  | decrement => "DECREMENT"
  | letWord => "LET"
  | procWord => "PROC"
  | structWord => "STRUCT"
  | implWord => "IMPL"
  | ifWord => "IF"
  | whileWord => "WHILE"
  | forWord => "FOR"
  | inWord => "IN"
  | returnWord => "RETURN"
  | identifier => "IDENTIFIER"
  | literal => "LITERAL"
  | invalid => "INVALID"

/-- The number of a kind, counted from one. -/
def number (k : TokenKind) : Nat :=
  all.idxOf k + 1

/-- The keyword that a word spells, if any. -/
def keyword? : String → Option TokenKind
  | "let" => some letWord
  | "proc" => some procWord
  | "struct" => some structWord
  | "impl" => some implWord
  | "if" => some ifWord
  | "while" => some whileWord
  | "for" => some forWord
  | "in" => some inWord
  | "return" => some returnWord
  | _ => none

/-- The kind of a mark or operator of one character. -/
def ofChar? : Char → Option TokenKind
  | '(' => some leftParen
  | ')' => some rightParen
  | '\x7b' => some leftBrace
  | '\x7d' => some rightBrace
  | ':' => some colon
  | ';' => some semicolon
  | ',' => some comma
  | '.' => some dot
  | '+' => some plus
  | '-' => some minus
  | '*' => some multiply
  | '/' => some divide
  | '=' => some assign
  | '<' => some lessThan
  | '>' => some greaterThan
  | '!' => some not
  | _ => none

/-- The kind of a mark or operator of two characters. -/
def ofPair? : Char → Char → Option TokenKind
  | ':', ':' => some doubleColon
  | '.', '.' => some range
  | '=', '=' => some equal
  | '<', '=' => some lessEqual
  | '>', '=' => some greaterEqual
  | '!', '=' => some notEqual
  | '+', '+' => some increment
  | '-', '-' => some decrement
  | _, _ => none

/-- The operators, assignment among them. -/
def isOperator : TokenKind → Bool
  | plus | minus | multiply | divide | assign | equal | notEqual | lessThan | lessEqual
  | greaterThan | greaterEqual | not | increment | decrement => true
  | _ => false

/-- The keywords that begin a statement; recovery after an error stops in front of them. -/
def startsStatement : TokenKind → Bool
  | letWord | procWord | structWord | implWord | ifWord | whileWord | forWord | returnWord => true
  | _ => false

/-- How a kind is named in a message: quoted if it has one spelling, in words if not. -/
def describe : TokenKind → String
  | leftParen => "'('"
  | rightParen => "')'"
  | leftBrace => "'\x7b'"
  | rightBrace => "'\x7d'"
  | colon => "':'"
  | doubleColon => "'::'"
  | semicolon => "';'"
  | comma => "','"
  | dot => "'.'"
  | range => "'..'"
  | assign => "'='"
  | inWord => "'in'"
  | identifier => "identifier"
  | literal => "literal"
  | plus => "plus"
  | minus => "minus"
  | multiply => "multiply"
  | divide => "divide"
  | equal => "equal"
  | notEqual => "not_equal"
  | lessThan => "less_than"
  | lessEqual => "less_equal"
  | greaterThan => "greater_than"
  | greaterEqual => "greater_equal"
  | not => "not"
  | increment => "increment"
  | decrement => "decrement"
  | letWord => "let"
  | procWord => "proc"
  | structWord => "struct"
  | implWord => "impl"
  | ifWord => "if"
  | whileWord => "while"
  | forWord => "for"
  | returnWord => "return"
  | invalid => "invalid"

/-- Advice for a token of this kind that is missing. -/
def hints : TokenKind → List String
  | semicolon => ["Add a semicolon ';' to end the statement"]
  | rightParen => ["Add a closing parenthesis ')'"]
  | rightBrace => ["Add a closing brace '\x7d'"]
  | leftBrace => ["Add an opening brace '\x7b' to start a block"]
  | leftParen => ["Add an opening parenthesis '(' before the arguments"]
  | colon => ["Add a colon ':' before the type name"]
  | assign => ["Add an assignment operator '='"]
  | range => ["Write the range as 'start..end'"]
  | _ => []

end TokenKind

/-- The type of a literal; `none` marks a place without a value. -/
inductive LiteralType where
  | none
  | char
  | bool
  | number
  | float
  | string
deriving DecidableEq, Inhabited

namespace LiteralType

/-- Every literal type. -/
def all : List LiteralType :=
  [none, char, bool, number, float, string]

/-- The name of a literal type in token listings. -/
def label : LiteralType → String
  | none => "NONE"
  | char => "CHAR"
  | bool => "BOOL"
  | number => "NUMBER"
  | float => "FLOAT"
  | string => "STRING"

/-- The tag of a literal type. -/
def tag : LiteralType → String
  | none => "none"
  | char => "char"
  | bool => "bool"
  | number => "number"
  | float => "float"
  | string => "string"

/-- The name by which a program refers to the type. -/
def typeName : LiteralType → String
  | none => "none"
  | char => "char"
  | bool => "bool"
  | number => "i32"
  | float => "f32"
  | string => "String"

/-- The builtin literal type of a type name; any other name has none. -/
def ofTypeName : String → LiteralType
  | "char" => char
  | "bool" => bool
  | "i32" => number
  | "f32" => float
  | "String" => string
  | _ => none

end LiteralType
end ScriptFront
