import ScriptFront.Diagnostic.Basic
import ScriptFront.Text.Quoted
import ScriptFront.Token.Kind

/-!
# What can be wrong with a source text

Every problem has a cause.  The cause decides the code, the wording, the help and the suggestions
of the diagnostic in which the problem is reported; the position says where it was found.
-/

namespace ScriptFront

/-- The stage of the front end that finds a problem. -/
inductive Stage where
  | lexical
  | grammatical
  | semantic
  | advisory
deriving DecidableEq

/-- What would have been accepted in place of a token: a kind of token, or something in words. -/
inductive Expected where
  | kind (k : TokenKind)
  | words (text : String)
deriving DecidableEq

namespace Expected

/-- The wording of what was expected. -/
def describe : Expected → String
  | kind k => k.describe
  | words text => text

/-- Advice for what is missing. -/
def hints : Expected → List String
  | kind k => k.hints
  | words _ => []

end Expected

/-- Why a piece of source text is refused or commented on. -/
inductive Cause where
  | invalidCharacter (text : String)
  | strayToken (found : String)
  | unexpectedToken (expected : Expected) (found : String)
  | invalidExpression (context found : String)
  | unexpectedEnd (expected : Expected)
  | typeMismatch (expected found : String)
  | nonBooleanCondition (found : String)
  | unresolvedName (name : String) (suggestions : Option (List String))
  | redeclared (sort name : String)
  | undeclaredStruct (name : String)
  | argumentCount (name : String) (expected found : Nat)
  | missingImpl (struct : String)
  | unknownMethod (struct method : String)
  | notAStruct (name typeName : String)
  | unknownField (struct field : String) (suggestions : Option (List String))
  | fieldOrder (expected found : String)
  | missingFields (struct : String) (missing : List String)
deriving DecidableEq

namespace Cause

/-- The stage at which a cause is found. -/
def stage : Cause → Stage
  | invalidCharacter _ => .lexical
  | strayToken _ | unexpectedToken _ _ | invalidExpression _ _ | unexpectedEnd _ => .grammatical
  | typeMismatch _ _ | redeclared _ _ => .advisory
  | _ => .semantic

/-- The code of a cause. -/
def code : Cause → String
  | invalidCharacter _ => "L001"
  | strayToken _ => "P001"
  | unexpectedToken _ _ => "P002"
  | invalidExpression _ _ => "P003"
  | unexpectedEnd _ => "P010"
  | typeMismatch _ _ => "S001"
  | nonBooleanCondition _ => "S002"
  | unresolvedName _ _ => "S010"
  | redeclared _ _ => "S011"
  | undeclaredStruct _ => "S012"
  | argumentCount _ _ _ => "S020"
  | missingImpl _ => "S021"
  | unknownMethod _ _ => "S022"
  | notAStruct _ _ => "S030"
  | unknownField _ _ _ => "S031"
  | fieldOrder _ _ => "S032"
  | missingFields _ _ => "S033"

/-- A redeclaration is only a warning. -/
def severity : Cause → String
  | redeclared _ _ => "warning"
  | _ => "error"

/-- The wording of a cause. -/
def message : Cause → String
  | invalidCharacter text => "unexpected character '" ++ text ++ "'"
  | strayToken found => "unexpected token '" ++ found ++ "'"
  | unexpectedToken expected found =>
    "expected " ++ expected.describe ++ " found '" ++ found ++ "'"
  | invalidExpression context found => "expected " ++ context ++ " found '" ++ found ++ "'"
  | unexpectedEnd expected => "unexpected end of input, expected " ++ expected.describe
  | typeMismatch expected found => "expected " ++ expected ++ " found '" ++ found ++ "'"
  | nonBooleanCondition found => "condition must be bool, found '" ++ found ++ "'"
  | unresolvedName name _ => "unresolved identifier '" ++ name ++ "'"
  | redeclared sort name =>
    sort ++ " '" ++ name ++ "' is already declared; the earlier declaration stays in effect"
  | undeclaredStruct name => "impl for undeclared struct '" ++ name ++ "'"
  | argumentCount name expected found =>
    "'" ++ name ++ "' takes " ++ toString expected ++ " argument(s) but " ++ toString found ++
      " were given"
  | missingImpl struct => "struct '" ++ struct ++ "' has no impl block"
  | unknownMethod struct method => "no procedure '" ++ method ++ "' in impl " ++ struct
  | notAStruct name typeName =>
    "'" ++ name ++ "' of type '" ++ typeName ++ "' is not a struct instance"
  | unknownField struct field _ => "struct '" ++ struct ++ "' has no field '" ++ field ++ "'"
  | fieldOrder expected found => "expected field '" ++ expected ++ "' found '" ++ found ++ "'"
  | missingFields struct missing =>
    "missing field(s) " ++ ", ".intercalate missing ++ " in '" ++ struct ++ "' literal"

/-- The question that offers other names, if there are any. -/
def didYouMean : Option (List String) → Option String
  | none | some [] => none
  | some names =>
    some ("did you mean " ++ ", ".intercalate (names.map fun n => "'" ++ n ++ "'") ++ "?")

/-- A code point with at least four digits of base sixteen. -/
def codePoint (c : Char) : String :=
  "U+" ++ String.ofList ((Text.hexDigits 4 c.toNat).map Char.toUpper)

/-- The help for a character that starts no token: itself if it can be shown, else its number. -/
def characterHelp (text : String) : String :=
  match text.toList.find? fun c => !Text.isVisible c with
  | none => "The character '" ++ text ++ "' is not valid in MetaScript source code."
  | some c => "Non-printable character (Unicode: " ++ codePoint c ++ ") is not allowed."

/-- The line of help that goes with a cause. -/
def help : Cause → Option String
  | invalidCharacter text => some (characterHelp text)
  | unexpectedToken expected _ => expected.hints.head?
  | unresolvedName _ suggestions | unknownField _ _ suggestions => didYouMean suggestions
  | fieldOrder _ _ => some "struct literals bind fields in declaration order"
  | _ => none

/-- The suggestions that go with a cause; an empty list says that some were looked for. -/
def suggestions : Cause → Option (List String)
  | unexpectedToken expected _ => some expected.hints
  | unresolvedName _ names | unknownField _ _ names => names
  | _ => none

/-- An input that ended too early. -/
def isUnexpectedEnd : Cause → Bool
  | unexpectedEnd _ => true
  | _ => false

end Cause

/-- A cause and the place where it was found. -/
structure Problem where
  cause : Cause
  pos : Position
deriving DecidableEq

/-- The diagnostic in which a problem is reported. -/
def Problem.diagnostic (p : Problem) : Diagnostic :=
  ⟨p.cause.message, p.pos, p.cause.severity, some p.cause.code, p.cause.help,
    p.cause.suggestions⟩

end ScriptFront
