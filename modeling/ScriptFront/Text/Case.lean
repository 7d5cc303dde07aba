/-!
# Letter case of labels

Labels are written in ASCII.  Two changes of case are used when they are shown: a sentence starts
with a capital, and a title starts every word with one.
-/

namespace ScriptFront
namespace Text

/-- The first letter in upper case and all others in lower case. -/
def capitalize (label : String) : String :=
  match label.toList with
  | [] => ""
  | c :: cs => String.ofList (c.toUpper :: cs.map Char.toLower)

/-- Upper case for each letter that follows no letter, lower case for the others. -/
def titleChars (afterLetter : Bool) : List Char → List Char
  | [] => []
  | c :: cs => (if afterLetter then c.toLower else c.toUpper) :: titleChars c.isAlpha cs

/-- Every word of a label starts with a capital. -/
def titleCase (label : String) : String :=
  String.ofList (titleChars false label.toList)

end Text
end ScriptFront
