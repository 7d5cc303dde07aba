import ScriptFront.Parse.Program
import ScriptFront.Tree.Render

/-!
# Source files

A source file is read as a whole: its bytes have to be well-formed UTF-8, and every way to end a
line becomes a line feed.  Positions carry the last component of the path.  After a file has been
parsed, the readable form of its program may be written to another file.
-/

namespace ScriptFront

/-- Every way to end a line, as a line feed: alone, or a carriage return with or without one. -/
def unifyLineEnds : List Char → List Char
  | [] => []
  | '\r' :: '\n' :: cs => '\n' :: unifyLineEnds cs
  | '\r' :: cs => '\n' :: unifyLineEnds cs
  | c :: cs => c :: unifyLineEnds cs

/-- The last component of a path. -/
def baseName (path : String) : String :=
  String.ofList (path.toList.reverse.takeWhile (· != '/')).reverse

/-- Why a file cannot be read or written. -/
inductive FileError where
  | notFound
  | notText
deriving DecidableEq

/-- A file: its path, and its bytes if it exists. -/
structure SourceFile where
  path : String
  content : Option ByteArray

/-- Where the readable form of a program is to be written. -/
inductive DumpTarget where
  | nowhere
  | writable
  | unreachable
deriving DecidableEq

namespace SourceFile

/-- The text of a file. -/
def text (f : SourceFile) : Except FileError (List Char) :=
  match f.content with
  | none => .error .notFound
  | some bytes =>
    match String.fromUTF8? bytes with
    | none => .error .notText
    | some text => .ok (unifyLineEnds text.toList)

/-- The tokens of a file. -/
def tokenize (f : SourceFile) : Except FileError (List Token) :=
  f.text.map (ScriptFront.tokenize (baseName f.path))

/-- The program of a file, and the readable form that is written to the target, if it is. -/
def parse (f : SourceFile) (target : DumpTarget) :
    Except FileError (Session × Option String) := do
  let session := parseProgram (baseName f.path) (← f.text)
  match target with
  | .nowhere => return (session, none)
  | .writable => return (session, some session.program.render)
  | .unreachable => throw .notFound

end SourceFile

end ScriptFront
