import ScriptFront.Position
import ScriptFront.Text.Case

/-!
# Diagnostics

A diagnostic is a positioned message about a source text, with a severity and, if there is more to
say, a code, a line of help and suggestions.  Diagnostics are collected in the order in which they
are reported, and reporting one never stops anything.
-/

namespace ScriptFront

/-- A message about a place of a source text. -/
structure Diagnostic where
  message : String
  pos : Position
  severity : String
  code : Option String := none
  help : Option String := none
  suggestions : Option (List String) := none
deriving DecidableEq

namespace Diagnostic

/-- The severity of errors; all others are warnings. -/
def isError (d : Diagnostic) : Bool :=
  d.severity = "error"

/-- The text of a diagnostic; the help stands on a line of its own, if there is any. -/
def display (d : Diagnostic) : String :=
  let line := "<" ++ d.pos.display ++ "> " ++ Text.capitalize d.severity ++ ": " ++ d.message
  match d.help with
  | none => line
  | some help => if help = "" then line else line ++ "\n  help: " ++ help

/-- The diagnostics that are errors. -/
def errors (ds : List Diagnostic) : List Diagnostic :=
  ds.filter isError

/-- The diagnostics that are not errors. -/
def warnings (ds : List Diagnostic) : List Diagnostic :=
  ds.filter fun d => !d.isError

/-- Some diagnostic is an error. -/
def hasErrors (ds : List Diagnostic) : Bool :=
  ds.any isError

/-- What a reader is shown of a list of diagnostics: each one, ended by a line feed. -/
def printed (ds : List Diagnostic) : String :=
  String.join (ds.map fun d => d.display ++ "\n")

/-- Where diagnostics are shown when they are reported. -/
inductive Echo where
  | stream
  | console
  | nowhere
deriving DecidableEq

/-- What is shown of a list of diagnostics in one place, when they are shown in another. -/
def shown (echo place : Echo) (ds : List Diagnostic) : String :=
  if echo = place then printed ds else ""

end Diagnostic
end ScriptFront
