import ScriptFront.Token.Reader
import ScriptFront.Tree.Walk
import ScriptFront.Tree.Inspect
import ScriptFront.Symbol.History
import ScriptFront.Parse.Trace
import ScriptFront.SourceFile
import ScriptFront.Proofs.Reading.Braces
import ScriptFront.Proofs.Surface.CompleteStatements
import ScriptFront.Proofs.Values.Failures
import ScriptFront.Proofs.Values.Updates
import ScriptFront.Proofs.Values.Primaries
import ScriptFront.Proofs.Values.Spared
import ScriptFront.Proofs.Values.Counters
import ScriptFront.Proofs.Recovery.Unresolved
import ScriptFront.Proofs.Recovery.InputEnd
import ScriptFront.Proofs.Scanning.Spelling
import ScriptFront.Proofs.Scanning.Places
import ScriptFront.Proofs.Layout.Insensitivity
import ScriptFront.Proofs.Sequence.Programs
import ScriptFront.Proofs.Tables.Agreement
import ScriptFront.Proofs.Tables.Scopes
import ScriptFront.Proofs.Tables.Redeclarations
import ScriptFront.Proofs.Tables.CallGraph
import ScriptFront.Proofs.Layout.Order
import ScriptFront.Proofs.Names.Rows
import ScriptFront.Proofs.Values.Defaults
import ScriptFront.Proofs.Tables.Histories
import ScriptFront.Proofs.Scanning.Munch
import ScriptFront.Proofs.Values.Rebinding
import ScriptFront.Proofs.Names.Suggestions
import ScriptFront.Proofs.Lookahead.BareReturns
import ScriptFront.Proofs.Rendering.Lines
