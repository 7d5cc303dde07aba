import ScriptFront.Symbol.Table
import ScriptFront.Tree.Basic

/-!
# The tables of one program

Four tables are kept while a program is read: variables with their current values, procedures,
structs, and the impl blocks of structs.  A name stands for a variable before it stands for a
procedure, and for a procedure before it stands for a struct.
-/

namespace ScriptFront

instance : Named (Binding Expr) := ⟨Binding.name⟩

instance : Named (Proc Expr) := ⟨Proc.name⟩

instance : Named StructDef := ⟨StructDef.name⟩

instance : Named (Impl Expr) := ⟨fun block => block.struct.name⟩

/-- The sorts of declarations, each with a table of its own. -/
inductive SymbolKind where
  | variable
  | procedure
  | struct
  | impl
deriving DecidableEq

namespace SymbolKind

/-- The word for a sort of declaration. -/
def label : SymbolKind → String
  | .variable => "variable"
  | procedure => "procedure"
  | struct => "struct"
  | impl => "impl"

end SymbolKind

/-- An entry of one of the tables. -/
inductive Symbol where
  | variable (entry : Entry (Binding Expr))
  | procedure (entry : Entry (Proc Expr))
  | struct (entry : Entry StructDef)
  | impl (entry : Entry (Impl Expr))

namespace Symbol

/-- The table of an entry. -/
def kind : Symbol → SymbolKind
  | .variable _ => .variable
  | procedure _ => .procedure
  | struct _ => .struct
  | impl _ => .impl

/-- The identity of an entry. -/
def id : Symbol → Nat
  | .variable e => e.id
  | procedure e => e.id
  | struct e => e.id
  | impl e => e.id

/-- The name of the declaration of an entry. -/
def name : Symbol → String
  | .variable e => Named.name e.decl
  | procedure e => Named.name e.decl
  | struct e => Named.name e.decl
  | impl e => Named.name e.decl

instance : Named Symbol := ⟨name⟩

end Symbol

/-- The tables of a program. -/
structure Tables where
  vars : SymbolTable (Binding Expr) := {}
  procedures : SymbolTable (Proc Expr) := {}
  structs : SymbolTable StructDef := {}
  impls : SymbolTable (Impl Expr) := {}

namespace Tables

/-- The entry that a name stands for. -/
def resolve? (t : Tables) (name : String) : Option Symbol :=
  match t.vars.lookup? name with
  | some e => some (.variable e)
  | none =>
    match t.procedures.lookup? name with
    | some e => some (.procedure e)
    | none => (t.structs.lookup? name).map .struct

/-- Every name that could stand for something, table by table. -/
def visibleNames (t : Tables) : List String :=
  t.vars.names ++ t.procedures.names ++ t.structs.names

/-- The oldest entry of a name in one table. -/
def lookup? (t : Tables) (kind : SymbolKind) (name : String) : Option Symbol :=
  match kind with
  | .variable => (t.vars.lookup? name).map .variable
  | .procedure => (t.procedures.lookup? name).map .procedure
  | .struct => (t.structs.lookup? name).map .struct
  | .impl => (t.impls.lookup? name).map .impl

/-- The number of entries of one table. -/
def size (t : Tables) : SymbolKind → Nat
  | .variable => t.vars.size
  | .procedure => t.procedures.size
  | .struct => t.structs.size
  | .impl => t.impls.size

/-- The names of one table, oldest first. -/
def names (t : Tables) : SymbolKind → List String
  | .variable => t.vars.names
  | .procedure => t.procedures.names
  | .struct => t.structs.names
  | .impl => t.impls.names

/-- The identities of the entries of one table, oldest first. -/
def ids (t : Tables) : SymbolKind → List Nat
  | .variable => t.vars.entries.map Entry.id
  | .procedure => t.procedures.entries.map Entry.id
  | .struct => t.structs.entries.map Entry.id
  | .impl => t.impls.entries.map Entry.id

/-- Appends an entry to its table. -/
def declare (t : Tables) : Symbol → Tables
  | .variable e => { t with vars := t.vars.declare e }
  | .procedure e => { t with procedures := t.procedures.declare e }
  | .struct e => { t with structs := t.structs.declare e }
  | .impl e => { t with impls := t.impls.declare e }

/-- The table of an entry already has an entry of that name. -/
def shadows (t : Tables) (s : Symbol) : Bool :=
  (t.lookup? s.kind s.name).isSome

/-- The entry is in its table. -/
def holds (t : Tables) : Symbol → Bool
  | .variable e => t.vars.holds e.id
  | .procedure e => t.procedures.holds e.id
  | .struct e => t.structs.holds e.id
  | .impl e => t.impls.holds e.id

/-- Removes an entry from its table. -/
def erase (t : Tables) : Symbol → Tables
  | .variable e => { t with vars := t.vars.erase e.id }
  | .procedure e => { t with procedures := t.procedures.erase e.id }
  | .struct e => { t with structs := t.structs.erase e.id }
  | .impl e => { t with impls := t.impls.erase e.id }

/-- A one-line account of one table. -/
def describe (t : Tables) (kind : SymbolKind) : String :=
  "SymbolTable(" ++ kind.label ++ ", " ++ toString (t.size kind) ++ " entries)"

theorem resolve?_of_variable {t : Tables} {name : String} {e : Entry (Binding Expr)}
    (h : t.vars.lookup? name = some e) : t.resolve? name = some (.variable e) := by
  simp [resolve?, h]

end Tables
end ScriptFront
