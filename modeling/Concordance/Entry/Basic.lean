import Concordance.Json.Display
import Concordance.Signature.Basic

/-!
# Entries

What an index holds: clauses, numbered tables and operations. Every entry lives in a namespace
(`scope`). A clause or a table has an id of its own; an operation has one, or refers by `refId` to
the entry that does. Snapshots of other tools are loosely typed, so the optional fields hold any
structured value, and `Json.null` is their absence.
-/

namespace Concordance

/-- A clause of a document. -/
structure ClauseEntry where
  id : String
  number : String
  title : String
  scope : String
  parent : Json
  refId : Json
  deriving Inhabited, BEq, Repr

/-- A numbered table. -/
structure TableEntry where
  id : String
  number : Nat
  caption : String
  scope : String
  refId : Json
  deriving Inhabited, BEq, Repr

/-- An operation: an abstract operation, a method and so on, as its kind says. -/
structure OperationEntry where
  /-- The name that the operation is known by in its namespace. -/
  aoid : String
  kind : String
  scope : String
  signature : Option Signature
  effects : List Json
  id : Json
  refId : Json
  /-- The type that a concrete method belongs to. -/
  forType : Json
  deriving Inhabited, BEq, Repr

/-- The kind of the operations that listings collect. -/
def concreteMethod : String := "concrete method"

/-- The kind of the operations that method tables declare. -/
def abstractMethod : String := "abstract method"

/-- Where links to an operation go: its id, or else what it refers to. -/
def OperationEntry.anchor (o : OperationEntry) : Json := if o.id.isSet then o.id else o.refId

/-- A table in words. -/
def TableEntry.label (t : TableEntry) : String := "Table " ++ toString t.number

/-- An entry of an index. -/
inductive Entry where
  | clause (c : ClauseEntry)
  | table (t : TableEntry)
  | operation (o : OperationEntry)
  deriving Inhabited, BEq, Repr

namespace Entry

/-- The id of an entry. -/
def id : Entry → Json
  | .clause c => .string c.id
  | .table t => .string t.id
  | .operation o => o.id

/-- The id that an entry refers to. -/
def refId : Entry → Json
  | .clause c => c.refId
  | .table t => t.refId
  | .operation o => o.refId

/-- Where links to an entry go. -/
def anchor : Entry → Json
  | .operation o => o.anchor
  | e => e.id

/-- The operation that an entry is. -/
def operation? : Entry → Option OperationEntry
  | .operation o => some o
  | _ => none

/-- The kind of an entry in stored form. -/
def typeName : Entry → String
  | .clause _ => "clause"
  | .table _ => "table"
  | .operation _ => "op"

/-- What an entry is called in messages. -/
def label : Entry → String
  | .clause c => c.title
  | .table t => t.id
  | .operation o => o.aoid

/-- A table has an id and a positive number, an operation a valid signature if any. -/
def Valid : Entry → Prop
  | .clause _ => True
  | .table t => t.id ≠ "" ∧ 1 ≤ t.number
  | .operation o => ∀ s ∈ o.signature, s.Valid

end Entry

end Concordance
