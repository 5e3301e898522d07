import Concordance.Entry.Decode
import Concordance.Entry.Encode
import Concordance.Index.Basic
import Concordance.Json.Printer

/-!
# Snapshots

An index is stored as a snapshot with all entries in order, a table from ids to entries, and the
anchors of the operations by namespace and name. Only the entries are read back: they are inserted
into an empty index, which is then frozen.
-/

namespace Concordance

/-- An index in stored form. -/
structure Snapshot where
  entries : List Json
  /-- The stored entries by their ids. -/
  byId : List (Json × Json)
  /-- The anchors of operations by namespace and then by name. -/
  anchors : List (String × List (String × List Json))

namespace Snapshot

/-- Adds a value to the list under a key; a new key goes last. -/
def push {α : Type} : List (String × List α) → String → α → List (String × List α)
  | [], key, a => [(key, [a])]
  | (k, as) :: rest, key, a =>
    if k = key then (k, as ++ [a]) :: rest else (k, as) :: push rest key a

/-- Adds an anchor under a namespace and a name. -/
def pushAnchor : List (String × List (String × List Json)) → Name → Json →
    List (String × List (String × List Json))
  | [], (scope, aoid), a => [(scope, [(aoid, [a])])]
  | (k, names) :: rest, (scope, aoid), a =>
    if k = scope then (k, push names aoid a) :: rest
    else (k, names) :: pushAnchor rest (scope, aoid) a

/-- The snapshot of an index. -/
def ofIndex (ix : Index) : Snapshot where
  entries := ix.entries.map Entry.toJson
  byId := (ix.entries.filter (·.id.isSet)).map fun e => (e.id, e.toJson)
  anchors :=
    ((ix.entries.filterMap Entry.operation?).filter (·.anchor.isSet)).foldl
      (fun table o => pushAnchor table (o.scope, o.aoid) o.anchor) []

/-- The key that an id is written as: a text itself, a fractional number as messages have it,
another scalar by its written form. -/
def memberName : Json → String
  | .string s => s
  | .float x => String.ofList (Decimal.Layout.message.text x)
  | v => v.toLine

/-- A snapshot as one value. -/
def toJson (s : Snapshot) : Json :=
  .object
    [("entries", .array s.entries),
     ("idToEntry", .object (s.byId.map fun m => (memberName m.1, m.2))),
     ("byAoidNamespace", .object (s.anchors.map fun names =>
       (names.1, .object (names.2.map fun anchors => (anchors.1, .array anchors.2)))))]

/-- Whether all ids are texts, as the keys of a stored object must be. -/
def hasTextIds (s : Snapshot) : Bool :=
  s.byId.all fun
    | (.string _, _) => true
    | _ => false

/-- The text of a snapshot file; none where an id is no text or a number is too large. -/
def store? (s : Snapshot) : Option String :=
  if s.hasTextIds then s.toJson.store? .indented else none

/-! ## Reading -/

/-- Why a text or a value is no snapshot. -/
inductive Fault where
  /-- The text is not the written form of a value. -/
  | notWritten
  /-- The file at a path holds a value that is no object. -/
  | noObject (path : String)
  /-- The value has no members. -/
  | noMembers
  | noEntries
  | entry (m : Malformed)
  | index (f : Index.Fault)

/-- The fault in words. -/
def Fault.message : Fault → String
  | .notWritten => "the text is no written value"
  | .noObject path => path ++ ": biblio snapshot must be a JSON object"
  | .noMembers => Malformed.noObject.message
  | .noEntries => "biblio snapshot must carry an 'entries' list"
  | .entry m => m.message
  | .index f => f.message

/-- The index with one more stored entry. -/
def insertRow (ix : Index) (row : Json) : Except Fault Index := do
  let e ← (Entry.ofJson row).mapError .entry
  (ix.insert e).mapError .index

/-- The frozen index that a value stores. -/
def toIndex (v : Json) : Except Fault Index :=
  match v with
  | .object ms =>
    match Json.member? ms "entries" with
    | some (.array rows) => do
      let ix ← rows.foldlM insertRow Index.empty
      ix.freeze.mapError .index
    | _ => .error .noEntries
  | _ => .error .noMembers

/-- How deep arrays and objects may nest in the text of a file. -/
def maxLevels : Nat := 1024

/-- The frozen index that the text of a file stores. -/
def load (path text : String) : Except Fault Index :=
  match Json.parse? .word maxLevels text with
  | none => .error .notWritten
  | some (.object ms) => toIndex (.object ms)
  | some _ => .error (.noObject path)

end Snapshot

end Concordance
