import Std.Data.HashMap
import Concordance.Entry.Basic

/-!
# The index

An index holds entries in the order they were added, with three views over them: the entry with an
id, the first operation with a name in a namespace, and the concrete methods with a name in a
namespace, in order. `Index.insert` is the one way in and keeps the views in step with the list. An
index is built by its owner with `add` and then frozen; freezing succeeds when every reference
leads to an entry of the index, and a frozen index takes no more entries.
-/

namespace Concordance

/-- A namespace and a name in it. -/
abbrev Name := String × String

/-- Entries with three views over them. -/
structure Index where
  /-- The entries in the order they were added. -/
  entries : List Entry
  /-- The entry with an id. -/
  byKey : Std.HashMap Json.Key Entry
  /-- The first operation with a name. -/
  firsts : Std.HashMap Name OperationEntry
  /-- The concrete methods with a name, in order. -/
  concretes : Std.HashMap Name (List OperationEntry)
  /-- Whether the index takes no more entries. -/
  frozen : Bool
  deriving Inhabited

namespace Index

/-- What an index refuses. -/
inductive Fault where
  | duplicateId (id : Json)
  /-- An entry has neither an id nor a reference. -/
  | unreachable (e : Entry)
  | missingId (id : Json)
  | frozen
  /-- References to ids that are not in the index, in order. -/
  | dangling (ids : List String)
  /-- An id or a reference is no scalar, or a dangling one no text. -/
  | unusableId

/-- The fault in words. -/
def Fault.message : Fault → String
  | .duplicateId id => "duplicate biblio entry id " ++ id.shown
  | .unreachable e =>
    e.typeName ++ " entry " ++ Text.quote e.label ++ " has neither id nor refId"
  | .missingId id => "no biblio entry with id " ++ id.shown
  | .frozen => "cannot add entries to a frozen biblio index"
  | .dangling ids =>
    "refId does not resolve to an entry with an id: " ++ ", ".intercalate ids
  | .unusableId => "an id is a text or a number"

/-- The index without entries. -/
def empty : Index := ⟨[], ∅, ∅, ∅, false⟩

/-- The number of entries. -/
def size (ix : Index) : Nat := ix.entries.length

/-! ## Looking up -/

/-- The entry with an id. -/
def find? (ix : Index) (id : Json) : Option Entry := id.key?.bind fun k => ix.byKey[k]?

/-- The entry with an id, if the value can be an id at all. -/
def lookup (ix : Index) (id : Json) : Except Fault (Option Entry) :=
  match id.key? with
  | some k => .ok ix.byKey[k]?
  | none => .error .unusableId

/-- The entry with an id, which has to be there. -/
def require (ix : Index) (id : Json) : Except Fault Entry := do
  match ← ix.lookup id with
  | some e => return e
  | none => .error (.missingId id)

/-- The first operation with a name in a namespace. -/
def operation? (ix : Index) (scope aoid : String) : Option OperationEntry :=
  ix.firsts[(scope, aoid)]?

/-- The concrete methods with a name in a namespace, in the order they were added. -/
def concreteMethods (ix : Index) (scope aoid : String) : List OperationEntry :=
  ix.concretes.getD (scope, aoid) []

/-! ## Adding -/

/-- The id views with one more entry; an id that is not set is in no view. -/
def withKey (ix : Index) (e : Entry) : Except Fault (Std.HashMap Json.Key Entry) :=
  if e.id.isSet then
    match e.id.key? with
    | none => .error .unusableId
    | some k => if k ∈ ix.byKey then .error (.duplicateId e.id) else .ok (ix.byKey.insert k e)
  else .ok ix.byKey

/-- The view of first operations with one more entry. -/
def withFirst (firsts : Std.HashMap Name OperationEntry) (e : Entry) :
    Std.HashMap Name OperationEntry :=
  match e with
  | .operation o => firsts.insertIfNew (o.scope, o.aoid) o
  | _ => firsts

/-- The view of concrete methods with one more entry. -/
def withConcrete (concretes : Std.HashMap Name (List OperationEntry)) (e : Entry) :
    Std.HashMap Name (List OperationEntry) :=
  match e with
  | .operation o =>
    if o.kind = concreteMethod then
      concretes.insert (o.scope, o.aoid) (concretes.getD (o.scope, o.aoid) [] ++ [o])
    else concretes
  | _ => concretes

/-- The index with one more entry, frozen or not. -/
def insert (ix : Index) (e : Entry) : Except Fault Index :=
  if !e.id.isSet && !e.refId.isSet then .error (.unreachable e)
  else do
    let byKey ← ix.withKey e
    return { entries := ix.entries ++ [e], byKey, firsts := withFirst ix.firsts e
             concretes := withConcrete ix.concretes e, frozen := ix.frozen }

/-- The index with one more entry, unless it is frozen. -/
def add (ix : Index) (e : Entry) : Except Fault Index :=
  if ix.frozen then .error .frozen else ix.insert e

/-- The index with more entries, in order. -/
def insertAll (ix : Index) (es : List Entry) : Except Fault Index := es.foldlM insert ix

/-! ## Freezing -/

/-- Whether a reference leads to no entry of the index; a reference that is not set leads
nowhere and is not dangling. -/
def isDangling (ix : Index) (refId : Json) : Bool := refId.isSet && (ix.find? refId).isNone

/-- The references of the entries that lead to no entry of the index. -/
def danglingRefs (ix : Index) : List Json := (ix.entries.map Entry.refId).filter ix.isDangling

/-- The texts among values, if all of them are texts. -/
def texts? (vs : List Json) : Option (List String) :=
  vs.mapM fun
    | .string s => some s
    | _ => none

/-- Texts in order, each once. -/
def sortedTexts (ss : List String) : List String :=
  (ss.mergeSort fun a b => decide (a ≤ b)).eraseDups

/-- The index, taking no more entries; refused while references dangle. -/
def freeze (ix : Index) : Except Fault Index :=
  match ix.danglingRefs with
  | [] => .ok { ix with frozen := true }
  | refs =>
    match texts? refs with
    | some ids => .error (.dangling (sortedTexts ids))
    | none => .error .unusableId

end Index

end Concordance
