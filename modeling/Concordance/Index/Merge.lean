import Concordance.Index.Basic

/-!
# Merging indices

An index and an external one are merged into a new frozen index, the entries of the first before
those of the second; so the first wins every look-up by name, and its concrete methods are listed
first. Under the strict policy no id may be in both. Under the other one an external entry whose id
is taken is left out. Several external indices are combined strictly before that.
-/

namespace Concordance

/-- What becomes of an id that is in both indices. -/
inductive MergePolicy where
  /-- It is an error. -/
  | strict
  /-- The external entry is left out. -/
  | localWins
  deriving DecidableEq, Repr, Inhabited

namespace MergePolicy

/-- The policy with a name. -/
def ofName? (name : Json) : Option MergePolicy :=
  match name with
  | .string "strict" => some .strict
  | .string "local-wins" => some .localWins
  | _ => none

/-- What is said of a name that no policy has. -/
def unknownMessage (name : Json) : String := "unknown merge policy " ++ name.shown

end MergePolicy

namespace Index

/-- Whether an entry's id is taken in an index. -/
def isTaken (ix : Index) (e : Entry) : Bool := e.id.isSet && (ix.find? e.id).isSome

/-- The index with an external entry, or without it where the policy says so. -/
def mergeEntry (policy : MergePolicy) (ix : Index) (e : Entry) : Except Fault Index :=
  if ix.isTaken e then
    match policy with
    | .localWins => .ok ix
    | .strict => .error (.duplicateId e.id)
  else ix.insert e

/-- A frozen index with the entries of one index and then those of an external one. -/
def merge (ix external : Index) (policy : MergePolicy) : Except Fault Index := do
  let base ← empty.insertAll ix.entries
  let merged ← external.entries.foldlM (mergeEntry policy) base
  merged.freeze

/-- A frozen index with the entries of all indices, no id of them twice. -/
def combine (ixs : List Index) : Except Fault Index := do
  (← empty.insertAll (ixs.flatMap entries)).freeze

end Index

end Concordance
