import Concordance.Decimal.Whole
import Concordance.Entry.Basic

/-!
# Entries from stored form

Stored entries may come from other tools, so the reader is lenient where a value can stand for what
is wanted: any value stands for a text, a number or a numeric text for a number, a text or an object
for the list of its characters or keys. Fields are read in a fixed order and the first that cannot
be read decides the fault. `Malformed` has a cause for each way in which reading fails.
-/

namespace Concordance

/-- Why a value is not the stored form of a type, a signature or an entry. -/
inductive Malformed where
  /-- A member that is needed is not there. -/
  | missing (key : String)
  /-- A value that should have members is no object. -/
  | noObject
  /-- A value has no items, or is no number, where these are needed. -/
  | wrongKind
  | type (d : TypePhrase.Defect)
  | signature (d : Signature.Defect)
  | unknownTypeKind (v : Json)
  | unknownEntryType (v : Json)
  | noInteger (text : String)
  /-- A whole number is written with more digits than are read. -/
  | tooManyDigits (n : Nat)
  | pairTooShort (length : Nat)
  | pairTooLong
  | tableWithoutId
  | tableNumber (n : Int)

/-- How much of a quoted text that is no number is shown. -/
def maxQuoted : Nat := 200

/-- The fault in words. -/
def Malformed.message : Malformed → String
  | .missing key => Text.quote key
  | .noObject => "a value with members is expected"
  | .wrongKind => "a value of another kind is expected"
  | .type d => d.message
  | .signature d => d.message
  | .unknownTypeKind v => "unknown type kind " ++ v.shown
  | .unknownEntryType v => "unknown biblio entry type " ++ v.shown
  | .noInteger text =>
    "invalid literal for int() with base 10: " ++
      String.ofList ((Text.quoteChars text.toList).take maxQuoted)
  | .tooManyDigits n => Decimal.excessMessage n
  | .pairTooShort n => "not enough values to unpack (expected 2, got " ++ toString n ++ ")"
  | .pairTooLong => "too many values to unpack (expected 2)"
  | .tableWithoutId => "table entry requires an id"
  | .tableNumber n => "table number must be >= 1, got " ++ toString n

namespace Json

/-- The members of an object. -/
def members : Json → Except Malformed (List (String × Json))
  | .object ms => .ok ms
  | _ => .error .noObject

/-- A member that may be missing. -/
def optional (ms : List (String × Json)) (key : String) : Json := (member? ms key).getD .null

/-- A member that has to be there. -/
def required (ms : List (String × Json)) (key : String) : Except Malformed Json :=
  match member? ms key with
  | some v => .ok v
  | none => .error (.missing key)

/-- The items of an array, the characters of a text or the keys of an object. -/
def items : Json → Except Malformed (List Json)
  | .array vs => .ok vs
  | .string s => .ok (s.toList.map fun c => .string (String.ofList [c]))
  | .object ms => .ok (ms.map fun m => .string m.1)
  | _ => .error .wrongKind

/-- The two items of a pair. -/
def pair (v : Json) : Except Malformed (Json × Json) := do
  match ← v.items with
  | [a, b] => return (a, b)
  | [] => .error (.pairTooShort 0)
  | [_] => .error (.pairTooShort 1)
  | _ => .error .pairTooLong

/-- The whole number that a value stands for. -/
def integer : Json → Except Malformed Int
  | .int n => .ok n
  | .bool b => .ok (if b then 1 else 0)
  | .float x => .ok x.truncate
  | .string s =>
    match Decimal.excess? s.toList, Decimal.whole? s.toList with
    | some n, _ => .error (.tooManyDigits n)
    | none, some n => .ok n
    | none, none => .error (.noInteger s)
  | _ => .error .wrongKind

end Json

/-! ## Types -/

/-- The type in stored form that a value nesting at most so deep is. -/
def TypePhrase.read : Nat → Json → Except Malformed TypePhrase
  | 0, _ => .error .noObject
  | bound + 1, v => do
    let ms ← v.members
    match Json.optional ms "kind" with
    | .string "named" =>
      let name ← Json.required ms "name"
      (TypePhrase.named? name.asText).mapError .type
    | .string "list" => return .list (← TypePhrase.read bound (← Json.required ms "element"))
    | .string "record" =>
      let fields ← (← (← Json.required ms "fields").items).mapM fun field => do
        let (name, t) ← field.pair
        return (name.asText, ← TypePhrase.read bound t)
      (TypePhrase.record? fields).mapError .type
    | .string "union" =>
      let ts ← (← (← Json.required ms "alternatives").items).mapM (TypePhrase.read bound)
      (TypePhrase.union? ts).mapError .type
    | kind => .error (.unknownTypeKind kind)

/-- The type that a stored value is. -/
def TypePhrase.ofJson (v : Json) : Except Malformed TypePhrase := TypePhrase.read v.height v

/-- The type that a stored value is, null standing for none. -/
def TypePhrase.ofOptional (v : Json) : Except Malformed (Option TypePhrase) :=
  if v.isNull then .ok none else (TypePhrase.ofJson v).map some

/-! ## Signatures -/

/-- The parameter that a stored value is. -/
def Parameter.ofJson (v : Json) : Except Malformed Parameter :=
  match v with
  | .object ms => do
    let name ← Json.required ms "name"
    let type ← TypePhrase.ofOptional (Json.optional ms "type")
    return ⟨name.asText, type, (Json.optional ms "optional").isSet⟩
  | _ => .error .wrongKind

/-- The signature that a stored value is. -/
def Signature.ofJson (v : Json) : Except Malformed Signature := do
  let ms ← v.members
  let params ← (← ((Json.member? ms "params").getD (.array [])).items).mapM Parameter.ofJson
  let name ← Json.required ms "name"
  let returns ← TypePhrase.ofOptional (Json.optional ms "return")
  (Signature.make? name.asText params returns).mapError .signature

/-- The signature that a stored value is, null standing for none. -/
def Signature.ofOptional (v : Json) : Except Malformed (Option Signature) :=
  if v.isNull then .ok none else (Signature.ofJson v).map some

/-! ## Entries -/

/-- A table with an id and a positive number. -/
def TableEntry.make? (id : String) (number : Int) (caption scope : String) (refId : Json) :
    Except Malformed TableEntry :=
  if id = "" then .error .tableWithoutId
  else if number < 1 then .error (.tableNumber number)
  else .ok ⟨id, number.toNat, caption, scope, refId⟩

namespace Entry

/-- A member that is an empty text when it is missing. -/
def textOr (ms : List (String × Json)) (key : String) : String :=
  ((Json.member? ms key).getD (.string "")).asText

/-- The clause with these members. -/
def readClause (ms : List (String × Json)) : Except Malformed Entry := do
  let id ← Json.required ms "id"
  let scope ← Json.required ms "namespace"
  return .clause
    { id := id.asText, number := textOr ms "number", title := textOr ms "title"
      scope := scope.asText, parent := Json.optional ms "parent"
      refId := Json.optional ms "refId" }

/-- The table with these members. -/
def readTable (ms : List (String × Json)) : Except Malformed Entry := do
  let id ← Json.required ms "id"
  let number ← (← Json.required ms "number").integer
  let scope ← Json.required ms "namespace"
  return .table (← TableEntry.make? id.asText number (textOr ms "caption") scope.asText
    (Json.optional ms "refId"))

/-- The operation with these members. -/
def readOperation (ms : List (String × Json)) : Except Malformed Entry := do
  let aoid ← Json.required ms "aoid"
  let kind ← Json.required ms "kind"
  let scope ← Json.required ms "namespace"
  let signature ← Signature.ofOptional (Json.optional ms "signature")
  let effects ← ((Json.member? ms "effects").getD (.array [])).items
  return .operation
    { aoid := aoid.asText, kind := kind.asText, scope := scope.asText, signature, effects
      id := Json.optional ms "id", refId := Json.optional ms "refId"
      forType := Json.optional ms "for" }

/-- The entry that a stored value is. -/
def ofJson (v : Json) : Except Malformed Entry := do
  let ms ← v.members
  match Json.optional ms "type" with
  | .string "clause" => readClause ms
  | .string "table" => readTable ms
  | .string "op" => readOperation ms
  | type => .error (.unknownEntryType type)

end Entry

end Concordance
