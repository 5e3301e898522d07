import Concordance.Decimal.Binary

/-!
# Structured values

The values of the snapshot format. Whole numbers are unbounded and are kept apart from fractional
numbers, and an object is a list of members in the order they were written, no key twice.
`Key` is what two values have in common when an index takes them for the same id.
-/

namespace Concordance

/-- A structured value. -/
inductive Json where
  | null
  | bool (b : Bool)
  | int (n : Int)
  | float (x : Decimal.Binary)
  | string (s : String)
  | array (items : List Json)
  | object (members : List (String × Json))
  deriving Inhabited, BEq, Repr

namespace Json

/-- The member of that name in a list of members. -/
def member? (members : List (String × Json)) (key : String) : Option Json :=
  (members.find? fun m => m.1 == key).map (·.2)

/-- Sets a member: an existing key keeps its place, a new one goes last. -/
def setMember : List (String × Json) → String → Json → List (String × Json)
  | [], key, v => [(key, v)]
  | (k, w) :: ms, key, v => if k = key then (k, v) :: ms else (k, w) :: setMember ms key v

/-- The object with these members; of a repeated key the last value counts. -/
def ofMembers (members : List (String × Json)) : Json :=
  .object (members.foldl (fun ms m => setMember ms m.1 m.2) [])

/-- Whether a value says something: null, false, zero and everything empty do not. -/
def isSet : Json → Bool
  | .null => false
  | .bool b => b
  | .int n => n ≠ 0
  | .float x => !x.isZero
  | .string s => s ≠ ""
  | .array items => !items.isEmpty
  | .object members => !members.isEmpty

mutual
/-- How deep arrays and objects nest in a value. -/
def height : Json → Nat
  | .array vs => heightAll vs + 1
  | .object ms => heightMembers ms + 1
  | _ => 0

/-- The greatest height of the items. -/
def heightAll : List Json → Nat
  | [] => 0
  | v :: vs => max (height v) (heightAll vs)

/-- The greatest height of the members. -/
def heightMembers : List (String × Json) → Nat
  | [] => 0
  | (_, v) :: ms => max (height v) (heightMembers ms)
end

/-- Whether a value is a text. -/
def isText : Json → Bool
  | .string _ => true
  | _ => false

/-- Whether a value is nothing. -/
def isNull : Json → Bool
  | .null => true
  | _ => false

/-- The value of an optional text. -/
def ofOption : Option String → Json
  | none => .null
  | some s => .string s

/-- What a scalar is compared by: numbers by their value, the truth values as one and zero. -/
inductive Key where
  | nothing
  | text (s : String)
  | whole (n : Int)
  | fraction (x : Decimal.Binary)
  deriving DecidableEq, Repr

deriving instance Hashable for Decimal.Binary
deriving instance Hashable for Key

/-- The key of a scalar; an array or an object has none. -/
def key? : Json → Option Key
  | .null => some .nothing
  | .bool b => some (.whole (if b then 1 else 0))
  | .int n => some (.whole n)
  | .float x => some (if x.isWhole then .whole x.truncate else .fraction x)
  | .string s => some (.text s)
  | .array _ => none
  | .object _ => none

end Json

end Concordance
