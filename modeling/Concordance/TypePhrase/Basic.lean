import Concordance.Text.Blank
import Concordance.Text.Quoted

/-!
# Type phrases

A type in an operation header is a phrase of words, a list of some type, a record with named
fields, or a choice between types. A choice is kept flat: `TypePhrase.either` joins the
alternatives of its parts, and a single alternative stands for itself. `TypePhrase.Valid` is what
the checked constructors ensure at every level.
-/

namespace Concordance

/-- A type phrase. -/
inductive TypePhrase where
  /-- A phrase of words, taken as it stands. -/
  | named (name : String)
  /-- A list with elements of a type. -/
  | list (element : TypePhrase)
  /-- A record with its fields in order. -/
  | record (fields : List (String × TypePhrase))
  /-- A choice between alternatives. -/
  | union (alternatives : List TypePhrase)
  deriving Inhabited, BEq, Repr

namespace TypePhrase

/-- What makes a type phrase invalid. -/
inductive Defect where
  | blankName
  | repeatedField (names : List String)
  | tooFewAlternatives
  | nestedUnion
  deriving DecidableEq, Repr

/-- The defect in words. -/
def Defect.message : Defect → String
  | .blankName => "NamedType.name cannot be empty"
  | .repeatedField names => "duplicate record field in " ++ Text.quoteList names
  | .tooFewAlternatives => "UnionType needs at least two alternatives"
  | .nestedUnion => "UnionType alternatives must be flattened"

/-- Whether the phrase is a choice. -/
def isUnion : TypePhrase → Bool
  | .union _ => true
  | _ => false

/-! ## Equality -/

mutual
/-- Whether two phrases are the same. -/
def decEq : (t u : TypePhrase) → Decidable (t = u)
  | .named name, .named name' => decidable_of_iff (name = name') (by rw [named.injEq])
  | .list t, .list u =>
    letI := decEq t u
    decidable_of_iff (t = u) (by rw [list.injEq])
  | .record fields, .record fields' =>
    letI := decEqFields fields fields'
    decidable_of_iff (fields = fields') (by rw [record.injEq])
  | .union ts, .union us =>
    letI := decEqAll ts us
    decidable_of_iff (ts = us) (by rw [union.injEq])
  | .named _, .list _ | .named _, .record _ | .named _, .union _ => .isFalse nofun
  | .list _, .named _ | .list _, .record _ | .list _, .union _ => .isFalse nofun
  | .record _, .named _ | .record _, .list _ | .record _, .union _ => .isFalse nofun
  | .union _, .named _ | .union _, .list _ | .union _, .record _ => .isFalse nofun

/-- Whether two lists of fields are the same. -/
def decEqFields : (fields fields' : List (String × TypePhrase)) → Decidable (fields = fields')
  | [], [] => .isTrue rfl
  | (name, t) :: fields, (name', t') :: fields' =>
    letI := decEq t t'
    letI := decEqFields fields fields'
    decidable_of_iff ((name = name' ∧ t = t') ∧ fields = fields')
      (by rw [List.cons.injEq, Prod.mk.injEq])
  | [], _ :: _ => .isFalse nofun
  | _ :: _, [] => .isFalse nofun

/-- Whether two lists of phrases are the same. -/
def decEqAll : (ts us : List TypePhrase) → Decidable (ts = us)
  | [], [] => .isTrue rfl
  | t :: ts, u :: us =>
    letI := decEq t u
    letI := decEqAll ts us
    decidable_of_iff (t = u ∧ ts = us) (by rw [List.cons.injEq])
  | [], _ :: _ => .isFalse nofun
  | _ :: _, [] => .isFalse nofun
end

instance : DecidableEq TypePhrase := decEq

/-! ## Checked constructors -/

/-- A phrase of words that is not blank. -/
def named? (name : String) : Except Defect TypePhrase :=
  if Text.allBlank name.toList then .error .blankName else .ok (.named name)

/-- A record in which no field name is repeated. -/
def record? (fields : List (String × TypePhrase)) : Except Defect TypePhrase :=
  if (fields.map (·.1)).Nodup then .ok (.record fields)
  else .error (.repeatedField (fields.map (·.1)))

/-- A choice between two or more alternatives, none of them a choice itself. -/
def union? (alternatives : List TypePhrase) : Except Defect TypePhrase :=
  if alternatives.length < 2 then .error .tooFewAlternatives
  else if alternatives.any isUnion then .error .nestedUnion
  else .ok (.union alternatives)

/-! ## Choices -/

/-- The alternatives of a choice; any other phrase is its own single alternative. -/
def alternatives : TypePhrase → List TypePhrase
  | .union ts => ts
  | t => [t]

/-- The phrase with the given alternatives, one alternative standing for itself. -/
def ofAlternatives : List TypePhrase → TypePhrase
  | [t] => t
  | ts => .union ts

/-- The choice between a type and others, flattened. -/
def either (t : TypePhrase) (ts : List TypePhrase) : TypePhrase :=
  ofAlternatives ((t :: ts).flatMap alternatives)

/-- The choice between types, flattened; there is none between no types. -/
def either? : List TypePhrase → Except Defect TypePhrase
  | [] => .error .tooFewAlternatives
  | t :: ts => .ok (either t ts)

/-! ## Validity -/

mutual
/-- Every part passes the check of its constructor. -/
def Valid : TypePhrase → Prop
  | .named name => Text.allBlank name.toList = false
  | .list element => element.Valid
  | .record fields => (fields.map (·.1)).Nodup ∧ ValidFields fields
  | .union ts => 2 ≤ ts.length ∧ ts.any isUnion = false ∧ ValidAll ts

/-- Every field has a valid type. -/
def ValidFields : List (String × TypePhrase) → Prop
  | [] => True
  | (_, t) :: fields => t.Valid ∧ ValidFields fields

/-- Every phrase is valid. -/
def ValidAll : List TypePhrase → Prop
  | [] => True
  | t :: ts => t.Valid ∧ ValidAll ts
end

end TypePhrase

end Concordance
