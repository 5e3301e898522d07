import Concordance.TypePhrase.Printer

/-!
# Signatures

The signature of an operation: its name, its parameters in order, and the type of its result where
one is given. The text of a signature is the header that declares it.
-/

namespace Concordance

/-- A parameter of an operation. -/
structure Parameter where
  name : String
  type : Option TypePhrase
  optional : Bool
  deriving Inhabited, BEq, DecidableEq, Repr

/-- The signature of an operation. -/
structure Signature where
  name : String
  params : List Parameter
  returns : Option TypePhrase
  deriving Inhabited, BEq, DecidableEq, Repr

namespace Signature

/-- What keeps a signature from being made. -/
inductive Defect where
  | emptyName
  deriving DecidableEq, Repr

/-- The defect in words. -/
def Defect.message : Defect → String
  | .emptyName => "Signature.name cannot be empty"

/-- A signature whose name is not empty. -/
def make? (name : String) (params : List Parameter) (returns : Option TypePhrase) :
    Except Defect Signature :=
  if name = "" then .error .emptyName else .ok ⟨name, params, returns⟩

/-- A signature has a name, and its types are valid. -/
def Valid (s : Signature) : Prop :=
  s.name ≠ "" ∧ (∀ p ∈ s.params, ∀ t ∈ p.type, t.Valid) ∧ ∀ t ∈ s.returns, t.Valid

end Signature

/-! ## Text -/

/-- A type after a colon, where there is one. -/
def typeSuffix : Option TypePhrase → List Char
  | none => []
  | some t => ':' :: ' ' :: t.chars

/-- The text of a parameter. -/
def Parameter.chars (p : Parameter) : List Char :=
  (if p.optional then "optional ".toList else []) ++ p.name.toList ++ typeSuffix p.type

/-- The text of a signature. -/
def Signature.chars (s : Signature) : List Char :=
  s.name.toList ++ '(' :: [',', ' '].intercalate (s.params.map Parameter.chars) ++
    ')' :: typeSuffix s.returns

/-- The text of a signature, as a string. -/
def Signature.render (s : Signature) : String := String.ofList s.chars

end Concordance
