import Concordance.Text.Quoted

/-!
# Headers

What a header says before its types are read: the name of the operation, and the parameters and the
result with the text of their types. Every piece of text comes with the offset at which it stands
in the header, so that a fault in it can be placed. A header that cannot be read has a list of
faults, each with its own offset.
-/

namespace Concordance

namespace Header

/-- A parameter as it is written. -/
structure RawParameter where
  name : List Char
  optional : Bool
  /-- The text of the type, blanks at its ends taken off. -/
  type : Option (List Char)
  /-- Where the type starts; where the parameter starts, if it has no type. -/
  typeOffset : Nat
  /-- Where the name starts. -/
  offset : Nat
  deriving DecidableEq, Repr, Inhabited

/-- What is wrong with a header. -/
inductive Defect where
  | noParameterList
  | noName
  | malformedName (name : List Char)
  | unclosedList
  | emptyParameter
  | malformedParameter (text : List Char)
  | noParameterType
  | repeatedParameter (name : List Char)
  | noReturnType
  | trailingText (text : List Char)
  deriving DecidableEq, Repr

/-- A text in quotes, as a string. -/
def quoted (cs : List Char) : String := String.ofList (Text.quoteChars cs)

/-- The defect in words. -/
def Defect.message : Defect → String
  | .noParameterList => "expected '(' after operation name"
  | .noName => "missing operation name"
  | .malformedName name => "malformed operation name " ++ quoted name
  | .unclosedList => "unbalanced parameter list: missing ')'"
  | .emptyParameter => "empty parameter"
  | .malformedParameter text => "malformed parameter " ++ quoted text
  | .noParameterType => "missing type after ':'"
  | .repeatedParameter name => "duplicate parameter name " ++ quoted name
  | .noReturnType => "missing return type after ':'"
  | .trailingText text => "unexpected text after parameter list: " ++ quoted text

/-- A defect at an offset of the header. -/
structure Fault where
  defect : Defect
  offset : Nat
  deriving DecidableEq, Repr

end Header

/-- A header whose types have not been read. -/
structure Header where
  name : List Char
  params : List Header.RawParameter
  /-- The text of the type of the result, blanks at its ends taken off. -/
  returns : Option (List Char)
  /-- Where the type of the result starts; just after the parameter list, if there is none. -/
  returnOffset : Nat
  deriving DecidableEq, Repr, Inhabited

end Concordance
