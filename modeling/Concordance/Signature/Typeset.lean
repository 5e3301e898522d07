import Concordance.Signature.Basic
import Concordance.Text.Escaped

/-!
# Typeset signatures

A signature as markup: the header, in which every parameter is a variable, and the pieces of the
sentence that describes the operation. Names and types are escaped, so the only elements are the
variables.
-/

namespace Concordance

/-- A parameter's name as a variable. -/
def Parameter.variable (p : Parameter) : List Char :=
  "<var>".toList ++ Text.escape p.name.toList ++ "</var>".toList

/-- The word before an optional parameter. -/
def Parameter.lead (p : Parameter) : List Char :=
  if p.optional then "optional ".toList else []

/-- A parameter in a typeset header, its type after a colon. -/
def Parameter.typeset (p : Parameter) : List Char :=
  p.lead ++ p.variable ++ Text.escape (typeSuffix p.type)

/-- A parameter in a sentence, its type in parentheses. -/
def Parameter.described (p : Parameter) : List Char :=
  p.lead ++ p.variable ++
    match p.type with
    | none => []
    | some t => ' ' :: '(' :: Text.escape t.chars ++ [')']

/-- A typeset header and the pieces of a sentence about the operation. -/
structure Typeset where
  name : List Char
  header : List Char
  params : List Char
  returns : List Char
  deriving DecidableEq, Repr

/-- Parameters in a sentence: none, one, two, or a list with a comma before the last. -/
def describeParams (ps : List Parameter) : List Char :=
  match ps.map Parameter.described with
  | [] => "no arguments".toList
  | [a] => "argument ".toList ++ a
  | [a, b] => "arguments ".toList ++ a ++ " and ".toList ++ b
  | ds =>
    "arguments ".toList ++ [',', ' '].intercalate ds.dropLast ++ ", and ".toList ++
      ds.getLastD []

/-- A signature as markup. -/
def Signature.typeset (s : Signature) : Typeset where
  name := Text.escape s.name.toList
  header :=
    Text.escape s.name.toList ++ '(' :: [',', ' '].intercalate (s.params.map Parameter.typeset) ++
      ')' :: Text.escape (typeSuffix s.returns)
  params := describeParams s.params
  returns :=
    match s.returns with
    | none => "unknown".toList
    | some t => Text.escape t.chars

end Concordance
