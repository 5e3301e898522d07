import Concordance.TypePhrase.Basic

/-!
# Writing type phrases

The text of a type phrase in a header. A choice is written with `or` between its alternatives, and
in parentheses where it is the element of a list, since `List of` binds tighter than `or`.
-/

namespace Concordance.TypePhrase

/-- A text in parentheses when a condition holds. -/
def parenthesized (p : Bool) (cs : List Char) : List Char :=
  if p then '(' :: cs ++ [')'] else cs

mutual
/-- The text of a type phrase. -/
def chars : TypePhrase → List Char
  | .named name => name.toList
  | .list element => "List of ".toList ++ parenthesized element.isUnion (chars element)
  | .record fields =>
    if fields.isEmpty then ['{', ' ', '}'] else '{' :: ' ' :: fieldChars fields ++ [' ', '}']
  | .union ts => alternativeChars ts

/-- Fields with commas between them. -/
def fieldChars : List (String × TypePhrase) → List Char
  | [] => []
  | (name, t) :: fields =>
    name.toList ++ ':' :: ' ' :: chars t ++
      (if fields.isEmpty then [] else ',' :: ' ' :: fieldChars fields)

/-- Alternatives with `or` between them. -/
def alternativeChars : List TypePhrase → List Char
  | [] => []
  | t :: ts => chars t ++ (if ts.isEmpty then [] else " or ".toList ++ alternativeChars ts)
end

/-- The text of a type phrase, as a string. -/
def render (t : TypePhrase) : String := String.ofList t.chars

section Equations

variable (name : String) (t : TypePhrase) (fields : List (String × TypePhrase))
  (ts : List TypePhrase)

theorem chars_named : chars (.named name) = name.toList := rfl

theorem chars_list :
    chars (.list t) = "List of ".toList ++ parenthesized t.isUnion (chars t) := rfl

theorem chars_record : chars (.record fields) =
    if fields.isEmpty then ['{', ' ', '}'] else '{' :: ' ' :: fieldChars fields ++ [' ', '}'] := rfl

theorem chars_union : chars (.union ts) = alternativeChars ts := rfl

theorem fieldChars_cons : fieldChars ((name, t) :: fields) = name.toList ++ ':' :: ' ' :: chars t ++
    (if fields.isEmpty then [] else ',' :: ' ' :: fieldChars fields) := rfl

theorem alternativeChars_cons : alternativeChars (t :: ts) =
    chars t ++ (if ts.isEmpty then [] else " or ".toList ++ alternativeChars ts) := rfl

theorem render_toList : t.render.toList = t.chars := String.toList_ofList

end Equations

end Concordance.TypePhrase
