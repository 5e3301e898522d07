import Concordance.Decimal.Layout
import Concordance.Decimal.Whole
import Concordance.Json.Basic
import Concordance.Text.Quoted

/-!
# Values shown in messages

A value in a message is shown with its texts in quotes and with `None`, `True` and `False` for
null and the truth values. A value that stands in for a text is turned into one the same way,
except that a text stays as it is.
-/

namespace Concordance.Json

mutual
/-- A value as messages show it. -/
def display : Json → List Char
  | .null => "None".toList
  | .bool b => (if b then "True" else "False").toList
  | .int n => (toString n).toList
  | .float x => Decimal.Layout.message.text x
  | .string s => Text.quoteChars s.toList
  | .array items => '[' :: displayItems items ++ [']']
  | .object members => '{' :: displayMembers members ++ ['}']

/-- Items with commas between them. -/
def displayItems : List Json → List Char
  | [] => []
  | v :: vs => display v ++ (if vs.isEmpty then [] else ',' :: ' ' :: displayItems vs)

/-- Members with commas between them. -/
def displayMembers : List (String × Json) → List Char
  | [] => []
  | (k, v) :: ms =>
    Text.quoteChars k.toList ++ ':' :: ' ' :: display v ++
      (if ms.isEmpty then [] else ',' :: ' ' :: displayMembers ms)
end

/-- A value as messages show it, as a string. -/
def shown (v : Json) : String := String.ofList v.display

/-- The text that a value stands for. -/
def asText : Json → String
  | .string s => s
  | v => v.shown

end Concordance.Json
