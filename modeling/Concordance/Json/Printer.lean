import Concordance.Decimal.Layout
import Concordance.Json.Reader
import Concordance.Text.Quoted

/-!
# Writing structured values

Two written forms: on one line without blanks, or indented by two spaces a level with every item
and member on a line of its own. The stored form has the members of every object in the order of
their keys and is refused to a value that holds a whole number of more than 64 bits or nests deeper
than `maxStoredHeight`. Characters other than controls, the quote and the backslash are written as
themselves.
-/

namespace Concordance.Json

/-- One character of a written string. -/
def printChar (c : Char) : List Char :=
  if c = '\x22' then ['\\', '\x22']
  else if c = '\\' then ['\\', '\\']
  else if c = '\x08' then ['\\', 'b']
  else if c = '\t' then ['\\', 't']
  else if c = '\n' then ['\\', 'n']
  else if c = '\x0c' then ['\\', 'f']
  else if c = '\r' then ['\\', 'r']
  else if c.toNat < 32 then '\\' :: 'u' :: Text.hex 4 c.toNat
  else [c]

/-- A written string. -/
def printString (s : String) : List Char :=
  '\x22' :: s.toList.flatMap printChar ++ ['\x22']

/-- How values are set out. -/
inductive Layout where
  | compact
  | indented

/-- The break before an item at a level: nothing, or a new line and two spaces a level. -/
def Layout.newline : Layout → Nat → List Char
  | .compact, _ => []
  | .indented, level => '\n' :: List.replicate (2 * level) ' '

/-- What stands between a key and its value. -/
def Layout.colon : Layout → List Char
  | .compact => [':']
  | .indented => [':', ' ']

mutual
/-- A value at a level of nesting. -/
def print (l : Layout) (level : Nat) : Json → List Char
  | .null => "null".toList
  | .bool b => (if b then "true" else "false").toList
  | .int n => (toString n).toList
  | .float x => Decimal.Layout.snapshot.text x
  | .string s => printString s
  | .array items =>
    if items.isEmpty then ['[', ']']
    else '[' :: printItems l (level + 1) items ++ l.newline level ++ [']']
  | .object members =>
    if members.isEmpty then ['{', '}']
    else '{' :: printMembers l (level + 1) members ++ l.newline level ++ ['}']

/-- The items of an array, each on its line, with commas between them. -/
def printItems (l : Layout) (level : Nat) : List Json → List Char
  | [] => []
  | v :: vs =>
    l.newline level ++ print l level v ++ (if vs.isEmpty then [] else ',' :: printItems l level vs)

/-- The members of an object, each on its line, with commas between them. -/
def printMembers (l : Layout) (level : Nat) : List (String × Json) → List Char
  | [] => []
  | (k, v) :: ms =>
    l.newline level ++ printString k ++ l.colon ++ print l level v ++
      (if ms.isEmpty then [] else ',' :: printMembers l level ms)
end

mutual
/-- The value with the members of every object in the order of their keys. -/
def sorted : Json → Json
  | .array items => .array (sortedItems items)
  | .object members =>
    .object ((sortedMembers members).mergeSort fun a b => decide (a.1 ≤ b.1))
  | v => v

/-- `sorted` on every item. -/
def sortedItems : List Json → List Json
  | [] => []
  | v :: vs => sorted v :: sortedItems vs

/-- `sorted` on the value of every member. -/
def sortedMembers : List (String × Json) → List (String × Json)
  | [] => []
  | (k, v) :: ms => (k, sorted v) :: sortedMembers ms
end

mutual
/-- Whether every whole number in a value has at most 64 bits. -/
def isStorable : Json → Bool
  | .int n => fitsWord n
  | .array items => areStorable items
  | .object members => haveStorable members
  | _ => true

/-- `isStorable` of every item. -/
def areStorable : List Json → Bool
  | [] => true
  | v :: vs => isStorable v && areStorable vs

/-- `isStorable` of the value of every member. -/
def haveStorable : List (String × Json) → Bool
  | [] => true
  | (_, v) :: ms => isStorable v && haveStorable ms
end

/-- How deep arrays and objects may nest in a stored value. -/
def maxStoredHeight : Nat := 254

/-- The stored form of a value; none for a value that nests too deep or has a whole number that is
too large. -/
def store? (l : Layout) (v : Json) : Option String :=
  if v.height ≤ maxStoredHeight && isStorable v then
    some (String.ofList (print l 0 (sorted v)))
  else none

/-- The value on one line, its members in their own order. -/
def toLine (v : Json) : String := String.ofList (print .compact 0 v)

end Concordance.Json
