import Concordance.Text.Blank

/-!
# Document trees

A document is a tree of texts and elements. An element read from a document has a key, its place in
reading order, by which it is found again after the tree around it has been rewritten; an element
made while rewriting has none until it needs one. When the contents of an element are replaced, the
old ones are no longer its children, but they are kept as its removed nodes: what was removed is not
part of the document any more and is still processed and reported on.
-/

namespace Concordance

/-- The kinds of text in a document. -/
inductive TextKind where
  | plain
  | cdata
  | comment
  | instruction
  | doctype
  /-- A marked section that is not cdata. -/
  | declaration
  /-- What stands in a script. -/
  | script
  /-- What stands in a style sheet. -/
  | styleSheet
  /-- What stands in a template. -/
  | template
  /-- What stands in a ruby text. -/
  | rubyText
  /-- What stands in a ruby parenthesis. -/
  | rubyParenthesis
  deriving DecidableEq, Repr, Inhabited

/-- An element's name, attributes and key. -/
structure Tag where
  name : String
  /-- The attributes in order, no name twice. -/
  attrs : List (String × String)
  key : Option Nat
  deriving DecidableEq, Repr, Inhabited

/-- A node of a document. -/
inductive Node where
  | text (kind : TextKind) (value : String)
  | element (tag : Tag) (children removed : List Node)
  deriving Inhabited, BEq, Repr

namespace Tag

/-- The kind of the plain texts in an element with contents of its own kind. -/
def contentKind? (t : Tag) : Option TextKind :=
  if t.name = "script" then some .script
  else if t.name = "style" then some .styleSheet
  else if t.name = "template" then some .template
  else if t.name = "rt" then some .rubyText
  else if t.name = "rp" then some .rubyParenthesis
  else none

/-- Whether a reader who looks at an element sees texts of some kind: those of the kind of its
contents, in most elements plain texts and cdata. -/
def shows (t : Tag) (kind : TextKind) : Bool :=
  match t.contentKind? with
  | some own => kind = own
  | none => kind = .plain || kind = .cdata

/-- A list of words with one space between them. -/
def joinWords (s : String) : String :=
  String.ofList ([' '].intercalate (Text.words s.toList))

/-- The attributes that are lists of words on one kind of element. -/
def wordLists : List (String × List String) :=
  [("a", ["rel", "rev"]), ("link", ["rel", "rev"]), ("td", ["headers"]), ("th", ["headers"]),
   ("form", ["accept-charset"]), ("object", ["archive"]), ("area", ["rel"]), ("icon", ["sizes"]),
   ("iframe", ["sandbox"]), ("output", ["for"])]

/-- The attributes that are lists of words on every element. -/
def commonWordLists : List String := ["class", "accesskey", "dropzone"]

/-- Whether an attribute of an element is a list of words. -/
def isWordList (element attr : String) : Bool :=
  commonWordLists.contains attr ||
    wordLists.any fun l =>
      l.1.toList = element.toList.map Char.toLower && l.2.contains attr

/-- The value under which an attribute of an element is kept. -/
def kept (element attr value : String) : String :=
  if isWordList element attr then joinWords value else value

/-- The value of an attribute. -/
def get? (t : Tag) (name : String) : Option String :=
  (t.attrs.find? fun a => a.1 == name).map (·.2)

/-- Whether there is an attribute of that name. -/
def has (t : Tag) (name : String) : Bool := (t.get? name).isSome

/-- The value of an attribute that is there and not empty. -/
def filled? (t : Tag) (name : String) : Option String := (t.get? name).filter (· ≠ "")

/-- The list of attributes with one of them set: it keeps its place or goes last. -/
def setIn : List (String × String) → String → String → List (String × String)
  | [], name, value => [(name, value)]
  | (n, v) :: rest, name, value =>
    if n = name then (n, value) :: rest else (n, v) :: setIn rest name value

/-- Sets an attribute. -/
def set (t : Tag) (name value : String) : Tag :=
  { t with attrs := setIn t.attrs name (kept t.name name value) }

/-- The tag with these attributes; of a repeated one the last value counts. -/
def make (name : String) (attrs : List (String × String)) : Tag :=
  attrs.foldl (fun t a => t.set a.1 a.2) ⟨name, [], none⟩

/-- Whether a word is in the `class` attribute. -/
def hasClass (t : Tag) (word : String) : Bool :=
  ((t.get? "class").map fun s => decide (word.toList ∈ Text.words s.toList)).getD false

end Tag

namespace Node

/-- The name of the root of a whole document, which no element has. -/
def documentName : String := "[document]"

/-- A document with its nodes. -/
def document (children : List Node) : Node := .element ⟨documentName, [], none⟩ children []

/-- A plain text. -/
def plain (value : String) : Node := .text .plain value

/-- A new element. -/
def new (name : String) (attrs : List (String × String)) (children : List Node) : Node :=
  .element (Tag.make name attrs) children []

/-- The tag of an element. -/
def tag? : Node → Option Tag
  | .element tag _ _ => some tag
  | .text _ _ => none

/-- The children of an element. -/
def children : Node → List Node
  | .element _ cs _ => cs
  | .text _ _ => []

/-- Whether the node is an element. -/
def isElement : Node → Bool
  | .element _ _ _ => true
  | .text _ _ => false

/-- Whether the node is an element of that name. -/
def isNamed (name : String) : Node → Bool
  | .element tag _ _ => tag.name = name
  | .text _ _ => false

/-- The element with other children and the same removed nodes. -/
def withChildren (cs : List Node) : Node → Node
  | .element tag _ removed => .element tag cs removed
  | n => n

/-- The element with its children replaced; the old ones join the removed nodes. -/
def replaceChildren (cs : List Node) : Node → Node
  | .element tag old removed => .element tag cs (removed ++ old)
  | n => n

/-- The element with an attribute set. -/
def setAttr (name value : String) : Node → Node
  | .element tag cs removed => .element (tag.set name value) cs removed
  | n => n

/-- The element with a node put before its children. -/
def prepend (child : Node) : Node → Node
  | .element tag cs removed => .element tag (child :: cs) removed
  | n => n

/-- The element with a node put after its children. -/
def append (child : Node) : Node → Node
  | .element tag cs removed => .element tag (cs ++ [child]) removed
  | n => n

end Node

end Concordance
