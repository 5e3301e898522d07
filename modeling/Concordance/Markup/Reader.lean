import Concordance.Markup.Piece

/-!
# Reading markup

The pieces of markup are put together with a stack of open elements. Elements end only where they
are closed; an end tag closes everything opened inside its element, and one that closes nothing is
passed over. Elements without contents end at once; an end tag for one of these that comes later is
passed over too, once for each. A start tag that ends its element closes that element alone, and
does so even where an end tag of the same name is still to be passed over.

Neighbouring texts are one text. A text or a comment of ASCII blanks alone becomes a line feed or a
single space, except where blanks are kept. A text inside an element with contents of its own kind,
such as a script, is of that kind.
-/

namespace Concordance.Markup

/-- The elements that have no contents and no end tag. -/
def voidNames : List String :=
  ["area", "base", "br", "col", "embed", "hr", "img", "input", "keygen", "link", "menuitem", "meta",
   "param", "source", "track", "wbr", "basefont", "bgsound", "command", "frame", "image", "isindex",
   "nextid", "spacer"]

/-- The elements in which blanks are kept. -/
def blankKeeping : List String := ["pre", "textarea"]

/-- An open element with the nodes in it so far, last first. -/
structure Open where
  tag : Tag
  nodes : List Node

/-- A tree that is being put together. -/
structure Growth where
  /-- The open elements, innermost first. -/
  opened : List Open
  /-- The nodes outside of all elements, last first. -/
  outside : List Node
  /-- The texts since the last node, last first. -/
  pending : List (List Char)
  /-- The elements without contents whose end tags are to be passed over. -/
  ended : List String

namespace Growth

/-- The tree before the first piece. -/
def start : Growth := ⟨[], [], [], []⟩

/-- Adds a node to the innermost open element. -/
def push (g : Growth) (n : Node) : Growth :=
  match g.opened with
  | [] => { g with outside := n :: g.outside }
  | o :: rest => { g with opened := { o with nodes := n :: o.nodes } :: rest }

/-- Whether blanks are kept here. -/
def keepsBlanks (g : Growth) : Bool := g.opened.any fun o => blankKeeping.contains o.tag.name

/-- The kind of plain texts here. -/
def kindHere (g : Growth) : TextKind :=
  (g.opened.findSome? fun o => o.tag.contentKind?).getD .plain

/-- The blanks of ASCII that can become one. -/
def isSpace (c : Char) : Bool := c = ' ' || c = '\t' || c = '\n' || c = '\x0c' || c = '\r'

/-- A text with blanks alone as one character. -/
def collapse (cs : List Char) : List Char :=
  if cs.all isSpace then (if '\n' ∈ cs then ['\n'] else [' ']) else cs

/-- Makes a node of the pending texts, if there are any. -/
def settle (g : Growth) (kind : TextKind) : Growth :=
  match g.pending with
  | [] => g
  | texts =>
    let cs := texts.reverse.flatten
    let cs := if g.keepsBlanks then cs else collapse cs
    let kind := if kind = .plain then g.kindHere else kind
    { g with pending := [] }.push (.text kind (String.ofList cs))

/-- Closes the innermost open element. -/
def close (g : Growth) : Growth :=
  match g.opened with
  | [] => g
  | o :: rest => { g with opened := rest }.push (.element o.tag o.nodes.reverse [])

/-- Closes so many open elements. -/
def closeMany : Nat → Growth → Growth
  | 0, g => g
  | n + 1, g => closeMany n g.close

/-- Closes the innermost open element of a name and everything in it. -/
def closeNamed (g : Growth) (name : String) : Growth :=
  match g.opened.findIdx? (·.tag.name = name) with
  | some i => closeMany (i + 1) g
  | none => g

/-- The tree after an end tag. -/
def endTag (g : Growth) (name : String) : Growth :=
  if g.ended.contains name then { g with ended := g.ended.erase name }
  else (g.settle .plain).closeNamed name

/-- The tree after a start tag. -/
def startTag (g : Growth) (name : String) (attrs : List (String × String)) (closed : Bool) :
    Growth :=
  let g := g.settle .plain
  let g := { g with opened := ⟨Tag.make name attrs, []⟩ :: g.opened }
  if closed then g.close
  else if voidNames.contains name then { g.close with ended := name :: g.ended }
  else g

/-- The tree after a piece. -/
def add (g : Growth) : Piece → Growth
  | .text cs => { g with pending := cs :: g.pending }
  | .other kind cs => { g.settle .plain with pending := [cs] }.settle kind
  | .opening name attrs closed => g.startTag name attrs closed
  | .closing name => g.endTag name

/-- The nodes of the tree, all elements closed. -/
def finish (g : Growth) : List Node :=
  let g := g.settle .plain
  (closeMany g.opened.length g).outside.reverse

end Growth

/-- A reader of markup. -/
abbrev Reader := List Char → Except Refusal (List Node)

/-- The nodes that markup writes, if it is not refused. -/
def parse? : Reader := fun markup =>
  (pieces markup).map fun ps => (ps.foldl Growth.add .start).finish

/-- The nodes that markup writes; none where it is refused. -/
def parse (markup : List Char) : List Node := (parse? markup).toOption.getD []

-- the second element ends with its own tag, the end tag of the first one being still awaited
example : parse "<br>a<br/>b".toList =
    [.new "br" [] [], .plain "a", .new "br" [] [], .plain "b"] := rfl

end Concordance.Markup

namespace Concordance.Node

/-- The element with the contents that markup writes. -/
def replaceContents (markup : List Char) (n : Node) : Node :=
  n.replaceChildren (Markup.parse markup)

end Concordance.Node
