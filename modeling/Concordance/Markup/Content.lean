import Concordance.Markup.Node

/-!
# The text of nodes

Three readings of the text below a node. Its plain text is what a reader sees: plain texts and
cdata, or in a script and the like the texts of that kind. The text of a header counts texts of all
kinds, and lets an attribute stand in for an element's own text when the text has been transcluded
from elsewhere. The label text strips every text that a reader sees and joins what is left with
spaces. Comments never count.
-/

namespace Concordance

/-- The attribute whose value stands for an element's text. -/
def transcludeAttr : String := "data-transclude"

namespace Node

mutual
/-- The texts of some kinds below a node, in order. -/
def texts (p : TextKind → Bool) : Node → List (List Char)
  | .text kind value => if p kind then [value.toList] else []
  | .element _ children _ => allTexts p children

/-- The texts of some kinds below nodes, in order. -/
def allTexts (p : TextKind → Bool) : List Node → List (List Char)
  | [] => []
  | n :: ns => n.texts p ++ allTexts p ns
end

/-- The texts that a reader sees who looks at a node, in order. -/
def visible (n : Node) : List (List Char) := n.texts (n.tag?.getD default).shows

/-- The text that a reader sees who looks at a node. -/
def plainText (n : Node) : List Char := n.visible.flatten

/-- The texts that a reader sees, blanks at their ends taken off, joined with spaces. -/
def labelText (n : Node) : String :=
  String.ofList ([' '].intercalate ((n.visible.map Text.trim).filter (· ≠ [])))

mutual
/-- The text below a node as a header has it. -/
def headerChars : Node → List Char
  | .text kind value => if kind = .comment then [] else value.toList
  | .element tag children _ =>
    match tag.get? transcludeAttr with
    | some value => value.toList
    | none => allHeaderChars children

/-- The text below nodes as a header has it. -/
def allHeaderChars : List Node → List Char
  | [] => []
  | n :: ns => n.headerChars ++ allHeaderChars ns
end

/-- The text of a header, blanks at its ends taken off. -/
def headerSource (n : Node) : List Char := Text.trim n.headerChars

/-- Whether a node is a comment or a blank text. -/
def isBlank : Node → Bool
  | .text kind value => kind = .comment || Text.allBlank value.toList
  | .element _ _ _ => false

/-- Whether a node is blank or an element without visible text. -/
def isEmpty : Node → Bool
  | .text kind value => (Node.text kind value).isBlank
  | .element tag children removed =>
    Text.allBlank (Node.element tag children removed).plainText

end Node

end Concordance
