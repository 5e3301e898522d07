import Concordance.Diagnostic
import Concordance.Header.Parser
import Concordance.Markup.Content
import Concordance.Markup.Reader
import Concordance.Signature.Typeset

/-!
# Declarations

An element whose text is an operation header declares the signature that the header reads as. Every
fault of a header is reported in its place in the text of the element. A header that declares a
signature is replaced by the typeset signature.
-/

namespace Concordance.Node

/-- The tag of an element, and an empty one for a text. -/
def tag (n : Node) : Tag := n.tag?.getD default

/-- A fault of a header, reported. -/
def headerReport (n : Node) (source : List Char) (f : Header.Fault) : Diagnostic :=
  .inContents n.tag source f.offset "header-format" f.defect.message

/-- A fault of a type in a header, reported. -/
def typeReport (n : Node) (source : List Char) (f : TypePhrase.Fault) : Diagnostic :=
  .inContents n.tag source f.offset "type-parsing" f.misparse.message

/-- The signature that an element declares, or what is wrong with its text. -/
def declaration (n : Node) : Except (List Diagnostic) Signature :=
  let source := n.headerSource
  match Header.parse source with
  | .error faults => .error (faults.map (n.headerReport source))
  | .ok h =>
    match h.signature with
    | .error f => .error [n.typeReport source f]
    | .ok s => .ok s

/-- The element with the typeset signature for its contents. -/
def typeset (s : Signature) (n : Node) : Node := n.replaceContents s.typeset.header

end Concordance.Node
