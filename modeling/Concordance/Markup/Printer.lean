import Concordance.Markup.Reader

/-!
# Writing markup

The text of a tree. Attributes are written in the order of their names, in double quotes unless the
value has a double quote and no single one. In texts and values the ampersand and the angle brackets
are written as references. The contents of scripts and style sheets, comments and the like are
written as they are, and a document type has a line break after it. Where a document names its
encoding it names the one it is written in.
-/

namespace Concordance.Markup

/-- A character of a text or a value. -/
def printChar (c : Char) : List Char :=
  if c = '&' then "&amp;".toList
  else if c = '<' then "&lt;".toList
  else if c = '>' then "&gt;".toList
  else [c]

/-- A text or a value. -/
def printText (cs : List Char) : List Char := cs.flatMap printChar

/-- A value in quotes. -/
def printValue (cs : List Char) : List Char :=
  let text := printText cs
  if '\x22' ∈ text then
    if '\x27' ∈ text then
      '\x22' :: text.flatMap (fun c => if c = '\x22' then "&quot;".toList else [c]) ++ ['\x22']
    else '\x27' :: text ++ ['\x27']
  else '\x22' :: text ++ ['\x22']

/-! ## The encoding -/

/-- The name of the encoding that documents are written in. -/
def encoding : List Char := "utf-8".toList

/-- The word that names an encoding in the description of a document. -/
def encodingMark : List Char := "charset=".toList

/-- A description of a document with the encoding that it names replaced; `here` says whether the
word for it can start here: at the start of a line, after a blank or after a semicolon. -/
def reencode : (here : Bool) → (covered : Nat) → List Char → List Char
  | _, _, [] => []
  | _, covered + 1, _ :: cs => reencode false covered cs
  | here, 0, c :: cs =>
    if here && encodingMark.isPrefixOf (c :: cs) then
      let old := ((c :: cs).drop encodingMark.length).takeWhile (· ≠ ';')
      encodingMark ++ encoding ++ reencode false (encodingMark.length + old.length - 1) cs
    else c :: reencode (c = ';' || Text.isBlank c) 0 cs

/-- The value of an attribute as it is written: the one that names the encoding of a document names
the one that it is written in. -/
def writtenValue (t : Tag) (a : String × String) : List Char :=
  let isType (v : String) : Bool := v.toList.map Char.toLower = "content-type".toList
  if t.name ≠ "meta" then a.2.toList
  else if t.has "charset" then if a.1 = "charset" then encoding else a.2.toList
  else if a.1 = "content" && ((t.get? "http-equiv").map isType).getD false then
    reencode true 0 a.2.toList
  else a.2.toList

/-! ## Trees -/

/-- An attribute with the space before it. -/
def printAttr (t : Tag) (a : String × String) : List Char :=
  ' ' :: a.1.toList ++ '=' :: printValue (writtenValue t a)

/-- The attributes of a tag in the order of their names. -/
def printAttrs (t : Tag) : List Char :=
  (t.attrs.mergeSort fun a b => decide (a.1 ≤ b.1)).flatMap (printAttr t)

/-- A text of some kind in an element; in a raw element it is written as it is. -/
def printString (raw : Bool) (kind : TextKind) (cs : List Char) : List Char :=
  match kind with
  | .cdata => "<![CDATA[".toList ++ cs ++ "]]>".toList
  | .comment => "<!--".toList ++ cs ++ "-->".toList
  | .instruction => '<' :: '?' :: cs ++ ['>']
  | .declaration => '<' :: '?' :: cs ++ ['?', '>']
  | .doctype => "<!DOCTYPE ".toList ++ cs ++ ['>', '\n']
  | _ => if raw then cs else printText cs

mutual
/-- The text of a tree in a raw element or another. -/
def print (raw : Bool) : Node → List Char
  | .text kind value => printString raw kind value.toList
  | .element tag children _ =>
    if children.isEmpty && voidNames.contains tag.name then
      '<' :: tag.name.toList ++ printAttrs tag ++ ['/', '>']
    else
      '<' :: tag.name.toList ++ printAttrs tag ++
        '>' :: printAll (rawNames.contains tag.name) children ++
          '<' :: '/' :: tag.name.toList ++ ['>']

/-- The text of trees one after another. -/
def printAll (raw : Bool) : List Node → List Char
  | [] => []
  | n :: ns => print raw n ++ printAll raw ns
end

/-- The text of a whole document. -/
def printDocument (root : Node) : String := String.ofList (printAll false root.children)

end Concordance.Markup
