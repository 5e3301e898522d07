import Concordance.Markup.Node
import Concordance.Markup.StartTag

/-!
# Pieces of markup

Markup is cut into start tags, end tags, comments, declarations and the texts between them. The cut
is made in two rounds. The first one stops where the text would have to go on for a piece to be
complete. The second one takes what is left and reads a piece that is never completed as text; where
even that is not possible, all that is left is text. The contents of a script or a style sheet are
text up to its end tag, and are lost if there is none.

A marked section with an unknown keyword is refused, and the markup with it. So is a reference that
has no text.
-/

namespace Concordance.Markup

/-- A piece of markup. -/
inductive Piece where
  | text (cs : List Char)
  /-- A start tag; `closed` if it ends its element as well. -/
  | opening (name : String) (attrs : List (String × String)) (closed : Bool)
  | closing (name : String)
  | other (kind : TextKind) (cs : List Char)
  deriving DecidableEq, Repr

/-- What is found after an opening bracket. -/
inductive Step where
  | piece (p : Piece) (rest : List Char)
  /-- Something that says nothing. -/
  | nothing (rest : List Char)
  /-- The text has to go on before it can be read. -/
  | wait
  | refuse (r : Refusal)
  deriving DecidableEq, Repr

/-! ## Searching -/

/-- What follows a mark at the start of a text: `first`, blanks, and then the next part, for every
part of the mark. -/
def afterMark? : (parts : List (List Char)) → List Char → Option (List Char)
  | [], cs => some cs
  | [part], cs => if part.isPrefixOf cs then some (cs.drop part.length) else none
  | part :: parts, cs =>
    if part.isPrefixOf cs then afterMark? parts (Text.trimLeft (cs.drop part.length)) else none

/-- The characters before the first place of a mark and what follows the mark. -/
def cutAt? (parts : List (List Char)) : List Char → Option (List Char × List Char)
  | [] => none
  | c :: cs =>
    match afterMark? parts (c :: cs) with
    | some rest => some ([], rest)
    | none => (cutAt? parts cs).map fun r => (c :: r.1, r.2)

/-- The characters before a closing bracket and what follows it. -/
def cutAtBracket? (cs : List Char) : Option (List Char × List Char) := cutAt? [['>']] cs

/-! ## Declarations -/

/-- The name at the start of a text with the blanks after it. -/
def sectionName? (cs : List Char) : Option (List Char × List Char) :=
  match cs with
  | [] => none
  | c :: _ =>
    if c.isAlpha then
      let isPart (c : Char) : Bool := c.isAlphanum || c = '-' || c = '_' || c = '.'
      let name := cs.takeWhile isPart
      some (name, (cs.drop name.length).takeWhile Text.isBlank)
    else none

/-- The marks that end a marked section with a keyword. -/
def sectionEnd? (keyword : String) : Option (List (List Char)) :=
  if ["temp", "cdata", "ignore", "include", "rcdata"].contains keyword then
    some [[']'], [']'], ['>']]
  else if ["if", "else", "endif"].contains keyword then some [[']'], ['>']]
  else none

/-- The piece that a marked section is. -/
def sectionPiece (cs : List Char) : Piece :=
  let mark := "CDATA[".toList
  if (cs.take mark.length).map Char.toUpper = mark then .other .cdata (cs.drop mark.length)
  else .other .declaration cs

/-- Reads a marked section after `<![`. -/
def readSection (cs : List Char) : Step :=
  match cs, sectionName? cs with
  | [], _ => .wait
  | _, none => .refuse (.noKeyword ("<![".toList ++ cs.take 17))
  | _, some (name, blanks) =>
    if cs.length = name.length + blanks.length then .wait
    else
      match sectionEnd? (lowerName name) with
      | none => .refuse (.unknownKeyword (name ++ blanks))
      | some parts =>
        match cutAt? parts cs with
        | some (text, rest) => .piece (sectionPiece text) rest
        | none => .wait

/-- A piece that goes on to the next closing bracket. -/
def upToBracket (piece : List Char → Piece) (cs : List Char) : Step :=
  match cutAtBracket? cs with
  | some (text, rest) => .piece (piece text) rest
  | none => .wait

/-- Reads a declaration after `<!`. -/
def readDeclaration (cs : List Char) : Step :=
  let doctype := "doctype".toList
  match cs with
  | '[' :: rest => readSection rest
  | _ =>
    if (cs.take doctype.length).map Char.toLower = doctype then
      upToBracket (fun text => .other .doctype (text.drop (doctype.length + 1))) cs
    else upToBracket (.other .comment) cs

/-! ## End tags -/

/-- What follows an end tag with nothing but blanks around its name, and the name. -/
def plainEndTag? (cs : List Char) : Option (List Char × List Char) :=
  let isPart (c : Char) : Bool := c.isAlphanum || c = '-' || c = '.' || c = ':' || c = '_'
  let cs := Text.trimLeft cs
  let name := cs.takeWhile isPart
  match name.head?.map Char.isAlpha, Text.trimLeft (cs.drop name.length) with
  | some true, '>' :: rest => some (name, rest)
  | _, _ => none

/-- Reads an end tag after `</`. -/
def readEndTag (cs : List Char) : Step :=
  match cutAtBracket? cs with
  | none => .wait
  | some (text, rest) =>
    match plainEndTag? cs with
    | some (name, rest) => .piece (.closing (lowerName name)) rest
    | none =>
      if (cs.head?.map Char.isAlpha).getD false then
        .piece (.closing (lowerName (text.takeWhile (!endsName ·)))) rest
      else if text = [] then .nothing rest
      else .piece (.other .comment text) rest

/-! ## Rounds -/

/-- Reads what follows an opening bracket. -/
def readTag (cs : List Char) : Step :=
  match cs with
  | [] => .wait
  | '/' :: rest => readEndTag rest
  | '!' :: '-' :: '-' :: rest =>
    match cutAt? [['-', '-'], ['>']] rest with
    | some (text, rest) => .piece (.other .comment text) rest
    | none => .wait
  | '?' :: rest => upToBracket (.other .instruction) rest
  | '!' :: rest => readDeclaration rest
  | c :: _ =>
    if c.isAlpha then
      match readStartTag cs with
      | .ok (.tag name attrs closed rest) => .piece (.opening name attrs closed) rest
      | .ok (.junk text rest) => .piece (.text text) rest
      | .ok .unfinished => .wait
      | .error r => .refuse r
    else .piece (.text ['<']) cs

/-- The elements whose contents are text up to their end tag. -/
def rawNames : List String := ["script", "style"]

/-- The raw element that a piece opens. -/
def rawOf : Piece → Option String
  | .opening name _ closed => if !closed && rawNames.contains name then some name else none
  | _ => none

/-- What follows the end tag of a raw element that a text starts with. -/
def afterEnd? (name : String) : List Char → Option (List Char)
  | '<' :: '/' :: cs =>
    ((plainEndTag? cs).filter fun r => r.1.map Char.toLower = name.toList).map (·.2)
  | _ => none

/-- The contents of a raw element and what follows its end tag. -/
def cutAtEnd? (name : String) : List Char → Option (List Char × List Char)
  | [] => none
  | c :: cs =>
    match afterEnd? name (c :: cs) with
    | some rest => some ([], rest)
    | none => (cutAtEnd? name cs).map fun r => (c :: r.1, r.2)

/-- A text that starts with an opening bracket and is no piece: it goes on through the next closing
bracket, or else up to the next opening one, or else is that bracket alone. -/
def unreadable (cs : List Char) : List Char × List Char :=
  match cutAtBracket? cs with
  | some (text, rest) => ('<' :: text ++ ['>'], rest)
  | none =>
    let text := cs.takeWhile (· ≠ '<')
    if text.length < cs.length then ('<' :: text, cs.drop text.length) else (['<'], cs)

/-- A piece of text, unless it is empty. -/
def textPiece (cs : List Char) : List Piece := if cs = [] then [] else [.text cs]

/-- What a round leaves: the pieces it has read, the raw element it is in, and the rest. -/
structure Round where
  pieces : List Piece
  raw : Option String
  rest : List Char
  deriving DecidableEq, Repr

/-- The round with pieces before its own. -/
def Round.precede (ps : List Piece) (r : Round) : Round := { r with pieces := ps ++ r.pieces }

/-- In the last round, an ampersand before a single last letter is lost. -/
def dropLastAmpersand (final : Bool) (cs : List Char) : List Char :=
  match final, cs with
  | true, ['&', c] => if c.isAlpha then [c] else cs
  | _, _ => cs

/-- Reads pieces, in a raw element or not; the fuel bounds their number. -/
def round (final : Bool) : (fuel : Nat) → (raw : Option String) → List Char →
    Except Refusal Round
  | 0, raw, cs => .ok ⟨[], raw, cs⟩
  | fuel + 1, some name, cs =>
    match cutAtEnd? name cs with
    | none => .ok ⟨[], some name, cs⟩
    | some (text, rest) =>
      (round final fuel none rest).map (·.precede (textPiece text ++ [.closing name]))
  | _ + 1, none, [] => .ok ⟨[], none, []⟩
  | fuel + 1, none, c :: cs =>
    if c = '<' then
      match readTag cs with
      | .piece p rest => (round final fuel (rawOf p) rest).map (·.precede [p])
      | .nothing rest => round final fuel none rest
      | .refuse r => .error r
      | .wait =>
        if final then
          let (text, rest) := unreadable cs
          (round final fuel none rest).map (·.precede [.text text])
        else .ok ⟨[], none, c :: cs⟩
    else if c = '&' then
      match refStep cs with
      | .ok (.text text rest) => (round final fuel none rest).map (·.precede [.text text])
      | .ok (.stop text rest) => .ok ⟨textPiece text, none, dropLastAmpersand final rest⟩
      | .error r => .error r
    else
      let text := c :: cs.takeWhile fun c => c ≠ '<' && c ≠ '&'
      (round final fuel none (cs.drop (text.length - 1))).map (·.precede [.text text])

/-- The pieces of markup. -/
def pieces (cs : List Char) : Except Refusal (List Piece) := do
  let first ← round false (cs.length + 1) none cs
  let second ← round true (first.rest.length + 1) first.raw first.rest
  return first.pieces ++ second.pieces ++
    (if second.raw.isSome then [] else textPiece second.rest)

end Concordance.Markup
