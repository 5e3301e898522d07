import Concordance.Markup.CharRef
import Concordance.Text.Blank
import Concordance.Text.Lower

/-!
# Start tags

A start tag is a name, attributes and a closing bracket. Between them stand gaps: blanks, and
slashes that do not close the tag. An attribute begins after a gap or a quote, so a cursor keeps
the last character that has been passed. A value is in quotes, or bare up to the next blank; where
a quote is opened and never closed, what can be read as a value without it is taken. A tag whose
text stops in the middle is unfinished, and one that cannot go on at some character is no tag up
to there. The references in the values are read once it is known where the tag ends.
-/

namespace Concordance.Markup

/-- A place in a text: the character before it and what follows. -/
structure Cursor where
  last : Char
  rest : List Char
  deriving DecidableEq, Repr

namespace Cursor

/-- The cursor after a text that follows it. -/
def after (k : Cursor) (text : List Char) : Cursor :=
  ⟨text.getLastD k.last, k.rest.drop text.length⟩

end Cursor

/-- Whether a character is a quote. -/
def isQuote (c : Char) : Bool := c = '\x22' || c = '\x27'

/-- Whether a character ends the name of an element. -/
def endsName (c : Char) : Bool :=
  c = '\t' || c = '\n' || c = '\r' || c = '\x0c' || c = ' ' || c = '/' || c = '>' || c = '\x00'

/-- The gap at the start of a text: blanks, and slashes before anything but a closing bracket. -/
def gap : List Char → List Char
  | [] => []
  | c :: cs =>
    if Text.isBlank c || (c = '/' && cs.head? != some '>') then c :: gap cs else []

/-- A name in small letters. -/
def lowerName (cs : List Char) : String := String.ofList (Text.lower cs)

/-! ## Attributes -/

/-- A value in quotes at the start of a text, and the text of it with its quotes. -/
def quotedValue? (cs : List Char) : Option (List Char × List Char) :=
  match cs with
  | [] => none
  | q :: rest =>
    if isQuote q then
      let value := rest.takeWhile (· ≠ q)
      if value.length < rest.length then some (value, q :: value ++ [q]) else none
    else none

/-- Whether a character can be in a bare value. -/
def isBarePart (c : Char) : Bool := c ≠ '>' && !Text.isBlank c

/-- The value after the name of an attribute, with the text from the name to the end of the value;
none where no value is given. -/
def value? (cs : List Char) : Option (List Char × List Char) :=
  let before := cs.takeWhile Text.isBlank
  let marks := (cs.drop before.length).takeWhile (· = '=')
  let lead := before ++ marks
  let afterMarks := cs.drop lead.length
  let between := afterMarks.takeWhile Text.isBlank
  let rest := afterMarks.drop between.length
  let bare := rest.takeWhile isBarePart
  if marks = [] then none
  else
    match quotedValue? rest with
    | some (value, text) => some (value, lead ++ between ++ text)
    | none =>
      if !(rest.head?.map isQuote).getD false then some (bare, lead ++ between ++ bare)
      else if between ≠ [] then some ([], lead ++ between)
      else if marks.length = 1 then none
      else some ('=' :: bare, lead ++ bare)

/-- The attribute at a cursor, its value as it is written, and the cursor after it and the gap that
follows it. -/
def attr? (k : Cursor) : Option ((String × List Char) × Cursor) :=
  match k.rest with
  | [] => none
  | c :: cs =>
    if !(isQuote k.last || Text.isBlank k.last || k.last = '/') then none
    else if Text.isBlank c || c = '/' || c = '>' then none
    else
      let isPart (c : Char) : Bool := !(Text.isBlank c || c = '/' || c = '=' || c = '>')
      let name := c :: cs.takeWhile isPart
      let k := k.after name
      let (value, k) :=
        match value? k.rest with
        | some (value, text) => (value, k.after text)
        | none => ([], k)
      some ((lowerName name, value), k.after (gap k.rest))

/-- The attributes from a cursor on and the cursor after them; the count bounds them. -/
def attrs : Nat → Cursor → List (String × List Char) × Cursor
  | 0, k => ([], k)
  | bound + 1, k =>
    match attr? k with
    | none => ([], k)
    | some (a, k) =>
      let (more, k) := attrs bound k
      (a :: more, k)

/-- Attributes with the references in their values resolved. -/
def resolveAttrs (as : List (String × List Char)) : Except Refusal (List (String × String)) :=
  as.mapM fun a => (resolve a.2).map (a.1, ·)

/-! ## Tags -/

/-- What a text that starts like a start tag is. -/
inductive TagRead where
  /-- A start tag; `closed` if it ends its element as well. -/
  | tag (name : String) (attrs : List (String × String)) (closed : Bool) (rest : List Char)
  /-- No tag; what has been passed is text. -/
  | junk (text rest : List Char)
  /-- The text stops before the end of the tag. -/
  | unfinished
  deriving DecidableEq, Repr

/-- Reads a start tag after its opening bracket; the text starts with a letter. -/
def readStartTag (cs : List Char) : Except Refusal TagRead :=
  let name := cs.takeWhile (!endsName ·)
  let k := (Cursor.mk '<' cs).after name
  let (as, k) := attrs cs.length (k.after (gap k.rest))
  match k.rest with
  | '>' :: rest => (resolveAttrs as).map (.tag (lowerName name) · false rest)
  | '/' :: '>' :: rest => (resolveAttrs as).map (.tag (lowerName name) · true rest)
  | [] => .ok .unfinished
  | c :: rest =>
    if c.isAlpha || c = '=' || c = '/' then .ok .unfinished
    else (resolveAttrs as).map fun _ =>
      .junk ('<' :: cs.take (cs.length - (rest.length + 1))) (c :: rest)

end Concordance.Markup
