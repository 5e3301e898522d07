import Concordance.Text.Blank
import Concordance.Text.Quoted

/-!
# Tokens of a type phrase

A type phrase is cut into slots such as `[[Realm]]`, list suffixes `[]`, punctuation and words; a
bracket that belongs to none of these is a stray. Blanks separate tokens and belong to none. The
scan walks over the text once: at the start of each token the token's length is fixed, and the
characters it covers are then passed over.
-/

namespace Concordance.TypePhrase

/-- The kinds of tokens. -/
inductive Token.Kind where
  | slot
  | brackets
  | openBrace
  | closeBrace
  | openParen
  | closeParen
  | colon
  | comma
  | word
  | stray
  /-- The end of the text. -/
  | stop
  deriving DecidableEq, Repr, Inhabited

/-- A token with its text and the offset it starts at. -/
structure Token where
  kind : Token.Kind
  text : List Char
  offset : Nat
  deriving DecidableEq, Repr, Inhabited

namespace Token

/-- Whether a character is a square bracket. -/
def isBracket (c : Char) : Bool := c = '[' || c = ']'

/-- Whether a character is punctuation, which ends a word. -/
def isPunctuation (c : Char) : Bool :=
  c = '{' || c = '}' || c = '(' || c = ')' || c = ':' || c = ',' || isBracket c

/-- Whether a character can be in a word. -/
def isWordPart (c : Char) : Bool := !Text.isBlank c && !isPunctuation c

/-- How many characters of a slot follow its first bracket, `rest` being what follows it. -/
def slotTail? : (rest : List Char) → Option Nat
  | '[' :: body =>
    let inner := body.takeWhile (!isBracket ·)
    match inner, body.drop inner.length with
    | _ :: _, ']' :: ']' :: _ => some (inner.length + 3)
    | _, _ => none
  | _ => none

/-- How many characters of a list suffix follow its first bracket. -/
def bracketsTail? (rest : List Char) : Option Nat :=
  match Text.trimLeft rest with
  | ']' :: _ => some (Text.leading rest + 1)
  | _ => none

/-- The kind of the token that starts with a character, and how many more characters it has. -/
def first (c : Char) (rest : List Char) : Kind × Nat :=
  if c = '[' then
    match slotTail? rest with
    | some n => (.slot, n)
    | none =>
      match bracketsTail? rest with
      | some n => (.brackets, n)
      | none => (.stray, 0)
  else if c = ']' then (.stray, 0)
  else if c = '{' then (.openBrace, 0)
  else if c = '}' then (.closeBrace, 0)
  else if c = '(' then (.openParen, 0)
  else if c = ')' then (.closeParen, 0)
  else if c = ':' then (.colon, 0)
  else if c = ',' then (.comma, 0)
  else (.word, (rest.takeWhile isWordPart).length)

/-- The tokens of a text that starts at an offset, its first `covered` characters belonging to a
token before it. -/
def scanFrom : (offset covered : Nat) → List Char → List Token
  | _, _, [] => []
  | offset, covered + 1, _ :: cs => scanFrom (offset + 1) covered cs
  | offset, 0, c :: cs =>
    if Text.isBlank c then scanFrom (offset + 1) 0 cs
    else
      let (kind, more) := first c cs
      ⟨kind, c :: cs.take more, offset⟩ :: scanFrom (offset + 1) more cs

/-- The tokens of a text. -/
def scan (text : List Char) : List Token := scanFrom 0 0 text

/-- The tokens of a text and the mark of its end. -/
def scanAll (text : List Char) : List Token := scan text ++ [⟨.stop, [], text.length⟩]

/-- Whether the token is a given word in small or capital letters. No letter outside ASCII has a
small form that is an ASCII letter of the words asked for. -/
def isWord (t : Token) (word : List Char) : Bool :=
  t.kind = .word && t.text.map Char.toLower = word

end Token

end Concordance.TypePhrase
