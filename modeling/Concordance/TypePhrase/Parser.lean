import Concordance.TypePhrase.Basic
import Concordance.TypePhrase.Token

/-!
# Reading type phrases

The grammar, over tokens:

    type    := ['either'] alt ('or' alt)*
    alt     := primary ('[]')*
    primary := '{' [field (',' field)*] '}' | '(' type ')' | ['a' | 'an'] 'List' 'of' alt | word+
    field   := (word | slot) ':' type

The keywords are read in small or capital letters, `List` only as it is written here. Brackets,
records, lists and suffixes nest at most `maxLevels` deep, and the level that is left is what the
recursion descends on: `alt` reads an alternative with a number of levels to go, and passes the
reader for one level less to its parts.
-/

namespace Concordance.TypePhrase

/-- What a reader of types stumbles over. -/
inductive Obstacle where
  | tooDeep
  | noType
  | noCloseParen
  | noFieldName
  | repeatedField
  | noColon
  | noSeparator
  | openRecord
  | trailing
  deriving DecidableEq, Repr

/-- An obstacle and the token it was met at; no token stands for the end of the text. -/
structure Misparse where
  obstacle : Obstacle
  token : Option Token
  deriving DecidableEq, Repr

namespace Misparse

/-- The token in words. -/
def found (m : Misparse) : String :=
  match m.token with
  | none => "end of input"
  | some t => String.ofList (Text.quoteChars t.text)

/-- The misparse in words. -/
def message (m : Misparse) : String :=
  match m.obstacle with
  | .tooDeep => "type nested too deeply"
  | .noType => "expected a type, got " ++ m.found
  | .noCloseParen => "expected ')', got " ++ m.found
  | .noFieldName => "expected record field name, got " ++ m.found
  | .repeatedField => "duplicate record field " ++ m.found
  | .noColon => "expected ':' after record field name, got " ++ m.found
  | .noSeparator => "expected ',' or '\x7d' in record, got " ++ m.found
  | .openRecord => "unterminated record: missing '\x7d'"
  | .trailing => "unexpected " ++ m.found ++ " after type"

/-- The offset of the token in a text of some length. -/
def offset (m : Misparse) (length : Nat) : Nat :=
  match m.token with
  | none => length
  | some t => t.offset

end Misparse

/-- How deep types may nest. -/
def maxLevels : Nat := 64

/-- A reader of one type gives the type and the tokens left, or a misparse. -/
abbrev Reader := List Token → Except Misparse (TypePhrase × List Token)

/-! ## Choices -/

/-- The tokens of a type without a leading `either`, which only the last token keeps. -/
def dropEither : List Token → List Token
  | t :: u :: ts => if t.isWord "either".toList then u :: ts else t :: u :: ts
  | ts => ts

/-- The alternatives after the first; the count bounds them. -/
def readMore (alt : Reader) :
    Nat → List Token → Except Misparse (List TypePhrase × List Token)
  | 0, ts => .ok ([], ts)
  | _ + 1, [] => .ok ([], [])
  | bound + 1, t :: ts =>
    if t.isWord "or".toList then do
      let (a, ts) ← alt ts
      let (more, ts) ← readMore alt bound ts
      return (a :: more, ts)
    else .ok ([], t :: ts)

/-- A choice whose alternatives are read by `alt`. -/
def readUnion (alt : Reader) (ts : List Token) : Except Misparse (TypePhrase × List Token) := do
  let (a, ts) ← alt (dropEither ts)
  let (more, ts) ← readMore alt ts.length ts
  return (either a more, ts)

/-! ## Records -/

/-- The name of a field. -/
def readFieldName (seen : List String) : List Token → Except Misparse (String × List Token)
  | [] => .error ⟨.noFieldName, none⟩
  | t :: ts =>
    if t.kind = .word ∨ t.kind = .slot then
      let name := String.ofList t.text
      if name ∈ seen then .error ⟨.repeatedField, some t⟩ else .ok (name, ts)
    else .error ⟨.noFieldName, some t⟩

/-- The colon after the name of a field. -/
def readColon : List Token → Except Misparse (List Token)
  | [] => .error ⟨.noColon, none⟩
  | t :: ts => if t.kind = .colon then .ok ts else .error ⟨.noColon, some t⟩

/-- The fields of the record opened at a token, up to its closing brace; the count bounds them. -/
def readFields (alt : Reader) (opening : Token) :
    Nat → (seen : List String) → List Token →
      Except Misparse (List (String × TypePhrase) × List Token)
  | 0, _, ts => .error ⟨.noFieldName, ts.head?⟩
  | bound + 1, seen, ts => do
    let (name, ts) ← readFieldName seen ts
    let (t, ts) ← readUnion alt (← readColon ts)
    match ts with
    | [] => .error ⟨.openRecord, some opening⟩
    | u :: ts =>
      if u.kind = .comma then
        let (fields, ts) ← readFields alt opening bound (name :: seen) ts
        return ((name, t) :: fields, ts)
      else if u.kind = .closeBrace then return ([(name, t)], ts)
      else .error ⟨.noSeparator, some u⟩

/-- The record opened at a token. -/
def readRecord (alt : Reader) (opening : Token) (ts : List Token) :
    Except Misparse (TypePhrase × List Token) :=
  match ts with
  | [] => .error ⟨.noFieldName, none⟩
  | t :: rest =>
    if t.kind = .closeBrace then .ok (.record [], rest)
    else (readFields alt opening ts.length [] ts).map fun r => (.record r.1, r.2)

/-! ## Words -/

/-- Whether a token is a word other than `or`. -/
def isPhraseWord (t : Token) : Bool := t.kind = .word && !t.isWord "or".toList

/-- What follows the words `List of`. -/
def afterListOf? : List Token → Option (List Token)
  | t :: u :: ts =>
    if t.kind = .word ∧ t.text = "List".toList ∧ u.isWord "of".toList then some ts else none
  | _ => none

/-- What follows the words of a list phrase, which may start with an article. -/
def afterListPhrase? : List Token → Option (List Token)
  | [] => none
  | t :: ts =>
    if t.isWord "a".toList || t.isWord "an".toList then afterListOf? ts else afterListOf? (t :: ts)

/-- The words at the start of the tokens, as one phrase. -/
def readPhrase (ts : List Token) : TypePhrase × List Token :=
  let words := (ts.takeWhile isPhraseWord).map (·.text)
  (.named (String.ofList ([' '].intercalate words)), ts.dropWhile isPhraseWord)

/-! ## Types -/

/-- A choice in parentheses, after the opening one. -/
def readParenthesized (alt : Reader) (ts : List Token) :
    Except Misparse (TypePhrase × List Token) := do
  let (t, ts) ← readUnion alt ts
  match ts with
  | [] => .error ⟨.noCloseParen, none⟩
  | u :: ts => if u.kind = .closeParen then return (t, ts) else .error ⟨.noCloseParen, some u⟩

/-- A primary type whose parts are read by `alt`. -/
def readPrimary (alt : Reader) : Reader
  | [] => .error ⟨.noType, none⟩
  | t :: ts =>
    if t.kind = .openBrace then readRecord alt t ts
    else if t.kind = .openParen then readParenthesized alt ts
    else if isPhraseWord t then
      match afterListPhrase? (t :: ts) with
      | some ts => (alt ts).map fun r => (.list r.1, r.2)
      | none => .ok (readPhrase (t :: ts))
    else .error ⟨.noType, some t⟩

/-- The list suffixes after a type, of which so many are allowed. -/
def readSuffixes : (allowed : Nat) → TypePhrase → Reader
  | _, t, [] => .ok (t, [])
  | allowed, t, u :: ts =>
    if u.kind = .brackets then
      match allowed with
      | 0 => .error ⟨.tooDeep, some u⟩
      | allowed + 1 => readSuffixes allowed (.list t) ts
    else .ok (t, u :: ts)

/-- An alternative with a number of levels to go. -/
def alt : (levels : Nat) → Reader
  | 0 => fun ts => .error ⟨.tooDeep, ts.head?⟩
  | levels + 1 => fun ts => do
    let (t, ts) ← readPrimary (alt levels) ts
    readSuffixes levels t ts

/-- The type that a whole list of tokens writes. -/
def ofTokens (levels : Nat) (ts : List Token) : Except Misparse TypePhrase := do
  let (t, ts) ← readUnion (alt levels) ts
  match ts with
  | [] => return t
  | u :: _ => .error ⟨.trailing, some u⟩

/-- The type that a text writes. -/
def parse (text : List Char) : Except Misparse TypePhrase := ofTokens maxLevels (Token.scan text)

/-- A misparse and its offset in a larger text. -/
structure Fault where
  misparse : Misparse
  offset : Int
  deriving DecidableEq, Repr

/-- The type that a text writes which starts at an offset of a larger text. -/
def parseAt (base : Int) (text : List Char) : Except Fault TypePhrase :=
  (parse text).mapError fun m => ⟨m, base + m.offset text.length⟩

end Concordance.TypePhrase
