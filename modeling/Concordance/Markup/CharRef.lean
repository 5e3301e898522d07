import Std.Data.HashMap
import Concordance.Decimal.Whole
import Concordance.Markup.CharNames
import Concordance.Text.Quoted

/-!
# Character references

A reference names a character by its code point or by a name of the table. In the text between tags
a reference ends at the first character that cannot belong to it, and one that names nothing is the
text of its name. In the value of an attribute the semicolon counts: only an old name can do
without it, and then the longest old name at the start is taken. Code points that cannot be
characters have stand-ins: the controls between U+0080 and U+009F are read in the old single-byte
set that has letters and signs in their place.

Two kinds of references have no text. A decimal number of more than `Decimal.maxDigits` digits is
not read at all, neither in a text nor in a value. A number between U+D800 and U+DFFF names half of
a pair that writes one character; in a value the replacement stands for it, but a text takes it as
it is, and is no sequence of characters then.
-/

namespace Concordance.Markup

/-- Why there are no nodes that markup writes. -/
inductive Refusal where
  /-- A marked section that starts with no name. -/
  | noKeyword (text : List Char)
  /-- A marked section with an unknown name. -/
  | unknownKeyword (text : List Char)
  /-- A decimal reference with so many digits, which are too many. -/
  | longNumber (digits : Nat)
  /-- A reference in a text to a code point that is half of a pair. The markup has a tree, but its
  texts are no sequences of characters: what is done with it is not followed here. -/
  | surrogate (point : Nat)
  deriving DecidableEq, Repr

namespace Refusal

/-- Whether nothing can be done with the markup. -/
def isFinal : Refusal → Bool
  | .surrogate _ => false
  | _ => true

/-- What is said of markup with a marked section that cannot be read. -/
def rejection (cause : String) : String :=
  "The markup you provided was rejected by the parser. Trying a different parser or a " ++
  "different encoding may help.\n\nOriginal error(s) from parser:\n  AssertionError: " ++ cause

/-- The refusal in words. -/
def message : Refusal → String
  | .noKeyword text =>
    rejection ("expected name token at " ++ String.ofList (Text.quoteChars text))
  | .unknownKeyword text =>
    rejection ("unknown status keyword " ++ String.ofList (Text.quoteChars text) ++
      " in marked section")
  | .longNumber digits => Decimal.excessMessage digits
  | .surrogate point => "the code point " ++ toString point ++ " is half of a pair"

end Refusal

/-! ## Names -/

/-- The value of a digit in a base up to sixteen. -/
def digit? (base : Nat) (c : Char) : Option Nat :=
  let v := if '0' ≤ c ∧ c ≤ '9' then c.toNat - 48
    else if 'a' ≤ c ∧ c ≤ 'f' then c.toNat - 87
    else if 'A' ≤ c ∧ c ≤ 'F' then c.toNat - 55
    else base
  if v < base then some v else none

/-- Whether a character is a digit of a base. -/
def isDigitOf (base : Nat) (c : Char) : Bool := (digit? base c).isSome

/-- The number that digits write; anything else among them is passed over. -/
def number (base : Nat) (ds : List Char) : Nat :=
  (ds.filterMap (digit? base)).foldl (fun n d => base * n + d) 0

/-- What a name of a character stands for. -/
structure NamedText where
  chars : List Char
  /-- Whether the name may stand without a semicolon. -/
  old : Bool
  deriving DecidableEq, Repr, Inhabited

/-- An entry of the table of names. -/
def namedEntry (cs : List Char) : List Char × NamedText :=
  let isMark (c : Char) : Bool := c = ':' || c = '!'
  let name := cs.takeWhile (!isMark ·)
  let points := (cs.drop (name.length + 1)).splitOn '+'
  (name, ⟨points.map fun p => Char.ofNat (number 16 p), cs[name.length]? == some '!'⟩)

/-- The hash of core, whichever other one is in scope. -/
local instance (priority := 1100) charHash : Hashable Char := instHashableChar

/-- The names of characters. -/
def charNames : Std.HashMap (List Char) NamedText :=
  Std.HashMap.ofList (nameTable.flatMap fun line => (line.toList.splitOn ' ').map namedEntry)

/-- The names of the characters with a meaning in markup; all four are old. -/
def markupNames : List (List Char × NamedText) :=
  [("amp".toList, ⟨['&'], true⟩), ("lt".toList, ⟨['<'], true⟩), ("gt".toList, ⟨['>'], true⟩),
   ("quot".toList, ⟨['\x22'], true⟩)]

/-- What a name stands for. -/
def namedText? (name : List Char) : Option NamedText :=
  match markupNames.lookup name with
  | some t => some t
  | none => charNames[name]?

/-! ## Code points -/

/-- The characters at 0x80 to 0x9F of the old single-byte set; where it has none, the control. -/
def oldControls : List Nat :=
  [0x20ac, 0x81, 0x201a, 0x192, 0x201e, 0x2026, 0x2020, 0x2021, 0x2c6, 0x2030, 0x160, 0x2039,
   0x152, 0x8d, 0x17d, 0x8f, 0x90, 0x2018, 0x2019, 0x201c, 0x201d, 0x2022, 0x2013, 0x2014, 0x2dc,
   0x2122, 0x161, 0x203a, 0x153, 0x9d, 0x17e, 0x178]

/-- The character that stands for what is no character. -/
def replacement : Char := '\ufffd'

/-- The character at a place of the old single-byte set that is a control elsewhere. -/
def oldControl (n : Nat) : Char := Char.ofNat (oldControls.getD (n - 0x80) n)

/-- The character of a code point in the text between tags. -/
def textChar (n : Nat) : Except Refusal Char :=
  if 0x80 ≤ n ∧ n < 0xa0 then .ok (oldControl n)
  else if n.isValidChar then .ok (Char.ofNat n)
  else if n < 0x110000 then .error (.surrogate n)
  else .ok replacement

/-- Whether a code point stands for nothing in a value. -/
def isNonCharacter (n : Nat) : Bool :=
  (1 ≤ n && n ≤ 8) || n = 0xb || (0xe ≤ n && n ≤ 0x1f) || n = 0x7f ||
    (0xfdd0 ≤ n && n ≤ 0xfdef) || n % 0x10000 = 0xfffe || n % 0x10000 = 0xffff

/-- The characters of a code point in a value. -/
def valueChars (n : Nat) : List Char :=
  if n = 0 then [replacement]
  else if 0x80 ≤ n ∧ n < 0xa0 then [oldControl n]
  else if !n.isValidChar then [replacement]
  else if isNonCharacter n then []
  else [Char.ofNat n]

/-- The number of a reference that is written by digits, zeros at the start included. -/
def refNumber (base : Nat) (digits : List Char) : Except Refusal Nat :=
  if base = 10 ∧ Decimal.maxDigits < digits.length then .error (.longNumber digits.length)
  else .ok (number base digits)

/-! ## References in text -/

/-- What is found after an ampersand in the text between tags. -/
inductive RefStep where
  /-- Some text, after which the reading goes on. -/
  | text (cs rest : List Char)
  /-- Some text, or none, after which the reading has to stop. -/
  | stop (cs rest : List Char)
  deriving DecidableEq, Repr

/-- The rest after a reference, its semicolon passed over. -/
def dropSemicolon : List Char → List Char
  | ';' :: rest => rest
  | rest => rest

/-- Whether a character can go on a name. -/
def isRefPart (c : Char) : Bool := c.isAlphanum || c = '-' || c = '.'

/-- The name at the start of a text that goes on after it: the whole run of its characters, or, when
nothing follows the run, the run up to its last sign that is no letter or digit. -/
def refName? (cs : List Char) : Option (List Char) :=
  let run := cs.takeWhile isRefPart
  if run.length < cs.length then some run
  else
    match (run.reverse.dropWhile Char.isAlphanum).drop 1 with
    | [] => none
    | name => some name.reverse

/-- The text of a name: what it stands for, or else the name after an ampersand. -/
def nameText (name : List Char) : List Char :=
  match namedText? name with
  | some t => t.chars
  | none => '&' :: name

/-- The base and the digits of a numeric reference with what is left of the text, `cs` being what
follows the number sign. After the digits there has to be a character that is no hexadecimal
digit. -/
def refDigits? (cs : List Char) : Option (Nat × List Char × List Char) :=
  let (base, ds) := match cs with
    | 'x' :: ds => (16, ds)
    | 'X' :: ds => (16, ds)
    | ds => (10, ds)
  let run := ds.takeWhile (isDigitOf base)
  match run, ds.drop run.length with
  | [], _ => none
  | _, [] => none
  | _, c :: rest => if isDigitOf 16 c then none else some (base, run, c :: rest)

/-- Reads what follows an ampersand. -/
def refStep (cs : List Char) : Except Refusal RefStep :=
  match cs with
  | [] => .ok (.stop [] ['&'])
  | '#' :: rest =>
    match refDigits? rest with
    | some (base, digits, rest) => do
      let c ← textChar (← refNumber base digits)
      return .text [c] (dropSemicolon rest)
    | none => .ok (if ';' ∈ rest then .stop ['&', '#'] rest else .stop [] ('&' :: cs))
  | c :: _ =>
    if c.isAlpha then
      match refName? cs with
      | some name => .ok (.text (nameText name) (dropSemicolon (cs.drop name.length)))
      | none => .ok (.stop [] ('&' :: cs))
    else .ok (.text ['&'] cs)

/-! ## References in values -/

/-- The number of characters of a name in a value. -/
def maxNameLength : Nat := 32

/-- Whether a character can be part of a name in a value. -/
def isValuePart (c : Char) : Bool :=
  !(c = '\t' || c = '\n' || c = '\x0c' || c = ' ' || c = '<' || c = '&' || c = '#' || c = ';')

/-- The longest old name at the start of a text, of at most so many characters and at least two,
with what it stands for. -/
def oldName? (cs : List Char) : Nat → Option (Nat × List Char)
  | 0 => none
  | n + 1 =>
    if n = 0 then none
    else
      match (namedText? (cs.take (n + 1))).filter NamedText.old with
      | some t => some (n + 1, t.chars)
      | none => oldName? cs n

/-- What a name in a value stands for; `closed` says whether a semicolon ends it. -/
def valueNameText (name : List Char) (closed : Bool) : List Char :=
  let whole := name ++ (if closed then [';'] else [])
  match (namedText? name).filter fun t => closed || t.old with
  | some t => t.chars
  | none =>
    match oldName? name (whole.length - 1) with
    | some (n, chars) => chars ++ whole.drop n
    | none => '&' :: whole

/-- The text of a numeric reference in a value and the length of the reference, `cs` being what
follows the ampersand and the digits being what follows `start` characters of it. -/
def valueNumber? (base start : Nat) (cs : List Char) : Except Refusal (Option (List Char × Nat)) :=
  let digits := (cs.drop start).takeWhile (isDigitOf base)
  let n := start + digits.length
  if digits = [] then .ok none
  else (refNumber base digits).map fun point =>
    some (valueChars point, n + if cs[n]? = some ';' then 1 else 0)

/-- The text of the reference that follows an ampersand in a value, and its length. -/
def valueRef? (cs : List Char) : Except Refusal (Option (List Char × Nat)) :=
  match cs with
  | '#' :: 'x' :: _ => valueNumber? 16 2 cs
  | '#' :: 'X' :: _ => valueNumber? 16 2 cs
  | '#' :: _ => valueNumber? 10 1 cs
  | _ =>
    let name := (cs.take maxNameLength).takeWhile isValuePart
    let closed := cs[name.length]? = some ';'
    if name = [] then .ok none
    else .ok (some (valueNameText name closed, name.length + if closed then 1 else 0))

/-- A value with its references resolved; the first `covered` characters belong to one before. -/
def resolveFrom : (covered : Nat) → List Char → Except Refusal (List Char)
  | _, [] => .ok []
  | covered + 1, _ :: cs => resolveFrom covered cs
  | 0, c :: cs =>
    if c = '&' then
      match valueRef? cs with
      | .ok (some (text, n)) => (resolveFrom n cs).map (text ++ ·)
      | .ok none => (resolveFrom 0 cs).map (c :: ·)
      | .error e => .error e
    else (resolveFrom 0 cs).map (c :: ·)

/-- A value with its references resolved. -/
def resolve (cs : List Char) : Except Refusal String := (resolveFrom 0 cs).map String.ofList

end Concordance.Markup
