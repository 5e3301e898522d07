import Concordance.Header.Basic
import Concordance.Header.Split
import Concordance.Text.Blank
import Concordance.Text.WordChar

/-!
# Reading one parameter

A parameter is, blanks aside, a name that may follow the word `optional`, may be wrapped in a pair
of underscores, may be followed by a question mark, and may have a type after a colon. A name starts
with an ASCII letter or a dollar sign and goes on with word characters and dollar signs; the longest
run of these is taken, so each parameter is read in one way only. The word `optional` itself is a
name when no name follows it.
-/

namespace Concordance.Header

/-- Whether a name can start with a character. -/
def isNameStart (c : Char) : Bool := c.isAlpha || c = '$'

/-- Whether a name can go on with a character. -/
def isNamePart (c : Char) : Bool := Text.isWordChar c || c = '$'

/-- The name that a run of name characters stands for: the run itself, or what a pair of
underscores around it wraps; and how many characters of the run come before the name. -/
def nameOfRun? (run : List Char) : Option (List Char × Nat) :=
  match run with
  | '_' :: rest =>
    match rest, rest.getLast? with
    | c :: _ :: _, some '_' => if isNameStart c then some (rest.dropLast, 1) else none
    | _, _ => none
  | c :: _ => if isNameStart c then some (run, 0) else none
  | [] => none

/-- A parameter without the word `optional` before it: its name, the number of characters before
the name, whether a question mark follows, and the text after the colon with its place. -/
structure Core where
  name : List Char
  before : Nat
  mark : Bool
  type : Option (List Char × Nat)
  deriving DecidableEq, Repr

/-- Reads a parameter that starts with its name. -/
def core? (cs : List Char) : Option Core :=
  let run := cs.takeWhile isNamePart
  match nameOfRun? run with
  | none => none
  | some (name, before) =>
    let rest := cs.drop run.length
    let mark := rest.head? == some '?'
    let rest := if mark then rest.drop 1 else rest
    let place := run.length + (if mark then 1 else 0) + Text.leading rest
    match Text.trimLeft rest with
    | [] => some ⟨name, before, mark, none⟩
    | ':' :: type => some ⟨name, before, mark, some (type, place + 1)⟩
    | _ => none

/-- What follows the word `optional` and at least one blank, and how many characters those are. -/
def afterOptional? (cs : List Char) : Option (List Char × Nat) :=
  let word := "optional".toList
  if word.isPrefixOf cs then
    let rest := cs.drop word.length
    let gap := Text.leading rest
    if gap = 0 then none else some (rest.drop gap, word.length + gap)
  else none

/-- Reads a parameter that starts with its name or with the word `optional`; gives its core, the
number of characters before that and whether the word is there. -/
def worded? (cs : List Char) : Option (Core × Nat × Bool) :=
  match (afterOptional? cs).bind fun r => (core? r.1).map fun k => (k, r.2, true) with
  | some r => some r
  | none => (core? cs).map fun k => (k, 0, false)

/-- The parameter that a piece of a parameter list writes. -/
def readParameter (chunk : Chunk) : Except Fault RawParameter :=
  let lead := Text.leading chunk.text
  let body := Text.trimLeft chunk.text
  if body = [] then .error ⟨.emptyParameter, chunk.offset + lead⟩
  else
    match worded? body with
    | none => .error ⟨.malformedParameter (Text.trim chunk.text), chunk.offset + lead⟩
    | some (k, skipped, worded) =>
      let start := chunk.offset + lead + skipped
      let optional := worded || k.mark
      match k.type with
      | none => .ok ⟨k.name, optional, none, chunk.offset, start + k.before⟩
      | some (type, place) =>
        if Text.allBlank type then .error ⟨.noParameterType, start + place⟩
        else
          .ok ⟨k.name, optional, some (Text.trim type), start + place + Text.leading type,
            start + k.before⟩

end Concordance.Header
