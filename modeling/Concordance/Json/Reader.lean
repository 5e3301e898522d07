import Concordance.Json.Basic

/-!
# Reading structured values

The reader takes the strict grammar: no byte order mark, no comment, no trailing comma, no name
but `null`, `true` and `false`, no number that is not finite, and escapes of surrogates in pairs
only. Arrays and objects nest no deeper than the reader is told. Each reader takes the rest of the
text and gives back what it leaves; the fuel is a bound on nested calls, and the length of the text
is enough of it.
-/

namespace Concordance.Json

open scoped Concordance.Decimal

/-- What is done with whole numbers outside the range of 64 bits. -/
inductive Range where
  /-- They are whole numbers like any other. -/
  | unbounded
  /-- They are read as fractional numbers. -/
  | word

/-- The least whole number of 64 bits. -/
def leastWord : Int := -2 ^ (63 : Nat)

/-- The greatest whole number of 64 bits. -/
def greatestWord : Int := 2 ^ (64 : Nat) - 1

/-- Whether a whole number has at most 64 bits. -/
def fitsWord (n : Int) : Bool := leastWord ≤ n && n ≤ greatestWord

/-- The blanks between tokens. -/
def isGap (c : Char) : Bool := c = ' ' || c = '\n' || c = '\r' || c = '\t'

/-- A text without the blanks at its start. -/
def skip (cs : List Char) : List Char := cs.dropWhile isGap

/-- The value of a hexadecimal digit. -/
def hexValue? (c : Char) : Option Nat :=
  if '0' ≤ c ∧ c ≤ '9' then some (c.toNat - 48)
  else if 'a' ≤ c ∧ c ≤ 'f' then some (c.toNat - 87)
  else if 'A' ≤ c ∧ c ≤ 'F' then some (c.toNat - 55)
  else none

/-- The number that four hexadecimal digits write. -/
def unit? (a b c d : Char) : Option Nat := do
  return ((← hexValue? a) * 16 + (← hexValue? b)) * 256 + (← hexValue? c) * 16 + (← hexValue? d)

/-- The character of a code unit that is no surrogate. -/
def ofUnit? (n : Nat) : Option Char :=
  if 0xD800 ≤ n ∧ n ≤ 0xDFFF then none else some (Char.ofNat n)

/-- The character of a pair of surrogates. -/
def ofPair? (high low : Nat) : Option Char :=
  if 0xD800 ≤ high ∧ high ≤ 0xDBFF ∧ 0xDC00 ≤ low ∧ low ≤ 0xDFFF then
    some (Char.ofNat (0x10000 + (high - 0xD800) * 0x400 + (low - 0xDC00)))
  else none

/-- The character of an escape of one letter. -/
def ofEscape? (c : Char) : Option Char :=
  if c = '\x22' ∨ c = '\\' ∨ c = '/' then some c
  else if c = 'b' then some '\x08'
  else if c = 'f' then some '\x0c'
  else if c = 'n' then some '\n'
  else if c = 'r' then some '\r'
  else if c = 't' then some '\t'
  else none

/-- The rest of a string after its opening quote; `acc` is what has been read, last first. -/
def readString (acc : List Char) : List Char → Option (List Char × List Char)
  | [] => none
  | '\x22' :: cs => some (acc.reverse, cs)
  | '\\' :: 'u' :: a :: b :: c :: d :: cs =>
    match unit? a b c d with
    | none => none
    | some n =>
      match ofUnit? n with
      | some x => readString (x :: acc) cs
      | none =>
        match cs with
        | '\\' :: 'u' :: e :: f :: g :: h :: rest =>
          match (unit? e f g h).bind (ofPair? n) with
          | some x => readString (x :: acc) rest
          | none => none
        | _ => none
  | '\\' :: c :: cs =>
    match ofEscape? c with
    | some x => readString (x :: acc) cs
    | none => none
  | c :: cs => if c.toNat < 32 ∨ c = '\\' then none else readString (c :: acc) cs

/-- The number that a run of digits writes. -/
def digitsValue (ds : List Char) : Nat := ds.foldl (fun n d => 10 * n + (d.toNat - 48)) 0

/-- The run of digits at the start of a text and what follows. -/
def spanDigits (cs : List Char) : List Char × List Char :=
  (cs.takeWhile Char.isDigit, cs.dropWhile Char.isDigit)

/-- An exponent: its letter, a sign or none, and digits. -/
def readExponent : List Char → Option (Option Int × List Char)
  | c :: cs =>
    if c = 'e' ∨ c = 'E' then
      let (negative, cs) := match cs with
        | '-' :: r => (true, r)
        | '+' :: r => (false, r)
        | r => (false, r)
      match spanDigits cs with
      | ([], _) => none
      | (ds, rest) =>
        let n : Int := digitsValue ds
        some (some (if negative then -n else n), rest)
    else some (none, c :: cs)
  | [] => some (none, [])

/-- The digits after a point, if there is one. -/
def readFraction : List Char → Option (Option (List Char) × List Char)
  | '.' :: cs =>
    match spanDigits cs with
    | ([], _) => none
    | (ds, rest) => some (some ds, rest)
  | cs => some (none, cs)

/-- The value of a whole number. -/
def whole? (range : Range) (negative : Bool) (n : Nat) : Option Json :=
  let value : Int := if negative then -(n : Int) else n
  match range with
  | .unbounded => some (.int value)
  | .word =>
    if fitsWord value then some (.int value)
    else (Decimal.Binary.ofDecimal? negative n 0).map .float

/-- A number after its sign. -/
def readNumber (range : Range) (negative : Bool) (cs : List Char) : Option (Json × List Char) := do
  let (ds, rest) := spanDigits cs
  if ds.isEmpty || (ds.head? == some '0' && ds.length ≠ 1) then none
  let (fraction, rest) ← readFraction rest
  let (exponent, rest) ← readExponent rest
  match fraction, exponent with
  | none, none => return (← whole? range negative (digitsValue ds), rest)
  | _, _ =>
    let tail := fraction.getD []
    let power := exponent.getD 0 - tail.length
    return (.float (← Decimal.Binary.ofDecimal? negative (digitsValue (ds ++ tail)) power), rest)

/-- What is left of a text after a word it starts with. -/
def after? : (word : List Char) → List Char → Option (List Char)
  | [], cs => some cs
  | w :: ws, c :: cs => if w = c then after? ws cs else none
  | _ :: _, [] => none

mutual
/-- One value that nests at most so many levels deep, blanks before it allowed. -/
def readValue (range : Range) :
    (fuel levels : Nat) → List Char → Option (Json × List Char)
  | 0, _, _ => none
  | fuel + 1, levels, cs =>
    match skip cs with
    | '[' :: rest =>
      match levels, skip rest with
      | 0, _ => none
      | _ + 1, ']' :: rest => some (.array [], rest)
      | levels + 1, rest => (readItems range fuel levels rest).map fun r => (.array r.1, r.2)
    | '{' :: rest =>
      match levels, skip rest with
      | 0, _ => none
      | _ + 1, '}' :: rest => some (.object [], rest)
      | levels + 1, rest => (readMembers range fuel levels rest).map fun r => (ofMembers r.1, r.2)
    | '\x22' :: rest => (readString [] rest).map fun r => (.string (String.ofList r.1), r.2)
    | 'n' :: rest => (after? "ull".toList rest).map fun r => (.null, r)
    | 't' :: rest => (after? "rue".toList rest).map fun r => (.bool true, r)
    | 'f' :: rest => (after? "alse".toList rest).map fun r => (.bool false, r)
    | '-' :: rest => readNumber range true rest
    | rest => readNumber range false rest

/-- The items of an array up to its closing bracket. -/
def readItems (range : Range) :
    (fuel levels : Nat) → List Char → Option (List Json × List Char)
  | 0, _, _ => none
  | fuel + 1, levels, cs =>
    match readValue range fuel levels cs with
    | none => none
    | some (v, rest) =>
      match skip rest with
      | ',' :: rest => (readItems range fuel levels rest).map fun r => (v :: r.1, r.2)
      | ']' :: rest => some ([v], rest)
      | _ => none

/-- The members of an object up to its closing brace. -/
def readMembers (range : Range) :
    (fuel levels : Nat) → List Char → Option (List (String × Json) × List Char)
  | 0, _, _ => none
  | fuel + 1, levels, cs =>
    match skip cs with
    | '\x22' :: rest =>
      match readString [] rest with
      | none => none
      | some (key, rest) =>
        match skip rest with
        | ':' :: rest =>
          match readValue range fuel levels rest with
          | none => none
          | some (v, rest) =>
            let m := (String.ofList key, v)
            match skip rest with
            | ',' :: rest => (readMembers range fuel levels rest).map fun r => (m :: r.1, r.2)
            | '}' :: rest => some ([m], rest)
            | _ => none
        | _ => none
    | _ => none
end

/-- The value that a whole text writes, nesting at most so many levels deep. -/
def parse? (range : Range) (levels : Nat) (text : String) : Option Json :=
  match readValue range (text.length + 1) levels text.toList with
  | some (v, rest) => if (skip rest).isEmpty then some v else none
  | none => none

end Concordance.Json
