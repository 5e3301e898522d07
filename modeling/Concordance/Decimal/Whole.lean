import Concordance.Text.Blank
import Concordance.Text.Digit

/-!
# Whole numbers written as text

A whole number may be surrounded by spaces, carry one sign, use the decimal digits of any script,
start with zeros, and have a single underscore between two digits; nothing else is one. The
separators U+001C to U+001F are blank elsewhere and no space here.
-/

namespace Concordance.Decimal

/-- The value of digits with single underscores between them, `acc` being the value so far. -/
def wholeFrom? : (acc : Nat) → List Char → Option Nat
  | acc, [] => some acc
  | acc, '_' :: c :: cs => (Text.digitValue? c).bind fun d => wholeFrom? (10 * acc + d) cs
  | acc, c :: cs => (Text.digitValue? c).bind fun d => wholeFrom? (10 * acc + d) cs

/-- The value of a text that starts with a digit. -/
def natural? : List Char → Option Nat
  | [] => none
  | c :: cs => (Text.digitValue? c).bind fun d => wholeFrom? d cs

/-- The blanks that may surround a number. -/
def isSpace (c : Char) : Bool := Text.isBlank c && !(0x1c ≤ c.toNat && c.toNat ≤ 0x1f)

/-- A text without the spaces at its ends. -/
def trimSpaces (cs : List Char) : List Char :=
  ((cs.dropWhile isSpace).reverse.dropWhile isSpace).reverse

/-- Whether a text starts with a minus sign, and the text without its sign. -/
def unsigned : List Char → Bool × List Char
  | '+' :: ds => (false, ds)
  | '-' :: ds => (true, ds)
  | ds => (false, ds)

/-- The value of a text that is a whole number. -/
def whole? (cs : List Char) : Option Int :=
  let (negative, ds) := unsigned (trimSpaces cs)
  (natural? ds).map fun n => if negative then -(n : Int) else n

/-! ## The number of digits -/

/-- The most digits that a whole number is read with. -/
def maxDigits : Nat := 4300

/-- Whether a character is a decimal digit. -/
def isDigit (c : Char) : Bool := (Text.digitValue? c).isSome

/-- The number of digits of the numeral at the start of a text, if these are too many; what follows
the numeral does not matter. -/
def excess? (cs : List Char) : Option Nat :=
  let run := (unsigned (trimSpaces cs)).2.takeWhile fun c => c = '_' || isDigit c
  let count := run.countP isDigit
  if maxDigits < count && (natural? run).isSome then some count else none

/-- What is said of a numeral with too many digits. -/
def excessMessage (count : Nat) : String :=
  "Exceeds the limit (" ++ toString maxDigits ++
    " digits) for integer string conversion: value has " ++ toString count ++
    " digits; use sys.set_int_max_str_digits() to increase the limit"

end Concordance.Decimal
