import Concordance.Text.Ranges

/-!
# Blank characters

The blank characters of every script, and the text left when they are taken off the ends. All
trimming and every test for empty text in the library uses this one class: it contains the
controls U+001C to U+001F and the no-break spaces, and it does not contain U+200B or U+FEFF.
`trimLeft_eq_nil_iff` says that trimming leaves nothing exactly of a blank text.
-/

namespace Concordance.Text

/-- The ranges of blank characters. -/
def blankRanges : List (Nat × Nat) :=
  [(0x9, 0xd), (0x1c, 0x20), (0x85, 0x85), (0xa0, 0xa0), (0x1680, 0x1680), (0x2000, 0x200a),
   (0x2028, 0x2029), (0x202f, 0x202f), (0x205f, 0x205f), (0x3000, 0x3000)]

/-- Spaces, line breaks and separators of every script. -/
def isBlank (c : Char) : Bool := inRanges blankRanges c.toNat

/-- A text without the blanks at its start. -/
def trimLeft (cs : List Char) : List Char := cs.dropWhile isBlank

/-- A text without the blanks at its end. -/
def trimRight (cs : List Char) : List Char := (cs.reverse.dropWhile isBlank).reverse

/-- A text without the blanks at its ends. -/
def trim (cs : List Char) : List Char := trimRight (trimLeft cs)

/-- Whether a text holds nothing but blanks. -/
def allBlank (cs : List Char) : Bool := cs.all isBlank

/-- The number of blanks at the start of a text. -/
def leading (cs : List Char) : Nat := (cs.takeWhile isBlank).length

/-- The maximal runs of characters that are not blank, in order. -/
def words (cs : List Char) : List (List Char) :=
  (cs.splitOnP isBlank).filter (· ≠ [])

/-- `trim` on strings. -/
def trimString (s : String) : String := String.ofList (trim s.toList)

theorem trimLeft_eq_nil_iff {cs : List Char} : trimLeft cs = [] ↔ allBlank cs = true := by
  induction cs with
  | nil => simp [trimLeft, allBlank]
  | cons c cs ih => cases h : isBlank c <;> simp_all [trimLeft, allBlank]

theorem leading_add_length_trimLeft (cs : List Char) :
    leading cs + (trimLeft cs).length = cs.length := by
  rw [leading, trimLeft, ← List.length_append, List.takeWhile_append_dropWhile]

end Concordance.Text
