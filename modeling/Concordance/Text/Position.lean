/-!
# Lines and columns

The place of an offset in a text, as a line and a column that both start at one. A line ends at a
line feed and nowhere else. An offset outside the text stands for the nearer end of it.
-/

namespace Concordance.Text

/-- The column after the last character of a text: one more than what follows its last line feed. -/
def lastColumn (cs : List Char) : Nat := (cs.reverse.takeWhile (· ≠ '\n')).length + 1

/-- The line and column of an offset. -/
def lineColumn (source : List Char) (offset : Int) : Nat × Nat :=
  let before := source.take offset.toNat
  (before.count '\n' + 1, lastColumn before)

end Concordance.Text
