/-!
# Text escaped for markup

The five characters with a meaning in markup, written as character references: an escaped text can
stand in the content of an element or in a quoted attribute value.
-/

namespace Concordance.Text

/-- The reference for a character with a meaning in markup, and any other character itself. -/
def escapeChar (c : Char) : List Char :=
  if c = '&' then "&amp;".toList
  else if c = '<' then "&lt;".toList
  else if c = '>' then "&gt;".toList
  else if c = '\x22' then "&quot;".toList
  else if c = '\x27' then "&#x27;".toList
  else [c]

/-- A text with every character that has a meaning in markup written as a reference. -/
def escape (cs : List Char) : List Char := cs.flatMap escapeChar

theorem escape_append (cs ds : List Char) : escape (cs ++ ds) = escape cs ++ escape ds := by
  simp [escape]

end Concordance.Text
