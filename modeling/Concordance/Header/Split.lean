/-!
# Splitting a parameter list

The text after the opening parenthesis of a header is cut at its top-level commas up to the
parenthesis that closes the list. Brackets of all three kinds nest; a closing bracket that does not
match the innermost open one is passed over. `split` walks over the text once with the stack of
closing brackets it waits for.
-/

namespace Concordance.Header

/-- A piece of a parameter list with the offset it starts at. -/
structure Chunk where
  text : List Char
  offset : Nat
  deriving DecidableEq, Repr, Inhabited

/-- The bracket that closes an opening one. -/
def closer? (c : Char) : Option Char :=
  if c = '(' then some ')' else if c = '{' then some '}' else if c = '[' then some ']' else none

/-- Whether a character is a closing bracket. -/
def isCloser (c : Char) : Bool := c = ')' || c = '}' || c = ']'

/-- The rest of the piece being read, the pieces after it, and the offset of the closing
parenthesis. -/
structure Pieces where
  rest : List Char
  more : List Chunk
  close : Nat
  deriving DecidableEq, Repr

/-- The same pieces with one more character at the start of the first. -/
def Pieces.cons (c : Char) (p : Pieces) : Pieces := { p with rest := c :: p.rest }

/-- Cuts a text that starts at an offset inside the brackets that the stack waits for; none when
the list is not closed. -/
def split : (stack : List Char) → (offset : Nat) → List Char → Option Pieces
  | _, _, [] => none
  | stack, offset, c :: cs =>
    match closer? c with
    | some k => (split (k :: stack) (offset + 1) cs).map (·.cons c)
    | none =>
      if isCloser c then
        if stack.head? = some c then (split stack.tail (offset + 1) cs).map (·.cons c)
        else if stack = [] ∧ c = ')' then some ⟨[], [], offset⟩
        else (split stack (offset + 1) cs).map (·.cons c)
      else if c = ',' ∧ stack = [] then
        (split [] (offset + 1) cs).map fun p => ⟨[], ⟨p.rest, offset + 1⟩ :: p.more, p.close⟩
      else (split stack (offset + 1) cs).map (·.cons c)

/-- The pieces of a parameter list whose text starts at an offset, and where it is closed. -/
def chunks? (offset : Nat) (cs : List Char) : Option (List Chunk × Nat) :=
  (split [] offset cs).map fun p => (⟨p.rest, offset⟩ :: p.more, p.close)

end Concordance.Header
