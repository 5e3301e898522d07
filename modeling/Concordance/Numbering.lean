/-!
# Clause numbers

Clauses are numbered while a document is read in order. The state holds one counter per level,
outermost first, and whether the first top-level annex has been reached. A clause at some depth
raises the counter of its level and drops the deeper ones. Numbers are written with points between
the counters; from the first top-level annex on, the outermost counter starts again and is written
in letters: A to Z, then AA, AB and so on.

`Numbering.next` is one step; it fails, and leaves the state to its caller, for a depth below zero
or beyond the deepest counter.
-/

namespace Concordance

/-- The two kinds of numbered sections. -/
inductive ClauseKind where
  | clause
  | annex
  deriving DecidableEq, Repr, Inhabited

/-- The counters of the last clause numbered. -/
structure Numbering where
  counters : List Int
  inAnnex : Bool
  deriving DecidableEq, Repr, Inhabited

namespace Numbering

/-- Why a clause gets no number. -/
inductive Fault where
  | negativeDepth (depth : Int)
  | noParent (depth : Int) (deepest : Nat)
  | noLetter (ordinal : Int)
  deriving DecidableEq, Repr

/-- The fault in words. -/
def Fault.message : Fault → String
  | .negativeDepth depth => "depth must be >= 0, got " ++ toString depth
  | .noParent depth deepest =>
    "clause at depth " ++ toString depth ++ " has no numbered parent (deepest counter is " ++
      toString deepest ++ ")"
  | .noLetter ordinal => "annex ordinal must be > 0, got " ++ toString ordinal

/-- The state before the first clause. -/
def start : Numbering := ⟨[], false⟩

/-! ## Annex letters -/

/-- The capital letter with an index below 26. -/
def letter (i : Nat) : Char := Char.ofNat (65 + i)

/-- The letters of a positive ordinal: the numeral to the base 26 whose digits are A to Z. -/
def letters : Nat → List Char
  | 0 => []
  | n + 1 => letters (n / 26) ++ [letter (n % 26)]
  decreasing_by omega

/-- The letters of an ordinal, if it is positive. -/
def annexLetters (ordinal : Int) : Except Fault (List Char) :=
  if 0 < ordinal then .ok (letters ordinal.toNat) else .error (.noLetter ordinal)

/-! ## Numbers -/

/-- A counter in decimal digits. -/
def decimal (n : Int) : List Char := (toString n).toList

/-- A counter after the outermost one, with the point before it. -/
def part (n : Int) : List Char := '.' :: decimal n

/-- The number that a state writes; nothing before the first clause. -/
def text (s : Numbering) : Except Fault (List Char) :=
  match s.counters with
  | [] => .ok []
  | top :: rest =>
    (if s.inAnnex then annexLetters top else .ok (decimal top)).map (· ++ rest.flatMap part)

/-- The counters after a clause at the outermost level. -/
def top (s : Numbering) (kind : ClauseKind) : Numbering :=
  if kind = .annex ∧ s.inAnnex = false then ⟨[1], true⟩
  else ⟨[s.counters.headD 0 + 1], s.inAnnex⟩

/-- The counters after a clause at a level inside another clause. -/
def nested (s : Numbering) (depth : Nat) : Numbering :=
  ⟨s.counters.take depth ++ [s.counters.getD depth 0 + 1], s.inAnnex⟩

/-- The state after one more clause at a depth. -/
def advance (s : Numbering) (depth : Int) (kind : ClauseKind) : Except Fault Numbering :=
  if depth < 0 then .error (.negativeDepth depth)
  else if depth = 0 then .ok (s.top kind)
  else if s.counters.length < depth then .error (.noParent depth s.counters.length)
  else .ok (s.nested depth.toNat)

/-- The state after one more clause at a depth, and its number. -/
def next (s : Numbering) (depth : Int) (kind : ClauseKind) :
    Except Fault (Numbering × String) := do
  let t ← s.advance depth kind
  return (t, String.ofList (← t.text))

end Numbering

end Concordance
