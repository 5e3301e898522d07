import Concordance.Clause
import Concordance.Listing
import Concordance.MethodTable

/-!
# Surveying a document

The first pass over a document visits its elements in reading order. Clauses are numbered and
tables counted, both are classified and their headers typeset, and references and listings are
collected for later. The survey only says what the elements call for; nothing is looked up and
nothing is added to an index here.

A header that is typeset takes the place of the contents it had. Elements in the old contents are
not in the document any more, but they are visited at their place all the same, as the roots of
trees of their own: the clauses around the header are not around them.
-/

namespace Concordance

/-- What a survey has found so far. -/
structure Survey where
  numbering : Numbering
  clauses : List Clause
  tables : List MethodTable
  references : List Reference
  listings : List Listing
  /-- What the elements call for, in order. -/
  actions : List Action
  deriving Inhabited

namespace Survey

/-- A survey that has found nothing. -/
def start : Survey := ⟨.start, [], [], [], [], []⟩

/-- The survey after a clause: its number, or the fault that there is none. -/
def clause (s : Survey) (node : Node) (around : List Clause) (scope : String) :
    Clause × Node × Survey :=
  match s.numbering.next around.length (Clause.kindOf node.tag) with
  | .ok (numbering, number) =>
    let (c, node, actions) := Clause.ofNode node around number scope
    (c, node, { s with numbering, clauses := s.clauses ++ [c], actions := s.actions ++ actions })
  | .error f =>
    (Clause.undeclared node around "" scope, node,
      { s with actions := s.actions ++ [.halt (.numbering f)] })

/-- The survey after a table. -/
def table (s : Survey) (node : Node) (scope : String) : Node × Survey :=
  let (t, node, actions) := MethodTable.ofNode node scope (s.tables.length + 1)
  (node, { s with tables := s.tables ++ [t], actions := s.actions ++ actions })

/-- The survey after a reference. -/
def reference (s : Survey) (r : Reference) : Survey := { s with references := s.references ++ [r] }

/-- What is reported of a listing that names no method. -/
def noMethod (tag : Tag) : Diagnostic :=
  .atNode tag "concrete-method-dfns" "<emu-concrete-method-dfns> must have a 'for' attribute"

/-- The survey after a listing. -/
def listing (s : Survey) (tag : Tag) (key : Nat) (scope : String) (clause : Option String) :
    Survey :=
  match tag.filled? "for" with
  | some aoid => { s with listings := s.listings ++ [⟨key, aoid, scope, clause⟩] }
  | none => { s with actions := s.actions ++ [.report (noMethod tag)] }

/-- The survey after an element with a key, the element as it is then, and the clauses around its
children. -/
def enter (s : Survey) (node : Node) (key : Nat) (around : List Clause) (scope : String) :
    Node × List Clause × Survey :=
  let tag := node.tag
  let here := (around.head?.map (·.scope)).getD scope
  let number := around.head?.map (·.number)
  if Clause.names.contains tag.name then
    let (c, node, s) := s.clause node around scope
    (node, c :: around, s)
  else if tag.name = "emu-table" then
    let (node, s) := s.table node here
    (node, around, s)
  else if tag.name = "emu-xref" then (node, around, s.reference ⟨key, here, number⟩)
  else if tag.name = "emu-concrete-method-dfns" then
    (node, around, s.listing tag key here number)
  else (node, around, s)

/-- Visits nodes one after another. -/
def visitAll (visit : Survey → Node → Node × Survey) : Survey → List Node → List Node × Survey
  | s, [] => ([], s)
  | s, n :: ns =>
    let (n, s) := visit s n
    let (ns, s) := visitAll visit s ns
    (n :: ns, s)

/-- Visits an element and then everything below it, so many levels deep. Generated elements, which
have no key, are left alone. -/
def visit (scope : String) : (levels : Nat) → List Clause → Survey → Node → Node × Survey
  | 0, _, s, n => (n, s)
  | levels + 1, around, s, n =>
    match n.tag?.bind Tag.key with
    | none => (n, s)
    | some key =>
      match s.enter n key around scope with
      | (.element tag children removed, around, s) =>
        let (removed, s) := visitAll (visit scope levels []) s removed
        let (children, s) := visitAll (visit scope levels around) s children
        (.element tag children removed, s)
      | (n, _, s) => (n, s)

/-- Visits everything below a root. -/
def ofRoot (scope : String) (root : Node) : Node × Survey :=
  let (children, s) := visitAll (visit scope root.height []) start root.children
  (root.withChildren children, s)

end Survey

end Concordance
