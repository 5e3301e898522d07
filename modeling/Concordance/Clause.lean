import Concordance.Action
import Concordance.Declaration
import Concordance.Markup.Siblings

/-!
# Clauses

Every clause and annex gets a number, and one with an id is an entry of the index. A clause of one
of the operation types has an operation header for its heading: the header is typeset, and the
operation becomes an entry before the clause does, referring to the clause by its id. The number is
put at the start of the heading of every clause.

A clause is in the namespace that it names, or else in the one of the clause around it, or else in
the one of the document.
-/

namespace Concordance

/-- What is known of a clause. -/
structure Clause where
  /-- The clause's name, attributes and key. -/
  tag : Tag
  number : String
  title : String
  scope : String
  kind : ClauseKind
  /-- The number of the clause around it. -/
  parent : Option String
  type : Option String
  signature : Option Signature
  deriving Inhabited, BEq, Repr

namespace Clause

/-- The names of numbered elements. -/
def names : List String := ["emu-clause", "emu-annex"]

/-- The types of the clauses that declare an operation. -/
def operationTypes : List String :=
  ["abstract operation", "abstract method", "concrete method", "internal method", "numeric method",
   "host-defined abstract operation", "implementation-defined abstract operation"]

/-- The id of a clause. -/
def id? (c : Clause) : Option String := c.tag.filled? "id"

/-! ## Parts of a clause -/

/-- The namespace of a clause among the clauses around it, innermost first. -/
def scopeOf (tag : Tag) (around : List Clause) (scope : String) : String :=
  (tag.filled? "namespace").getD ((around.head?.map (·.scope)).getD scope)

/-- The heading of a clause. -/
def heading? (node : Node) : Option Node := node.children.find? (·.isNamed "h1")

/-- The clause with a change made at its heading. -/
def modifyHeading (f : Node → Node) (node : Node) : Node :=
  match node.children.findIdx? (·.isNamed "h1") with
  | some i => node.withChildren (node.children.modify i f)
  | none => node

/-- The description list that belongs to the header of an operation. -/
def headerList? (node : Node) : Option Node :=
  node.children.find? fun n => n.isNamed "dl" && n.tag.hasClass "header"

/-- The type that a header's list of terms gives under `for`: `term` says whether the last term is
this one, and the last description of it counts. -/
def forTypeIn : (term : Bool) → (value : Option String) → List Node → Option String
  | _, value, [] => value
  | term, value, n :: ns =>
    if n.isNamed "dt" then forTypeIn (n.labelText.toList.map Char.toLower = "for".toList) value ns
    else if n.isNamed "dd" && term then forTypeIn false (some n.labelText) ns
    else forTypeIn term value ns

/-- The type that a clause says its operation is for. -/
def forType? (node : Node) : Option String :=
  ((headerList? node).bind fun dl => forTypeIn false none dl.elements).filter (· ≠ "")

/-- The effects that a clause lists, separated by commas. -/
def effects (tag : Tag) : List Json :=
  (((tag.get? "effects").getD "").toList.splitOn ',').filterMap fun e =>
    let e := Text.trim e
    if e = [] then none else some (.string (String.ofList e))

/-- The number at the start of a heading. -/
def numberSpan (number : String) : Node :=
  .new "span" [("class", "secnum")] [.plain number]

/-! ## Registration -/

/-- The entry of the operation that a clause with an id declares. -/
def operationEntry (c : Clause) (node : Node) (s : Signature) (id : String) : OperationEntry where
  aoid := s.name
  kind := c.type.getD ""
  scope := c.scope
  signature := some s
  effects := effects c.tag
  id := .null
  refId := .string id
  forType := .ofOption (forType? node)

/-- What is reported of a concrete method that is for nothing. -/
def noForType (c : Clause) : Diagnostic :=
  .atNode c.tag "concrete-method-for"
    "concrete methods must declare the type they are for in a <dl class=\x22header\x22>"

/-- What is reported of an operation without an id. -/
def noId (c : Clause) : Diagnostic :=
  .atNode c.tag "clause-id-required"
    (c.type.getD "" ++ " clauses must have an id to be referenced")

/-- What the operation that a clause declares calls for. -/
def operationActions (c : Clause) (node : Node) (s : Signature) : List Action :=
  (if c.type = some concreteMethod ∧ forType? node = none then [.report c.noForType] else []) ++
    match c.id? with
    | none => [.report c.noId]
    | some id => [.add (.operation (c.operationEntry node s id))]

/-- What is reported of an operation without a heading. -/
def noHeading (c : Clause) : Diagnostic :=
  .atNode c.tag "missing-header"
    ("<" ++ c.tag.name ++ " type=\x22" ++ c.type.getD "" ++ "\x22> has no <h1>")

/-- A clause as the declaration in its heading leaves it, its node, and what that calls for. -/
def declare (c : Clause) (node : Node) : Clause × Node × List Action :=
  if c.type.any (operationTypes.contains ·) then
    match heading? node with
    | none => (c, node, [.report c.noHeading])
    | some h =>
      match h.declaration with
      | .error ds => (c, node, ds.map .report)
      | .ok s =>
        ({ c with title := s.name, signature := some s }, modifyHeading (Node.typeset s) node,
          c.operationActions node s)
  else (c, node, [])

/-- What the clause itself calls for: an entry, if it has an id. -/
def clauseActions (c : Clause) (around : List Clause) : List Action :=
  match c.id? with
  | none => []
  | some id =>
    [.add (.clause
      { id, number := c.number, title := c.title, scope := c.scope
        parent := .ofOption (around.head?.bind (·.id?)), refId := .null })]

/-- The kind of a numbered element. -/
def kindOf (tag : Tag) : ClauseKind := if tag.name = "emu-annex" then .annex else .clause

/-- The clause that a node with a number is, before its heading is read as a declaration. -/
def undeclared (node : Node) (around : List Clause) (number scope : String) : Clause where
  tag := node.tag
  number := number
  title := String.ofList ((heading? node).map Node.headerSource |>.getD [])
  scope := scopeOf node.tag around scope
  kind := kindOf node.tag
  parent := around.head?.map (·.number)
  type := node.tag.filled? "type"
  signature := none

/-- The clause that a node with a number is, the node after typesetting, and what it calls for:
what its operation calls for, then its own entry. -/
def ofNode (node : Node) (around : List Clause) (number scope : String) :
    Clause × Node × List Action :=
  let (c, node, actions) := (undeclared node around number scope).declare node
  (c, modifyHeading (Node.prepend (numberSpan number)) node,
    actions ++ c.clauseActions around)

end Clause

end Concordance
