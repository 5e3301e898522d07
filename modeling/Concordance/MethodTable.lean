import Concordance.Action
import Concordance.Declaration
import Concordance.Markup.Siblings

/-!
# Tables

Every table with an id is an entry of the index. A table of abstract methods also declares a method
in each of its rows: the first cell holds the header of the method and the second one describes it.
The header of a row may be marked as a change: a leading deletion is passed over, and a leading
insertion is the header itself. A row that declares a method gets its header typeset and a sentence
about the method at the start of its description. Every other row stays as it is, and what is wrong
with it is reported.
-/

namespace Concordance

/-- A method declared in a row. -/
structure Method where
  name : String
  signature : Signature
  rowId : Option String
  deriving Inhabited, BEq, Repr

/-- What is known of a table. -/
structure MethodTable where
  /-- The table's name, attributes and key. -/
  tag : Tag
  /-- Whether there is a table element in it. -/
  hasTable : Bool
  /-- The type, if it is a valid one and the table is well formed. -/
  type : Option String
  /-- What the methods belong to. -/
  owner : Option String
  number : Int
  methods : List Method
  deriving Inhabited, BEq, Repr

namespace MethodTable

/-- The type of the tables that declare methods. -/
def methodsType : String := "abstract methods"

/-- The id of a table. -/
def id? (t : MethodTable) : Option String := t.tag.filled? "id"

/-! ## The header of a row -/

/-- Whether a node marks a deletion. -/
def isDeletion (n : Node) : Bool := n.isNamed "del"

/-- Where the header of a row is: its first cell itself, or one of the cell's children. -/
inductive Place where
  | cell
  | child (i : Nat)
  deriving DecidableEq, Repr

namespace Place

/-- The node at a place of a cell. -/
def node : Place → Node → Node
  | .cell, n => n
  | .child i, n => n.children.getD i n

/-- The cell with a change made at a place. -/
def modify (f : Node → Node) : Place → Node → Node
  | .cell, n => f n
  | .child i, n => n.withChildren (n.children.modify i f)

end Place

/-- Where the header in a cell is; nowhere when all that shows in it is deleted. -/
def headerPlace? (cell : Node) : Option Place :=
  let count := cell.children.length
  match Node.traverseWhile .node Node.isEmpty cell.children with
  | [] => some .cell
  | first :: rest =>
    if isDeletion first then
      match Node.traverseWhile .element isDeletion (first :: rest) with
      | [] => none
      | found => some (.child (count - found.length))
    else if first.isNamed "ins" then some (.child (count - (rest.length + 1)))
    else some .cell

/-! ## Rows -/

/-- Changes made to the elements among nodes, one after another from the first. -/
def modifyElements : List (Node → Node) → List Node → List Node
  | [], ns => ns
  | _, [] => []
  | f :: fs, n :: ns =>
    if n.isElement then f n :: modifyElements fs ns else n :: modifyElements (f :: fs) ns

/-- A row after it has been read. -/
structure Row where
  node : Node
  method : Option Method
  diagnostics : List Diagnostic

/-- The sentence about a method; `inserted` if its header is marked as an insertion. -/
def sentence (s : Signature) (inserted : Bool) : List Char :=
  let t := s.typeset
  let text := "The abstract method ".toList ++ t.name ++ " takes ".toList ++ t.params ++
    " and returns ".toList ++ t.returns ++ ['.']
  if inserted then "<ins>".toList ++ text ++ "</ins>".toList else text

/-- The paragraph with the sentence about a method. -/
def paragraph (s : Signature) (inserted : Bool) : Node :=
  .new "p" [] (Markup.parse (sentence s inserted))

/-- The row with the header at a place of its first cell typeset and its second cell describing
the method. -/
def typesetRow (place : Place) (s : Signature) (inserted : Bool) (tr : Node) : Node :=
  tr.withChildren <| modifyElements
    [place.modify (Node.typeset s), Node.prepend (paragraph s inserted)] tr.children

/-- A row that stays as it is. -/
def unchanged (tr : Node) (ds : List Diagnostic) : Row := ⟨tr, none, ds⟩

/-- What is reported of a row with fewer than two cells. -/
def tooFewCells (tr : Node) : Diagnostic :=
  .atNode tr.tag "emu-abstract-methods-invalid"
    "<emu-table type=\x22abstract methods\x22> <tr>s must contain at least two <td>s"

/-- What is reported of an element that can be no header. -/
def noHeader (header : Node) : Diagnostic :=
  .atNode header.tag "missing-header"
    ("could not locate header element; found <" ++ header.tag.name ++ ">")

/-- What is reported of one row among others that has no id. -/
def noRowId (tr : Node) : Diagnostic :=
  .atNode tr.tag "abstract-method-id"
    "<tr>s which define abstract methods should have their own id"

/-- Reads the header at a place of a row's first cell. -/
def readHeader (several : Bool) (tr cell : Node) (place : Place) : Row :=
  let header := place.node cell
  if !header.isNamed "td" && !header.isNamed "ins" then unchanged tr [noHeader header]
  else
    match header.declaration with
    | .error ds => unchanged tr ds
    | .ok s =>
      let rowId := tr.tag.filled? "id"
      { node := typesetRow place s (header.isNamed "ins") tr
        method := some ⟨s.name, s, rowId⟩
        diagnostics := if several && rowId.isNone then [noRowId tr] else [] }

/-- Reads a row, one of several or the only one. -/
def readRow (several : Bool) (tr : Node) : Row :=
  match tr.elements with
  | cell :: _ :: _ =>
    match headerPlace? cell with
    | none => unchanged tr []
    | some place => readHeader several tr cell place
  | _ => unchanged tr [tooFewCells tr]

/-! ## The body of a table -/

mutual
/-- The first element of a name below a node, in reading order. -/
def firstNamed? (name : String) : Node → Option Node
  | .text _ _ => none
  | .element _ children _ => firstNamedIn? name children

/-- The first element of a name among trees, in reading order. -/
def firstNamedIn? (name : String) : List Node → Option Node
  | [] => none
  | n :: ns =>
    if n.isNamed name then some n else (firstNamed? name n).or (firstNamedIn? name ns)
end

mutual
/-- The tree with a change made at the first element of a name below its root. -/
def modifyFirst (name : String) (f : Node → Node) : Node → Node
  | .text kind value => .text kind value
  | .element tag children removed => .element tag (modifyFirstIn name f children) removed

/-- Trees with a change made at the first element of a name in them. -/
def modifyFirstIn (name : String) (f : Node → Node) : List Node → List Node
  | [] => []
  | n :: ns =>
    if n.isNamed name then f n :: ns
    else if (firstNamed? name n).isSome then modifyFirst name f n :: ns
    else n :: modifyFirstIn name f ns
end

/-- The element that holds the rows of a table: its first body, or else the table itself. -/
def body (table : Node) : Node := (firstNamed? "tbody" table).getD table

/-- The table with a change made at its body. -/
def modifyBody (f : Node → Node) (table : Node) : Node :=
  if (firstNamed? "tbody" table).isSome then modifyFirst "tbody" f table else f table

/-- Whether a node is a row. -/
def isRow (n : Node) : Bool := n.isNamed "tr"

/-- The rows of a table. -/
def rows (table : Node) : List Node := (body table).children.filter isRow

/-- The rows of a table after they have been read. -/
def readRows (table : Node) : List Row :=
  let trs := rows table
  trs.map (readRow (1 < trs.length))

/-- The table with every row that declares a method typeset. -/
def typesetRows (table : Node) : Node :=
  let several := decide (1 < (rows table).length)
  modifyBody (fun b => b.withChildren
    (b.children.map fun n => if isRow n then (readRow several n).node else n)) table

/-! ## Classification -/

/-- Whether a node has been generated for a table: its caption or an empty span. -/
def isGenerated (n : Node) : Bool :=
  n.isNamed "emu-caption" || (n.isNamed "span" && n.plainText = [])

/-- The siblings from the table element of a node on, if there is one. -/
def fromTable? (node : Node) : Option (Node × List Node) :=
  match Node.traverseWhile .element isGenerated (Node.fromFirstElement node.children) with
  | n :: rest => if n.isNamed "table" then some (n, rest) else none
  | [] => none

/-- A table after it has been classified. -/
structure Classified where
  node : Node
  hasTable : Bool
  type : Option String
  owner : Option String
  methods : List Method
  diagnostics : List Diagnostic

/-- The caption that a table of methods without one gets. -/
def captionOf (owner : String) : String := "Abstract Methods of " ++ owner

/-- A node with its caption, where it has none. -/
def captioned (owner : String) (node : Node) : Node :=
  if (node.tag.filled? "caption").isSome then node else node.setAttr "caption" (captionOf owner)

/-- A well-formed table of methods, whose table element has so many siblings after it. -/
def classifyMethods (node table : Node) (after : Nat) (type owner : String) : Classified :=
  let read := readRows table
  let i := node.children.length - (after + 1)
  { node := (captioned owner node).withChildren (node.children.modify i typesetRows)
    hasTable := true, type := some type, owner := some owner
    methods := read.filterMap (·.method), diagnostics := read.flatMap (·.diagnostics) }

/-- A table that declares nothing and stays as it is. -/
def plainTable (node : Node) (hasTable : Bool) (ds : List Diagnostic) : Classified :=
  ⟨node, hasTable, none, none, [], ds⟩

/-- What a table is and what its rows declare. -/
def classify (node : Node) : Classified :=
  let found := fromTable? node
  match node.tag.filled? "type" with
  | none => plainTable node found.isSome []
  | some type =>
    if type ≠ methodsType then
      plainTable node found.isSome
        [.atNode node.tag "emu-table-invalid-type"
          ("<emu-table> has invalid type \x22" ++ type ++ "\x22")]
    else
      match found with
      | none =>
        plainTable node false
          [.atNode node.tag "emu-table-missing"
            ("<emu-table type=\x22" ++ type ++ "\x22> must contain a <table> element")]
      | some (table, rest) =>
        match node.tag.filled? "of" with
        | none =>
          plainTable node true
            [.atNode node.tag "emu-abstract-methods-invalid"
              "<emu-table type=\x22abstract methods\x22> must have an 'of' attribute"]
        | some owner => classifyMethods node table rest.length type owner

/-! ## Registration -/

/-- What is reported of a method that nothing leads to. -/
def unreferable (tag : Tag) (m : Method) : Diagnostic :=
  .atNode tag "abstract-method-id"
    ("abstract method " ++ m.name ++
      " has no row id and the table has no id; it cannot be referenced")

/-- The entry of a method. -/
def methodEntry (scope : String) (tableId : Option String) (m : Method) : OperationEntry where
  aoid := m.name
  kind := abstractMethod
  scope := scope
  signature := some m.signature
  effects := []
  id := .ofOption m.rowId
  refId := .ofOption tableId
  forType := .null

/-- What a method calls for. -/
def methodAction (tag : Tag) (scope : String) (m : Method) : Action :=
  let tableId := tag.filled? "id"
  if m.rowId.isNone && tableId.isNone then .report (unreferable tag m)
  else .add (.operation (methodEntry scope tableId m))

/-- What the table itself calls for: an entry, if it has an id. -/
def tableActions (tag : Tag) (scope : String) (number : Int) : List Action :=
  match tag.filled? "id" with
  | none => []
  | some id =>
    match TableEntry.make? id number ((tag.get? "caption").getD "") scope .null with
    | .ok t => [.add (.table t)]
    | .error m => [.halt (.entry m)]

/-- The table that a node is, the node after typesetting, and what it calls for: the reports on
its form, then its own entry, then its methods. -/
def ofNode (node : Node) (scope : String) (number : Int) :
    MethodTable × Node × List Action :=
  let c := classify node
  let tag := c.node.tag
  (⟨tag, c.hasTable, c.type, c.owner, number, c.methods⟩, c.node,
    c.diagnostics.map .report ++ tableActions tag scope number ++
      c.methods.map (methodAction tag scope))

end MethodTable

end Concordance
