import Concordance.Markup.Node
import Concordance.Text.Position

/-!
# Diagnostics

A diagnostic names the rule that an element breaks and says how. One about the contents of an
element also has the line and column in the text of the element. Problems with the contents of a
document are diagnostics and never stop the processing of it.
-/

namespace Concordance

/-- What a diagnostic is about. -/
inductive DiagnosticKind where
  | node
  | contents
  deriving DecidableEq, Repr, Inhabited

/-- A problem at an element. -/
structure Diagnostic where
  kind : DiagnosticKind
  rule : String
  message : String
  /-- The element's name, attributes and key. -/
  subject : Tag
  line : Option Int
  column : Option Int
  deriving DecidableEq, Repr, Inhabited

namespace Diagnostic

/-- What keeps a diagnostic from being made. -/
inductive Defect where
  | emptyRule
  | noPlace
  deriving DecidableEq, Repr

/-- The defect in words. -/
def Defect.message : Defect → String
  | .emptyRule => "rule_id cannot be empty"
  | .noPlace => "contents diagnostics must carry line and column"

/-- A diagnostic that names a rule and, if it is about contents, has a line and a column. -/
def make? (kind : DiagnosticKind) (rule message : String) (subject : Tag)
    (line column : Option Int) : Except Defect Diagnostic :=
  if rule = "" then .error .emptyRule
  else if kind = .contents ∧ (line = none ∨ column = none) then .error .noPlace
  else .ok ⟨kind, rule, message, subject, line, column⟩

/-- A diagnostic at an element. -/
def atNode (subject : Tag) (rule message : String) : Diagnostic :=
  ⟨.node, rule, message, subject, none, none⟩

/-- A diagnostic at an offset of the text of an element. -/
def inContents (subject : Tag) (source : List Char) (offset : Int) (rule message : String) :
    Diagnostic :=
  let (line, column) := Text.lineColumn source offset
  ⟨.contents, rule, message, subject, some line, some column⟩

/-- A number that may be missing. -/
def numberText : Option Int → String
  | none => "None"
  | some n => toString n

/-- The place of a diagnostic: the element with its id, then the line and column. -/
def location (d : Diagnostic) : String :=
  let id := ((d.subject.filled? "id").map fun id => " id=\x22" ++ id ++ "\x22").getD ""
  let place :=
    (d.line.map fun line => ":" ++ toString line ++ ":" ++ numberText d.column).getD ""
  "<" ++ d.subject.name ++ id ++ ">" ++ place

end Diagnostic

end Concordance
