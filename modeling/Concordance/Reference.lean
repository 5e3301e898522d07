import Concordance.Diagnostic
import Concordance.Index.Basic
import Concordance.Markup.Content

/-!
# References

A reference leads to an entry, by an id or by the name of an operation. A name is looked up in the
namespace where the reference is written and then in that of the document. A reference that leads
nowhere is reported and stays as it is; one that leads to an entry becomes a link. The link takes
the contents of the reference, or a label made for the entry where the contents are blank.
-/

namespace Concordance

/-- A reference in a document. -/
structure Reference where
  /-- The key of the element. -/
  key : Nat
  /-- The namespace where it is written. -/
  scope : String
  /-- The number of the clause around it. -/
  clause : Option String
  deriving DecidableEq, Repr, Inhabited

/-- Where a reference leads. -/
structure Target where
  entry : Entry
  anchor : Json
  label : String
  deriving Inhabited, BEq, Repr

namespace Reference

/-! ## Looking up -/

/-- What is reported of a reference to something that is not an id in a document. -/
def noFragment (tag : Tag) (href : String) : Diagnostic :=
  .atNode tag "invalid-xref"
    ("xref to anything other than a fragment id is not supported (is " ++ Text.quote href ++
      "); use href=\x22#sec-id\x22 instead")

/-- What is reported of a reference to an id that no entry has. -/
def unknownId (tag : Tag) (id : String) : Diagnostic :=
  .atNode tag "xref-not-found" ("can't find clause, table or operation with id " ++ id)

/-- What is reported of a reference to an operation that is not known. -/
def unknownOperation (tag : Tag) (aoid scope : String) : Diagnostic :=
  .atNode tag "xref-not-found"
    ("can't find abstract op with aoid " ++ aoid ++ " in namespace " ++ scope)

/-- What is reported of a reference to nothing. -/
def noTarget (tag : Tag) : Diagnostic :=
  .atNode tag "invalid-xref" "<emu-xref> must have an href or aoid attribute"

/-- The entry that an address leads to. -/
def byAddress (ix : Index) (tag : Tag) (href : String) : Except Diagnostic Entry :=
  match href.toList with
  | '#' :: id =>
    let id := String.ofList id
    match ix.find? (.string id) with
    | some e => .ok e
    | none => .error (unknownId tag id)
  | _ => .error (noFragment tag href)

/-- The operation that a name leads to, first in one namespace and then in another. -/
def byName (ix : Index) (tag : Tag) (aoid scope fallback : String) : Except Diagnostic Entry :=
  match (ix.operation? scope aoid).or (ix.operation? fallback aoid) with
  | some o => .ok (.operation o)
  | none => .error (unknownOperation tag aoid scope)

/-- The entry that a reference element leads to. -/
def lookUp (ix : Index) (tag : Tag) (scope fallback : String) : Except Diagnostic Entry :=
  match tag.filled? "href", tag.filled? "aoid" with
  | some href, _ => byAddress ix tag href
  | none, some aoid => byName ix tag aoid scope fallback
  | none, none => .error (noTarget tag)

/-! ## Links -/

/-- The label of an entry: its title or caption where the reference asks for that, or else its
number or name. -/
def labelOf (tag : Tag) : Entry → String
  | .clause c => if tag.has "title" then c.title else c.number
  | .table t => if tag.has "title" && t.caption ≠ "" then t.caption else t.label
  | .operation o => o.aoid

/-- The link to an anchor. -/
def link (anchor : Json) (contents : List Node) : Node :=
  .new "a" [("href", "#" ++ anchor.asText)] contents

/-- The contents of a link: those of the reference, or the label where these are blank. -/
def linkContents (label : String) (contents : List Node) : List Node :=
  if contents.all Node.isBlank then [.plain label] else contents

/-- The reference element with its contents in a link. -/
def linked (t : Target) (n : Node) : Node :=
  n.withChildren [link t.anchor (linkContents t.label n.children)]

/-- Where a reference element leads, or what is wrong with it. An entry without an anchor is found,
but there is nowhere for a link to go. -/
def resolve (ix : Index) (tag : Tag) (scope fallback : String) :
    Except Diagnostic (Option Target) := do
  let e ← lookUp ix tag scope fallback
  return if e.anchor.isNull then none else some ⟨e, e.anchor, labelOf tag e⟩

end Reference

end Concordance
