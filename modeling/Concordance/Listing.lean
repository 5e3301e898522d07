import Concordance.Markup.Keys
import Concordance.Reference

/-!
# Listings of concrete methods

A listing names an abstract method and becomes a list of references, one to each concrete method of
that name in the namespace of the listing, in the order of the index. The label of a reference is
the number of the clause that declares the method and the type that the method is for. A method that
no clause declares is listed too, and reported. What an imported index gives for a label may be no
text; then the listing cannot be written.
-/

namespace Concordance

/-- A listing in a document. -/
structure Listing where
  /-- The key of the element. -/
  key : Nat
  /-- The name of the abstract method. -/
  aoid : String
  /-- The namespace where it is written. -/
  scope : String
  /-- The number of the clause around it. -/
  clause : Option String
  deriving DecidableEq, Repr, Inhabited

namespace Listing

/-- What is reported of a method that no clause declares. -/
def noClause (tag : Tag) (aoid : String) (anchor : Json) : Diagnostic :=
  .atNode tag "concrete-method-dfns"
    ("concrete definition of " ++ aoid ++ " at #" ++ anchor.asText ++ " is not a clause")

/-- The text of an optional value. -/
def setText (v : Json) : String := if v.isSet then v.asText else ""

/-- The label of a method: the number of its clause and the type that it is for; without a clause
that type alone, or else the anchor, which are no texts in every index. -/
def labelOf (ix : Index) (o : OperationEntry) : Json :=
  match ix.find? o.anchor with
  | some (.clause c) => .string (Text.trimString (c.number ++ " " ++ setText o.forType))
  | _ => if o.forType.isSet then o.forType else o.anchor

/-- What is reported of a method. -/
def reportOf (ix : Index) (tag : Tag) (o : OperationEntry) : List Diagnostic :=
  match ix.find? o.anchor with
  | some (.clause _) => []
  | _ => [noClause tag o.aoid o.anchor]

/-- Whether a method can be listed: its anchor can be an id and its label is a text. -/
def isListable (ix : Index) (o : OperationEntry) : Bool :=
  o.anchor.key?.isSome && (labelOf ix o).isText

/-- The element with a key. -/
def keyed (key : Nat) : Node → Node
  | .element tag children removed => .element { tag with key := some key } children removed
  | n => n

/-- The item that refers to an anchor, the element of the reference having a key. -/
def item (key : Nat) (anchor : Json) (label : String) : Node :=
  .new "li" []
    [keyed key (.new "emu-xref" [("href", "#" ++ anchor.asText)] [.plain label])]

/-- The items of a listing, from a key on. -/
def items (ix : Index) : (key : Nat) → List OperationEntry → List Node
  | _, [] => []
  | key, o :: os => item key o.anchor (labelOf ix o).asText :: items ix (key + 1) os

/-- The methods that a listing names; one without an anchor is passed over. -/
def methods (l : Listing) (ix : Index) : List OperationEntry :=
  (ix.concreteMethods l.scope l.aoid).filter (!·.anchor.isNull)

/-- The element of a listing with its list appended, the references having keys from one on. -/
def expanded (l : Listing) (ix : Index) (key : Nat) (n : Node) : Node :=
  Node.append (.new "ul" [] (items ix key (l.methods ix))) n

/-- The references of a listing, from a key on. -/
def references (l : Listing) (ix : Index) (key : Nat) : List Reference :=
  (List.range (l.methods ix).length).map fun i => ⟨key + i, l.scope, l.clause⟩

/-- Whether all methods of a listing can be listed. -/
def isWritable (l : Listing) (ix : Index) : Bool := (l.methods ix).all (isListable ix)

/-- What is reported of the methods of a listing, up to the first that cannot be listed. -/
def reports (l : Listing) (ix : Index) (tag : Tag) : List Diagnostic :=
  ((l.methods ix).takeWhile (isListable ix) ++
    ((l.methods ix).dropWhile (isListable ix)).take 1).flatMap (reportOf ix tag)

end Listing

end Concordance
