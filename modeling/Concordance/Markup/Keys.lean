import Concordance.Markup.Node

/-!
# Keys of elements

The elements of a document get their keys in reading order, the root of the document included.
Keys lead to an element wherever it is now: among the children or the removed nodes of another.
-/

namespace Concordance.Node

mutual
/-- The tree with keys from a number on, and the first number that is free. -/
def assignKeys : Nat → Node → Node × Nat
  | next, .text kind value => (.text kind value, next)
  | next, .element tag children removed =>
    let (children, free) := assignAllKeys (next + 1) children
    (.element { tag with key := some next } children removed, free)

/-- Trees with keys from a number on, and the first number that is free. -/
def assignAllKeys : Nat → List Node → List Node × Nat
  | next, [] => ([], next)
  | next, n :: ns =>
    let (n, free) := assignKeys next n
    let (ns, free) := assignAllKeys free ns
    (n :: ns, free)
end

/-- The tree with the keys of a document. -/
def withKeys (n : Node) : Node := (assignKeys 0 n).1

/-- The key of an element. -/
def key? (n : Node) : Option Nat := n.tag?.bind Tag.key

mutual
/-- The element with a key. -/
def find? (key : Nat) : Node → Option Node
  | .text _ _ => none
  | .element tag children removed =>
    if tag.key = some key then some (.element tag children removed)
    else (findIn? key children).or (findIn? key removed)

/-- The element with a key in a list of trees. -/
def findIn? (key : Nat) : List Node → Option Node
  | [] => none
  | n :: ns => (n.find? key).or (findIn? key ns)
end

mutual
/-- The tree with a change made at the element with a key. -/
def modify (key : Nat) (f : Node → Node) : Node → Node
  | .text kind value => .text kind value
  | .element tag children removed =>
    if tag.key = some key then f (.element tag children removed)
    else .element tag (modifyIn key f children) (modifyIn key f removed)

/-- `modify` in a list of trees. -/
def modifyIn (key : Nat) (f : Node → Node) : List Node → List Node
  | [] => []
  | n :: ns => n.modify key f :: modifyIn key f ns
end

mutual
/-- The number of levels of elements. -/
def height : Node → Nat
  | .text _ _ => 0
  | .element _ children removed => max (heightIn children) (heightIn removed) + 1

/-- The greatest number of levels among trees. -/
def heightIn : List Node → Nat
  | [] => 0
  | n :: ns => max n.height (heightIn ns)
end

mutual
/-- A number above all keys of the tree. -/
def keyBound : Node → Nat
  | .text _ _ => 0
  | .element tag children removed =>
    max ((tag.key.map (· + 1)).getD 0) (max (keyBoundIn children) (keyBoundIn removed))

/-- A number above all keys of the trees. -/
def keyBoundIn : List Node → Nat
  | [] => 0
  | n :: ns => max n.keyBound (keyBoundIn ns)
end

end Concordance.Node
