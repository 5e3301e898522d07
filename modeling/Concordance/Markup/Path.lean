import Concordance.Markup.Node

/-!
# Paths

A path leads from a node to one below it by the indices of the children on the way.
-/

namespace Concordance.Node

/-- The node at the end of a path. -/
def at? : Node → List Nat → Option Node
  | n, [] => some n
  | n, i :: path => n.children[i]?.bind fun c => c.at? path

/-- The tree with a change made at the end of a path. -/
def modifyAt (f : Node → Node) : List Nat → Node → Node
  | [], n => f n
  | i :: path, n => n.withChildren (n.children.modify i (modifyAt f path))

/-- The node at the end of a path and its following siblings; a root has none. -/
def siblingsAt (n : Node) : List Nat → List Node
  | [] => [n]
  | [i] => n.children.drop i
  | i :: path => (n.children[i]?.map fun c => c.siblingsAt path).getD []

end Concordance.Node
