import Concordance.Markup.Content

/-!
# Walking over siblings

A walk starts at a node and goes on while a condition holds, over all siblings or over elements
only. It is taken over the list that starts with the node and goes on with its following siblings,
and gives the list that starts where it stopped, empty when the siblings ran out.
-/

namespace Concordance

/-- Which siblings a walk steps on. -/
inductive SiblingStep where
  | node
  | element
  deriving DecidableEq, Repr

namespace Node

/-- The rest of the siblings from the first at which the condition fails. -/
def traverseWhile (step : SiblingStep) (p : Node → Bool) : List Node → List Node
  | [] => []
  | n :: ns =>
    if p n then
      match step with
      | .node => ns.dropWhile p
      | .element => ns.dropWhile fun m => !m.isElement || p m
    else n :: ns

/-- The children from the first element on. -/
def fromFirstElement (ns : List Node) : List Node := ns.dropWhile (!·.isElement)

/-- The children that are elements. -/
def elements (n : Node) : List Node := n.children.filter isElement

end Node

end Concordance
