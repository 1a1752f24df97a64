import Definiens.Tree.Outline

/-!
# Definitions as graphs

The graph of a tree has its nodes numbered from the root down, each before its children, and an edge
from each node to each of its children.  An edge is listed once its head and all below it have been.
-/

namespace Definiens

structure Edge where
  tail : Nat
  head : Nat
  deriving DecidableEq, Repr

structure Graph where
  nodes : List Node
  edges : List Edge
  deriving DecidableEq, Repr

namespace Outline

mutual

def edges (root : Nat) : Outline → List Edge
  | .node _ children => edgesBelow root (root + 1) children

/-- The edges to and below the children of `parent`, the first of which has the number `first`. -/
def edgesBelow (parent first : Nat) : List Outline → List Edge
  | [] => []
  | child :: children =>
    child.edges first ++ ⟨parent, first⟩ :: edgesBelow parent (first + child.size) children

end

def graph (outline : Outline) : Graph := ⟨outline.preorder, outline.edges 0⟩

end Outline

def Definition.graph (definition : Definition) : Graph := definition.outline.graph

end Definiens
