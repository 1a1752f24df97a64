import Definiens.Tree

/-!
# The outline of a tree

An outline forgets what a tree is for and keeps its nodes, each with its children in order: for a
definition its type and its body, for an equality or a connective the two sides, for a quantifier the
bound variable and the body, for a predicate or a function the arguments.  The name of a predicate is
the anchor of the predicate and no node of its own.

A walk visits the nodes of an outline from the root down, and the name of a predicate between the
predicate and its arguments.
-/

namespace Definiens

/-- A node of a tree without its children. -/
inductive Node where
  | definition (token : Token)
  | equal (token : Token)
  | negation (token : Token)
  | connective (token : Token) (op : Connective)
  | quantifier (token : Token) (kind : Quantifier)
  | predicate (name : PredicateName)
  | var (v : Variable)
  | function (token : Token)
  | type (literal : TypeLiteral)
  | symbol (literal : SymbolLiteral)
  deriving DecidableEq, Repr

namespace Node

def sort : Node → String
  | .definition _ => "def"
  | .equal _ => "equal"
  | .negation _ => "negation"
  | .connective _ _ => "connective"
  | .quantifier _ _ => "quantifier"
  | .predicate _ => "predicate"
  | .var _ => "variable"
  | .function _ => "function"
  | .type _ => "type"
  | .symbol _ => "symbol"

def token : Node → Token
  | .definition anchor => anchor
  | .equal anchor => anchor
  | .negation anchor => anchor
  | .connective anchor _ => anchor
  | .quantifier anchor _ => anchor
  | .predicate name => name.token
  | .var v => v.token
  | .function anchor => anchor
  | .type literal => literal.token
  | .symbol literal => literal.token

/-- What a node says: its operator or name where it has one, or else the text of its token. -/
def text : Node → String
  | .connective _ op => op.name
  | .quantifier _ kind => kind.name
  | .predicate name => name.name
  | .type literal => literal.name
  | .definition anchor => anchor.text
  | .equal anchor => anchor.text
  | .negation anchor => anchor.text
  | .var v => v.symbol
  | .function anchor => anchor.text
  | .symbol literal => literal.name

def var? : Node → Option Variable
  | .var v => some v
  | _ => none

end Node

inductive Outline where
  | node (label : Node) (children : List Outline)

def PredicateName.node : PredicateName → Node
  | .type literal => .type literal
  | .membership literal => .symbol literal

mutual

def Term.outline : Term → Outline
  | .var v => .node (.var v) []
  | .function token args => .node (.function token) (Term.outlines args)

def Term.outlines : List Term → List Outline
  | [] => []
  | term :: terms => term.outline :: Term.outlines terms

end

def Formula.outline : Formula → Outline
  | .equal token lhs rhs => .node (.equal token) [lhs.outline, rhs.outline]
  | .negation token inner => .node (.negation token) [inner.outline]
  | .connective token op lhs rhs => .node (.connective token op) [lhs.outline, rhs.outline]
  | .quantifier token kind bound body =>
    .node (.quantifier token kind) [.node (.var bound) [], body.outline]
  | .predicate name args => .node (.predicate name) (Term.outlines args)

def Definition.outline (definition : Definition) : Outline :=
  .node (.definition definition.token)
    [.node (.type definition.name) [], definition.body.outline]

/-! ## Orders -/

namespace Outline

def label : Outline → Node
  | .node label _ => label

def children : Outline → List Outline
  | .node _ children => children

mutual

def size : Outline → Nat
  | .node _ children => sizes children + 1

def sizes : List Outline → Nat
  | [] => 0
  | outline :: outlines => outline.size + sizes outlines

end

mutual

def preorder : Outline → List Node
  | .node label children => label :: preorders children

def preorders : List Outline → List Node
  | [] => []
  | outline :: outlines => outline.preorder ++ preorders outlines

end

end Outline

/-! ## Walks -/

/-- One visit of a walk: the node, and how far it lies below the root. -/
structure Visit where
  depth : Nat
  node : Node
  deriving DecidableEq, Repr

/-- What is visited between a node and its children: the name of a predicate. -/
def Node.aside (depth : Nat) : Node → List Visit
  | .predicate name => [⟨depth, name.node⟩]
  | _ => []

namespace Outline

mutual

/-- The visits of a walk that enters the outline at the given depth. -/
def walk (depth : Nat) : Outline → List Visit
  | .node label children =>
    ⟨depth, label⟩ :: (label.aside (depth + 1) ++ walks (depth + 1) children)

def walks (depth : Nat) : List Outline → List Visit
  | [] => []
  | outline :: outlines => outline.walk depth ++ walks depth outlines

end

end Outline

namespace Definition

def walk (definition : Definition) : List Visit := definition.outline.walk 0

/-- The variables met on the full walk, bound ones included. -/
def variablesMet (definition : Definition) : List Variable :=
  definition.walk.filterMap (·.node.var?)

end Definition

end Definiens
