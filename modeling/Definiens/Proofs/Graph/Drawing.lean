import Definiens.Graph.Dot
import Definiens.Proofs.Graph.Edges

/-!
# The drawing of a definition

The parts of a tree that have a node of their own are the definition, its type, the formulas, the terms
and the bound variables.  A definition is drawn with one node for each part, numbered in preorder, and
one edge from each part to each part right below it.
-/

namespace Definiens

/-- A part of a tree that has a node of its own. -/
inductive Part where
  | definition (d : Definition)
  | type (literal : TypeLiteral)
  | formula (f : Formula)
  | term (t : Term)
  | bound (v : Variable)

namespace Part

def sort : Part → String
  | .definition _ => "def"
  | .type _ => "type"
  | .formula (.equal _ _ _) => "equal"
  | .formula (.negation _ _) => "negation"
  | .formula (.connective _ _ _ _) => "connective"
  | .formula (.quantifier _ _ _ _) => "quantifier"
  | .formula (.predicate _ _) => "predicate"
  | .term (.var _) => "variable"
  | .term (.function _ _) => "function"
  | .bound _ => "variable"

/-- The token that a part stands on; for a predicate it is that of its name. -/
def token : Part → Token
  | .definition d => d.token
  | .type literal => literal.token
  | .formula f => f.token
  | .term t => t.token
  | .bound v => v.token

def children : Part → List Part
  | .definition d => [.type d.name, .formula d.body]
  | .type _ => []
  | .formula (.equal _ lhs rhs) => [.term lhs, .term rhs]
  | .formula (.negation _ inner) => [.formula inner]
  | .formula (.connective _ _ lhs rhs) => [.formula lhs, .formula rhs]
  | .formula (.quantifier _ _ v body) => [.bound v, .formula body]
  | .formula (.predicate _ args) => args.map .term
  | .term (.var _) => []
  | .term (.function _ args) => args.map .term
  | .bound _ => []

def at? : Part → Path → Option Part
  | part, [] => some part
  | part, i :: path => part.children[i]?.bind fun child => child.at? path

def arity? (part : Part) (path : Path) : Option Nat :=
  (part.at? path).map fun below => below.children.length

/-- The text with a backslash in front of every character that has a meaning in the label of a record. -/
def escaped (text : String) : String :=
  String.ofList (text.toList.flatMap fun c =>
    if c ∈ ['\x7b', '\x7d', '|', '<', '>', '"', '\\'] then ['\\', c] else [c])

/-- The label of a part: its sort, the text of its token, escaped, and its place. -/
def dotLabel (part : Part) : String :=
  "\x7b" ++ part.sort ++ "|" ++ escaped part.token.text ++ "|@" ++ toString part.token.offset ++ "\x7d"

/-- The line that declares a part under a number. -/
def dot (number : Nat) (part : Part) : String :=
  "  n" ++ toString number ++ " [shape=record, label=\"" ++ part.dotLabel ++ "\"];\n"

def outline : Part → Outline
  | .definition d => d.outline
  | .type literal => .node (.type literal) []
  | .formula f => f.outline
  | .term t => t.outline
  | .bound v => .node (.var v) []

def node (part : Part) : Node := part.outline.label

theorem outlines_eq_map (args : List Term) :
    Term.outlines args = (args.map Part.term).map outline := by
  induction args with
  | nil => rfl
  | cons term args ih => rw [Term.outlines, ih, List.map_cons, List.map_cons, outline]

theorem children_outline (part : Part) : part.outline.children = part.children.map outline := by
  rcases part with d | literal | f | t | v
  · rfl
  · rfl
  · cases f with
    | predicate name args => exact outlines_eq_map args
    | _ => rfl
  · cases t with
    | var v => rfl
    | function token args => exact outlines_eq_map args
  · rfl

theorem at?_outline (part : Part) (path : Path) :
    part.outline.at? path = (part.at? path).map outline := by
  induction path generalizing part with
  | nil => rfl
  | cons i path ih =>
    rw [Outline.at?, at?, children_outline, List.getElem?_map]
    cases part.children[i]? with
    | none => rfl
    | some child => exact ih child

theorem arity?_outline (part : Part) : part.outline.arity? = part.arity? := by
  funext path
  rw [Outline.arity?, arity?, at?_outline]
  cases part.at? path with
  | none => rfl
  | some below => simp [children_outline]

theorem node_stands (part : Part) : part.node.sort = part.sort ∧ part.node.token = part.token := by
  rcases part with d | literal | f | t | v
  · exact ⟨rfl, rfl⟩
  · exact ⟨rfl, rfl⟩
  · cases f <;> exact ⟨rfl, rfl⟩
  · cases t <;> exact ⟨rfl, rfl⟩
  · exact ⟨rfl, rfl⟩

theorem escapeRecord_eq_escaped (text : String) : escapeRecord text = escaped text := by
  rw [escapeRecord, escaped]
  refine congrArg (fun escape => String.ofList (text.toList.flatMap escape)) (funext fun c => ?_)
  simp [escapeRecordChar, isRecordMark, or_assoc]

theorem indented_dotName (number : Nat) : "  " ++ dotName number = "  n" ++ toString number := by
  have front : "  " ++ "n" = "  n" := by decide
  rw [dotName, ← String.append_assoc, front]

theorem dot_node (part : Part) (number : Nat) : part.node.dot number = part.dot number := by
  rw [Node.dot, Node.dotLabel, part.node_stands.1, part.node_stands.2, escapeRecord_eq_escaped,
    indented_dotName, dot, dotLabel]

/-- The nodes of an outline are those of the parts at the paths in preorder. -/
theorem preorder_outline {part : Part} {parts : List Part}
    (listed : (part.outline.paths .preorder).map part.at? = parts.map some) :
    part.outline.preorder = parts.map node := by
  have node_at (path : Path) :
      (part.outline.at? path).map Outline.label = (part.at? path).map node := by
    rw [at?_outline, Option.map_map]
    rfl
  have nodes : part.outline.preorder.map some =
      ((part.outline.paths .preorder).map part.at?).map (Option.map node) := by
    rw [Outline.map_preorder, List.map_map]
    exact List.map_congr_left fun path _ => node_at path
  rw [listed, List.map_map] at nodes
  refine List.map_injective_iff.mpr (Option.some_injective Node) (nodes.trans ?_)
  rw [List.map_map]
  rfl

theorem exists_parts {part : Part} {paths : List Path}
    (ends : ∀ path ∈ paths, (part.at? path).isSome) :
    ∃ parts : List Part, paths.map part.at? = parts.map some := by
  induction paths with
  | nil => exact ⟨[], rfl⟩
  | cons path paths ih =>
    obtain ⟨first, found⟩ := Option.isSome_iff_exists.mp (ends path List.mem_cons_self)
    obtain ⟨parts, listed⟩ := ih fun path member => ends path (List.mem_cons_of_mem _ member)
    exact ⟨first :: parts, by rw [List.map_cons, List.map_cons, found, listed]⟩

end Part

/-- The line that declares an edge. -/
def Edge.line (edge : Edge) : String :=
  "  n" ++ toString edge.tail ++ " -> n" ++ toString edge.head ++ ";\n"

theorem Edge.dot_eq_line (edge : Edge) : edge.dot = edge.line := by
  have arrow : " -> n" = " -> " ++ "n" := by decide
  rw [Edge.dot, Edge.line, Part.indented_dotName, dotName, arrow]
  simp only [String.append_assoc]

/-- The nodes of parts are declared as the parts are, under the numbers from `first` on. -/
theorem Graph.dotNodes_map_node (first : Nat) (parts : List Part) :
    Graph.dotNodes first (parts.map Part.node) = parts.mapIdx fun i part => part.dot (first + i) := by
  induction parts generalizing first with
  | nil => rfl
  | cons part parts ih =>
    rw [List.map_cons, Graph.dotNodes, ih, List.mapIdx_cons, Part.dot_node]
    simp [Nat.add_assoc, Nat.add_comm 1]

/-- The drawing of a definition declares its parts in preorder, by their sort, text and place, and then the
edges from each part to each part right below it, which lay out the tree. -/
theorem drawing_lays_out_tree (d : Definition) :
    ∃ (parts : List Part) (pre post : List Path), pre.map (Part.definition d).at? = parts.map some ∧
      Layout (Part.definition d).arity? d.graph.edges pre post ∧
      d.dot = "digraph \x7b\n" ++ String.join (parts.mapIdx Part.dot) ++
        String.join (d.graph.edges.map Edge.line) ++ "\x7d\n" := by
  have layout := (Part.definition d).outline.layout
  rw [Part.arity?_outline] at layout
  have ends : ∀ path ∈ (Part.definition d).outline.paths .preorder,
      ((Part.definition d).at? path).isSome := fun path member => by
    simpa [Part.arity?] using (layout.preorder.mem_iff path).mp member
  obtain ⟨parts, listed⟩ := Part.exists_parts ends
  refine ⟨parts, _, _, listed, layout, ?_⟩
  have nodes : d.graph.nodes = parts.map Part.node := Part.preorder_outline listed
  have statements := Graph.dotNodes_map_node 0 parts
  simp only [Nat.zero_add] at statements
  rw [Definition.dot, Graph.dot, nodes, statements, funext Edge.dot_eq_line]

/-- The edge to the body is listed behind the edge to what is in the body. -/
example :
    (Definition.mk ⟨.define, "def", 0, 3⟩ ⟨⟨.type, "type[a]", 4, 7⟩⟩
      (.predicate (.membership ⟨⟨.symbol, "in", 14, 2⟩⟩)
        [.var ⟨⟨.symbol, "x", 17, 1⟩⟩])).graph.edges = [⟨0, 1⟩, ⟨2, 3⟩, ⟨0, 2⟩] := by
  rfl

end Definiens
