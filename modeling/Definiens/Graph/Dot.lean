import Definiens.Graph

/-!
# Graphs in the DOT language

A graph is written with one statement on a line, first the nodes in the order of their numbers and
then the edges.  A node is a record of three fields, the sort of the node, the text of its token and
the offset of its token; characters that have a meaning in a record are escaped.
-/

namespace Definiens

/-- The characters that have a meaning in the label of a record. -/
def isRecordMark (c : Char) : Bool :=
  c == '\x7b' || c == '\x7d' || c == '|' || c == '<' || c == '>' || c == '"' || c == '\\'

def escapeRecordChar (c : Char) : List Char := if isRecordMark c then ['\\', c] else [c]

def escapeRecord (text : String) : String :=
  String.ofList (text.toList.flatMap escapeRecordChar)

def Node.dotLabel (node : Node) : String :=
  "\x7b" ++ node.sort ++ "|" ++ escapeRecord node.token.text ++ "|@" ++
    toString node.token.offset ++ "\x7d"

def dotName (number : Nat) : String := "n" ++ toString number

def Node.dot (number : Nat) (node : Node) : String :=
  "  " ++ dotName number ++ " [shape=record, label=\"" ++ node.dotLabel ++ "\"];\n"

def Edge.dot (edge : Edge) : String :=
  "  " ++ dotName edge.tail ++ " -> " ++ dotName edge.head ++ ";\n"

namespace Graph

/-- The statements for nodes that are numbered from `first` on. -/
def dotNodes (first : Nat) : List Node → List String
  | [] => []
  | node :: nodes => node.dot first :: dotNodes (first + 1) nodes

def dot (graph : Graph) : String :=
  "digraph \x7b\n" ++ String.join (dotNodes 0 graph.nodes) ++
    String.join (graph.edges.map Edge.dot) ++ "\x7d\n"

end Graph

def Definition.dot (definition : Definition) : String := definition.graph.dot

end Definiens
