import Definiens.Text.Listing
import Definiens.Tree

/-!
# Trees spelled out

The listing of a tree names every structure and every field, so that it shows all that the tree holds.
-/

namespace Definiens

open Text

def TypeLiteral.listing (literal : TypeLiteral) : Listing :=
  .record "TypeLiteral" [("token", literal.token.listing)]

def SymbolLiteral.listing (literal : SymbolLiteral) : Listing :=
  .record "SymbolLiteral" [("token", literal.token.listing)]

def Variable.listing (v : Variable) : Listing := .record "Variable" [("token", v.token.listing)]

def PredicateName.listing : PredicateName → Listing
  | .type literal => .wrapped "Type" literal.listing
  | .membership literal => .wrapped "In" literal.listing

mutual

def Term.listing : Term → Listing
  | .var v => .wrapped "Variable" v.listing
  | .function token args =>
    .wrapped "Function"
      (.record "FunctionCall" [("token", token.listing), ("args", .list (Term.listings args))])

def Term.listings : List Term → List Listing
  | [] => []
  | term :: terms => term.listing :: Term.listings terms

end

def Formula.listing : Formula → Listing
  | .equal token lhs rhs =>
    .wrapped "Equal"
      (.record "Equal" [("token", token.listing), ("lhs", lhs.listing), ("rhs", rhs.listing)])
  | .negation token inner =>
    .wrapped "Negation" (.record "Negation" [("token", token.listing), ("inner", inner.listing)])
  | .connective token op lhs rhs =>
    .wrapped "Connective"
      (.record "Connective"
        [("token", token.listing), ("op", .word op.name), ("lhs", lhs.listing),
         ("rhs", rhs.listing)])
  | .quantifier token kind bound body =>
    .wrapped "Quantifier"
      (.record "Quantifier"
        [("token", token.listing), ("kind", .word kind.name), ("bound", bound.listing),
         ("body", body.listing)])
  | .predicate name args =>
    .wrapped "Predicate"
      (.record "Predicate" [("name", name.listing), ("args", .list (Term.listings args))])

def Definition.listing (definition : Definition) : Listing :=
  .record "DefNode"
    [("token", definition.token.listing), ("name", definition.name.listing),
     ("body", definition.body.listing)]

end Definiens
