import Definiens.Tree

/-!
# The rules of the grammar

```text
definition        := 'def' TYPE '{' formula '}'
formula           := binary_connective | parenthesized | quantifier | negation | equality | predicate
binary_connective := binary_lhs ('and' | 'or' | '=>' | '<=>') formula
binary_lhs        := parenthesized | quantifier | negation | equality | predicate
parenthesized     := '(' formula ')'
quantifier        := ('forall' | 'exists') variable formula
negation          := '!' formula
equality          := term '=' term
predicate         := (TYPE | 'in') '(' term_list ')'
term              := function | variable
function          := SYMBOL '(' term_list ')'
variable          := SYMBOL
term_list         := nothing | term (',' term)*
end               := the finish of the source
```

The left side of a connective is no connective itself, so no rule begins with itself, and a chain of
connectives groups to the right.
-/

namespace Definiens

inductive Rule where
  | definition
  | formula
  | binaryConnective
  | binaryLhs
  | parenthesized
  | quantifier
  | negation
  | equality
  | predicate
  | term
  | function
  | var
  | termList
  | atEnd
  deriving DecidableEq, Repr

namespace Rule

def name : Rule → String
  | .definition => "definition"
  | .formula => "formula"
  | .binaryConnective => "binary_connective"
  | .binaryLhs => "binary_lhs"
  | .parenthesized => "parenthesized"
  | .quantifier => "quantifier"
  | .negation => "negation"
  | .equality => "equality"
  | .predicate => "predicate"
  | .term => "term"
  | .function => "function"
  | .var => "variable"
  | .termList => "term_list"
  | .atEnd => "end"

def all : List Rule :=
  [.definition, .formula, .binaryConnective, .binaryLhs, .parenthesized, .quantifier, .negation,
   .equality, .predicate, .term, .function, .var, .termList, .atEnd]

def ofName? (name : String) : Option Rule := all.find? (·.name = name)

theorem mem_all (rule : Rule) : rule ∈ all := by
  cases rule <;> decide

/-- What a rule builds where it matches. -/
abbrev Result : Rule → Type
  | .definition => Definition
  | .formula => Formula
  | .binaryConnective => Formula
  | .binaryLhs => Formula
  | .parenthesized => Formula
  | .quantifier => Formula
  | .negation => Formula
  | .equality => Formula
  | .predicate => Formula
  | .term => Term
  | .function => Term
  | .var => Variable
  | .termList => List Term
  | .atEnd => Token

end Rule

end Definiens
