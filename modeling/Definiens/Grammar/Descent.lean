import Definiens.Grammar.Parser

/-!
# Reading by recursive descent

Each rule of the grammar is a parser made from the parsers of the rules that it mentions.  `run` ties
them together.  It carries an allowance for the nesting of rules; the one that `call` gives is more
than any reading can use, since between two tokens at most six rules nest at one place, and at most
four more for each token on the way.
-/

namespace Definiens

namespace Parser

/-! ## The rules, by the rules they mention -/

def definition (formula : Parser Formula) : Parser Definition := do
  let token ← expect .define
  let name ← expect .type
  let _ ← expect .leftBrace
  let body ← formula
  let _ ← expect .rightBrace
  pure ⟨token, ⟨name⟩, body⟩

def binaryConnective (lhs formula : Parser Formula) : Parser Formula := do
  let left ← lhs
  let token ← nextToken
  let op ← ofOption (Connective.ofKind? token.kind)
  let right ← formula
  pure (.connective token op left right)

/-- A formula in parentheses is the formula itself. -/
def parenthesized (formula : Parser Formula) : Parser Formula := do
  let _ ← expect .leftParen
  let inner ← formula
  let _ ← expect .rightParen
  pure inner

def quantifier (var : Parser Variable) (formula : Parser Formula) : Parser Formula := do
  let token ← nextToken
  let kind ← ofOption (Quantifier.ofKind? token.kind)
  let bound ← var
  let body ← formula
  pure (.quantifier token kind bound body)

def negation (formula : Parser Formula) : Parser Formula := do
  let token ← expect .bang
  let inner ← formula
  pure (.negation token inner)

def equality (term : Parser Term) : Parser Formula := do
  let lhs ← term
  let token ← expect .equals
  let rhs ← term
  pure (.equal token lhs rhs)

def arguments (termList : Parser (List Term)) : Parser (List Term) := do
  let _ ← expect .leftParen
  let args ← termList
  let _ ← expect .rightParen
  pure args

/-- A predicate is a type or the membership symbol with its arguments. -/
def predicate (termList : Parser (List Term)) : Parser Formula := do
  let token ← nextToken
  let name ← ofOption (PredicateName.ofToken? token)
  let args ← arguments termList
  pure (.predicate name args)

/-- A term is a function on arguments if it can be, or else a variable. -/
def term (function : Parser Term) (var : Parser Variable) : Parser Term :=
  function.orElse (.var <$> var)

def function (termList : Parser (List Term)) : Parser Term := do
  let token ← expect .symbol
  let args ← arguments termList
  pure (.function token args)

def var : Parser Variable := do
  let token ← expect .symbol
  pure ⟨token⟩

/-- What follows the first term of a list, in at most the given number of rounds: as long as there
is a comma, the comma and a term. -/
def moreTerms (term : Parser Term) : Nat → Parser (List Term)
  | 0 => pure []
  | rounds + 1 => do
    match ← optional nextToken with
    | none => pure []
    | some token =>
      if token.is .comma then
        let next ← term
        let others ← moreTerms term rounds
        pure (next :: others)
      else
        stepBack
        pure []

def termList (term : Parser Term) (rounds : Nat) : Parser (List Term) := do
  match ← optional term with
  | none => pure []
  | some first =>
    let others ← moreTerms term rounds
    pure (first :: others)

end Parser

/-! ## Tying the rules together -/

/-- What a rule does, when `call` reads by the other rules. -/
def Rule.body (call : (rule : Rule) → Parser rule.Result) (rounds : Nat) :
    (rule : Rule) → Parser rule.Result
  | .definition => .definition (call .formula)
  | .formula =>
    .firstOf
      [call .binaryConnective, call .parenthesized, call .quantifier, call .negation,
       call .equality, call .predicate]
  | .binaryConnective => .binaryConnective (call .binaryLhs) (call .formula)
  | .binaryLhs =>
    .firstOf
      [call .parenthesized, call .quantifier, call .negation, call .equality, call .predicate]
  | .parenthesized => .parenthesized (call .formula)
  | .quantifier => .quantifier (call .var) (call .formula)
  | .negation => .negation (call .formula)
  | .equality => .equality (call .term)
  | .predicate => .predicate (call .termList)
  | .term => .term (call .function) (call .var)
  | .function => .function (call .termList)
  | .var => .var
  | .termList => .termList (call .term) rounds
  | .atEnd => .expect .finish

namespace Parser

/-- Reads by a rule, with an allowance of so many rules nested in each other. -/
def run : Nat → (rule : Rule) → Parser rule.Result
  | 0, _ => fail
  | allowance + 1, rule => attempt rule (rule.body (run allowance) allowance)

end Parser

/-- More than the nesting of rules at the cursor can come to. -/
def Session.allowance (s : Session) : Nat := 4 * s.remaining + 6

def Parser.call (rule : Rule) : Parser rule.Result := fun s => run s.allowance rule s

end Definiens
