import Definiens.Grammar.Descent

/-!
# Readers

A reader does with a list of items laid out in advance what a parser does with a session.  It is a
function of the list and a place in it and has no other state: there is nothing to rewind, and an
alternative begins where the one before it began.  A reading also tells its reach, which is how many
items, from the beginning of the list, have been looked at; looking beyond the end counts as well.
-/

namespace Definiens

/-- What reading from a place comes to. -/
structure Reading (α : Type) where
  outcome : Outcome (α × Nat)
  /-- How many items have been looked at, from the beginning of the list. -/
  reach : Nat

/-- The same reading for someone who has looked at `seen` items before. -/
def Reading.also {α : Type} (seen : Nat) (reading : Reading α) : Reading α :=
  ⟨reading.outcome, max seen reading.reach⟩

def Reader (α : Type) : Type := List Item → Nat → Reading α

namespace Reader

variable {α β : Type}

/-! ## Combining readers -/

def andThen (p : Reader α) (next : α → Reader β) : Reader β := fun items start =>
  match p items start with
  | ⟨.matched (value, stop), reach⟩ => (next value items stop).also reach
  | ⟨.noMatch, reach⟩ => ⟨.noMatch, reach⟩
  | ⟨.failed offset, reach⟩ => ⟨.failed offset, reach⟩

instance : Monad Reader where
  pure value := fun _ start => ⟨.matched (value, start), 0⟩
  bind := andThen

def fail : Reader α := fun _ _ => ⟨.noMatch, 0⟩

def orElse (p q : Reader α) : Reader α := fun items start =>
  match p items start with
  | ⟨.matched value, reach⟩ => ⟨.matched value, reach⟩
  | ⟨.noMatch, reach⟩ => (q items start).also reach
  | ⟨.failed offset, reach⟩ => ⟨.failed offset, reach⟩

def firstOf : List (Reader α) → Reader α
  | [] => fail
  | p :: ps => p.orElse (firstOf ps)

def optional (p : Reader α) : Reader (Option α) := fun items start =>
  match p items start with
  | ⟨.matched (value, stop), reach⟩ => ⟨.matched (some value, stop), reach⟩
  | ⟨.noMatch, reach⟩ => ⟨.matched (none, start), reach⟩
  | ⟨.failed offset, reach⟩ => ⟨.failed offset, reach⟩

def ofOption : Option α → Reader α
  | some value => pure value
  | none => fail

def nextToken : Reader Token := fun items start =>
  match items[start]? with
  | some (.token token) => ⟨.matched (token, start + 1), start + 1⟩
  | some (.failure offset) => ⟨.failed offset, start + 1⟩
  | none => ⟨.noMatch, start + 1⟩

def expect (kind : Kind) : Reader Token := do
  let token ← nextToken
  if token.is kind then pure token else fail

/-- Goes on behind a token of the given kind if there is one at the place, and otherwise from the
place in another way. -/
def ifNext (kind : Kind) (yes no : Reader α) : Reader α := fun items start =>
  match items[start]? with
  | some (.token token) =>
    (if token.is kind then yes items (start + 1) else no items start).also (start + 1)
  | some (.failure offset) => ⟨.failed offset, start + 1⟩
  | none => (no items start).also (start + 1)

/-! ## The rules -/

def definition (formula : Reader Formula) : Reader Definition := do
  let token ← expect .define
  let name ← expect .type
  let _ ← expect .leftBrace
  let body ← formula
  let _ ← expect .rightBrace
  pure ⟨token, ⟨name⟩, body⟩

def binaryConnective (lhs formula : Reader Formula) : Reader Formula := do
  let left ← lhs
  let token ← nextToken
  let op ← ofOption (Connective.ofKind? token.kind)
  let right ← formula
  pure (.connective token op left right)

def parenthesized (formula : Reader Formula) : Reader Formula := do
  let _ ← expect .leftParen
  let inner ← formula
  let _ ← expect .rightParen
  pure inner

def quantifier (var : Reader Variable) (formula : Reader Formula) : Reader Formula := do
  let token ← nextToken
  let kind ← ofOption (Quantifier.ofKind? token.kind)
  let bound ← var
  let body ← formula
  pure (.quantifier token kind bound body)

def negation (formula : Reader Formula) : Reader Formula := do
  let token ← expect .bang
  let inner ← formula
  pure (.negation token inner)

def equality (term : Reader Term) : Reader Formula := do
  let lhs ← term
  let token ← expect .equals
  let rhs ← term
  pure (.equal token lhs rhs)

def arguments (termList : Reader (List Term)) : Reader (List Term) := do
  let _ ← expect .leftParen
  let args ← termList
  let _ ← expect .rightParen
  pure args

def predicate (termList : Reader (List Term)) : Reader Formula := do
  let token ← nextToken
  let name ← ofOption (PredicateName.ofToken? token)
  let args ← arguments termList
  pure (.predicate name args)

def term (function : Reader Term) (var : Reader Variable) : Reader Term :=
  function.orElse do
    let v ← var
    pure (.var v)

def function (termList : Reader (List Term)) : Reader Term := do
  let token ← expect .symbol
  let args ← arguments termList
  pure (.function token args)

def var : Reader Variable := do
  let token ← expect .symbol
  pure ⟨token⟩

def moreTerms (term : Reader Term) : Nat → Reader (List Term)
  | 0 => pure []
  | rounds + 1 =>
    ifNext .comma
      (do
        let next ← term
        let others ← moreTerms term rounds
        pure (next :: others))
      (pure [])

def termList (term : Reader Term) (rounds : Nat) : Reader (List Term) := do
  match ← optional term with
  | none => pure []
  | some first =>
    let others ← moreTerms term rounds
    pure (first :: others)

end Reader

def Rule.reader (call : (rule : Rule) → Reader rule.Result) (rounds : Nat) :
    (rule : Rule) → Reader rule.Result
  | .definition => .definition (call .formula)
  | .formula =>
    .firstOf
      [call .binaryConnective, call .parenthesized, call .quantifier, call .negation,
       call .equality, call .predicate]
  | .binaryConnective => .binaryConnective (call .binaryLhs) (call .formula)
  | .binaryLhs =>
    .firstOf
      [call .parenthesized, call .quantifier, call .negation, call .equality, call .predicate]
  | .parenthesized => .parenthesized (call .formula)
  | .quantifier => .quantifier (call .var) (call .formula)
  | .negation => .negation (call .formula)
  | .equality => .equality (call .term)
  | .predicate => .predicate (call .termList)
  | .term => .term (call .function) (call .var)
  | .function => .function (call .termList)
  | .var => .var
  | .termList => .termList (call .term) rounds
  | .atEnd => .expect .finish

def Reader.run : Nat → (rule : Rule) → Reader rule.Result
  | 0, _ => fail
  | allowance + 1, rule => rule.reader (run allowance) allowance

/-- Reads by a rule, with an allowance that is more than any reading can use. -/
def Rule.read (rule : Rule) : Reader rule.Result := fun items start =>
  Reader.run (4 * (items.length - start) + 6) rule items start

end Definiens
