import Definiens.Grammar.Session

/-!
# Parsers

A parser goes on with a session and either matches, or does not, or comes upon a place where no
token can begin.  In sequence, the first parser that does not match ends the whole.  Alternatives
are ordered: the next one is tried only if the one before has not matched.  `attempt` is what makes a
rule of a parser: a rule that does not match leaves the cursor where it found it.
-/

namespace Definiens

inductive Outcome (α : Type) where
  | matched (value : α)
  | noMatch
  /-- No token can begin at this offset of the source. -/
  | failed (offset : Nat)
  deriving DecidableEq, Repr

namespace Outcome

def isMatch {α : Type} : Outcome α → Bool
  | .matched _ => true
  | .noMatch => false
  | .failed _ => false

end Outcome

/-- A step of reading that may build a value of type `α`. -/
def Parser (α : Type) : Type := Session → Outcome α × Session

namespace Parser

variable {α β : Type}

def andThen (p : Parser α) (next : α → Parser β) : Parser β := fun s =>
  match p s with
  | (.matched value, s) => next value s
  | (.noMatch, s) => (.noMatch, s)
  | (.failed offset, s) => (.failed offset, s)

instance : Monad Parser where
  pure value := fun s => (.matched value, s)
  bind := andThen

def fail : Parser α := fun s => (.noMatch, s)

/-- The second parser, from where the first has left the session, if the first does not match. -/
def orElse (p q : Parser α) : Parser α := fun s =>
  match p s with
  | (.matched value, s) => (.matched value, s)
  | (.noMatch, s) => q s
  | (.failed offset, s) => (.failed offset, s)

def firstOf : List (Parser α) → Parser α
  | [] => fail
  | p :: ps => p.orElse (firstOf ps)

/-- Matches also where the parser does not, and says which. -/
def optional (p : Parser α) : Parser (Option α) := fun s =>
  match p s with
  | (.matched value, s) => (.matched (some value), s)
  | (.noMatch, s) => (.matched none, s)
  | (.failed offset, s) => (.failed offset, s)

def ofOption : Option α → Parser α
  | some value => pure value
  | none => fail

def nextToken : Parser Token := fun s =>
  match s.move .next with
  | (.value (.token token), s) => (.matched token, s)
  | (.value (.failure offset), s) => (.failed offset, s)
  | (_, s) => (.noMatch, s)

def expect (kind : Kind) : Parser Token := do
  let token ← nextToken
  if token.is kind then pure token else fail

def stepBack : Parser Unit := fun s => (.matched (), (s.move .stepBack).2)

/-- Reads by a rule: a match is kept, and otherwise the cursor returns to where the rule began. -/
def attempt (rule : Rule) (p : Parser α) : Parser α := fun s =>
  let start := s.position
  match p ((s.note (.attempt rule start)).move .checkpoint).2 with
  | (.matched value, s) =>
    (.matched value, ((s.note (.matched rule start s.position)).move .commit).2)
  | (.noMatch, s) => (.noMatch, ((s.note (.noMatch rule start)).move .rollback).2)
  | (.failed offset, s) => (.failed offset, ((s.note (.noMatch rule start)).move .rollback).2)

end Parser

end Definiens
