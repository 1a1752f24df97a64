import Definiens.Grammar.Session

/-!
# What an observer is told

An event is told as a level, a message and named details.
-/

namespace Definiens

inductive Detail where
  | number (value : Nat)
  | text (value : String)
  deriving DecidableEq, Repr

namespace Event

/-- How much an event matters: a failure of the source more than a step of the reading. -/
def level : Event → String
  | .attempt _ _ => "TRACE"
  | .matched _ _ _ => "TRACE"
  | .noMatch _ _ => "TRACE"
  | .lexed (.token _) => "TRACE"
  | .lexed (.failure _) => "DEBUG"
  | .refused _ => "DEBUG"

def message : Event → String
  | .attempt _ _ => "attempt"
  | .matched _ _ _ => "matched"
  | .noMatch _ _ => "no match"
  | .lexed (.token _) => "lexed"
  | .lexed (.failure _) => "lexing failed"
  | .refused _ => "input is not a definition"

def details : Event → List (String × Detail)
  | .attempt rule start => [("rule", .text rule.name), ("start", .number start)]
  | .matched rule start stop =>
    [("rule", .text rule.name), ("start", .number start), ("end", .number stop)]
  | .noMatch rule start => [("rule", .text rule.name), ("start", .number start)]
  | .lexed (.token token) => [("token", .text token.display)]
  | .lexed (.failure offset) => [("offset", .number offset)]
  | .refused offset => [("offset", .number offset)]

end Event

end Definiens
