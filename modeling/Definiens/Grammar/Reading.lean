import Definiens.Grammar.Descent
import Definiens.ReadError

/-!
# Reading a source as a definition

`parse` reads a whole source.  A source that is no definition is lexed to its end before it is
refused, so that a place where no token can begin is the first thing to be reported, wherever it is.
-/

namespace Definiens

namespace Parser

def whole : Parser Definition := do
  let definition ← call .definition
  let _ ← call .atEnd
  pure definition

def drainUpTo : Nat → Parser Unit
  | 0 => pure ()
  | count + 1 => do
    match ← optional nextToken with
    | none => pure ()
    | some token => if token.is .finish then pure () else drainUpTo count

def drain : Parser Unit := fun s => drainUpTo (s.remaining + 1) s

end Parser

namespace Session

/-- Refuses the source for a token that no rule got beyond, once the rest of it has been lexed. -/
def refuse (s : Session) : ReadError × Session :=
  match Parser.drain s with
  | (.failed offset, s) => (.lexing offset, s)
  | (_, drained) => (.unmatched s.furthestOffset, drained.note (.refused s.furthestOffset))

def read (s : Session) : Except ReadError Definition × Session :=
  match Parser.whole s with
  | (.matched definition, s) => (.ok definition, s)
  | (.failed offset, s) => (.error (.lexing offset), s)
  | (.noMatch, s) =>
    let (error, s) := s.refuse
    (.error error, s)

end Session

/-- The definition that a source is, or why it is none. -/
def parse (source : String) : Except ReadError Definition := (Session.silent source).read.1

/-- What an observer is told while a source is parsed. -/
def parseEvents (source : String) : List Event := (Session.observed source).read.2.events

end Definiens
