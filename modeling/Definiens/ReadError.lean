import Definiens.Text.Listing
import Definiens.Text.Quoted

/-!
# Why a source is refused

A source is refused where no token can begin, or because its tokens do not form a definition.  A
program that reads a source from its input refuses the input for one of these reasons, or because
its bytes are no UTF-8.
-/

namespace Definiens

open Text

/-- The reason why a text is no definition, with the place that shows it. -/
inductive ReadError where
  /-- No token can begin at this offset. -/
  | lexing (offset : Nat)
  /-- The tokens form no definition; no rule got beyond the token at this offset. -/
  | unmatched (offset : Nat)
  deriving DecidableEq, Repr

namespace ReadError

def offset : ReadError → Nat
  | .lexing offset => offset
  | .unmatched offset => offset

def message : ReadError → String
  | .lexing offset => "error lexing at offset " ++ toString offset
  | .unmatched offset =>
    "input is not a definition (stopped at offset " ++ toString offset ++ ")"

def listing : ReadError → Listing
  | .lexing offset => .record "Lex" [("offset", .word (toString offset))]
  | .unmatched offset => .record "Unmatched" [("offset", .word (toString offset))]

end ReadError

inductive InputError where
  | unread (error : ReadError)
  | notUtf8
  deriving DecidableEq, Repr

namespace InputError

def kindName : InputError → String
  | .unread _ => "InvalidInput"
  | .notUtf8 => "InvalidData"

def message : InputError → String
  | .unread error => error.message
  | .notUtf8 => "stream did not contain valid UTF-8"

def listing (error : InputError) : Listing :=
  match error with
  | .unread _ =>
    .record "Custom" [("kind", .word error.kindName), ("error", .word (quoted error.message))]
  | .notUtf8 =>
    .record "Error" [("kind", .word error.kindName), ("message", .word (quoted error.message))]

end InputError

end Definiens
