import Definiens.Text.Listing
import Definiens.Text.Quoted

/-!
# Tokens

A token is a piece of the source together with its kind and its place.  Offsets and lengths count
bytes.  `Token.display` is the one-line form in which a token is shown to a reader.
-/

namespace Definiens

open Text

/-- The kinds of token; `finish` stands once at the end of every source. -/
inductive Kind where
  | leftParen
  | rightParen
  | leftBrace
  | rightBrace
  | comma
  | equals
  | bang
  | define
  | universal
  | existential
  | and
  | or
  | implies
  | iff
  | type
  | symbol
  | finish
  deriving DecidableEq, Repr

namespace Kind

def name : Kind → String
  | .leftParen => "LParen"
  | .rightParen => "RParen"
  | .leftBrace => "LBrace"
  | .rightBrace => "RBrace"
  | .comma => "Comma"
  | .equals => "Equals"
  | .bang => "Bang"
  | .define => "Def"
  | .universal => "Forall"
  | .existential => "Exists"
  | .and => "And"
  | .or => "Or"
  | .implies => "Implies"
  | .iff => "Iff"
  | .type => "Type"
  | .symbol => "Symbol"
  | .finish => "Eos"

def all : List Kind :=
  [.leftParen, .rightParen, .leftBrace, .rightBrace, .comma, .equals, .bang, .define, .universal,
   .existential, .and, .or, .implies, .iff, .type, .symbol, .finish]

def ofName? (name : String) : Option Kind := all.find? (·.name = name)

theorem mem_all (kind : Kind) : kind ∈ all := by
  cases kind <;> decide

end Kind

structure Token where
  kind : Kind
  text : String
  /-- Where the token begins in the source, in bytes. -/
  offset : Nat
  /-- How many bytes of the source the token takes. -/
  length : Nat
  deriving DecidableEq, Repr

namespace Token

def is (token : Token) (kind : Kind) : Bool := token.kind == kind

/-- The bytes of the source that the token takes, from the first to the one after the last. -/
def span (token : Token) : Nat × Nat := (token.offset, token.offset + token.length)

/-- The token on one line: its kind, its quoted text, its offset and its length. -/
def display (token : Token) : String :=
  token.kind.name ++ ": " ++ quoted token.text ++ " @" ++ toString token.offset ++ " len=" ++
    toString token.length

def listing (token : Token) : Listing :=
  .record "Token"
    [("kind", .word token.kind.name), ("text", .word (quoted token.text)),
     ("offset", .word (toString token.offset)), ("length", .word (toString token.length))]

@[simp]
theorem is_eq_true {token : Token} {kind : Kind} : token.is kind = true ↔ token.kind = kind := by
  simp [is]

end Token

/-- What reading ahead in a source comes upon: a token, or the place where no token can begin. -/
inductive Item where
  | token (token : Token)
  | failure (offset : Nat)
  deriving DecidableEq, Repr

namespace Item

def offset : Item → Nat
  | .token read => read.offset
  | .failure place => place

def token? : Item → Option Token
  | .token read => some read
  | .failure _ => none

/-- The tokens of a list of items, or the place of its first failure. -/
def tokens : List Item → Except Nat (List Token)
  | [] => .ok []
  | .token read :: items => (tokens items).map (read :: ·)
  | .failure place :: _ => .error place

end Item

end Definiens
