import Definiens.Text.Bytes
import Definiens.Token

/-!
# Scanning a text

A scanner keeps two marks in the text.  Everything before the first, `committed`, has been settled;
the characters up to the second, `peek`, have been looked over and may still be given back.  The
text between the marks is held, so that a mark moves by whole characters only.
-/

namespace Definiens

open Text

/-- A place in a text, with the characters looked over since then and those still ahead. -/
structure Scanner where
  /-- How many bytes of the source are settled. -/
  committed : Nat
  held : List Char
  rest : List Char
  deriving DecidableEq, Repr

namespace Scanner

/-- How many bytes of the source have been looked over. -/
def peek (s : Scanner) : Nat := s.committed + byteLength s.held

def advance (count : Nat) (s : Scanner) : Scanner :=
  { s with held := s.held ++ s.rest.take count, rest := s.rest.drop count }

def runLength (belongs : Char → Bool) (s : Scanner) : Nat := (s.rest.takeWhile belongs).length

def commit (s : Scanner) : Scanner := { committed := s.peek, held := [], rest := s.rest }

def reset (s : Scanner) : Scanner := { s with held := [], rest := s.held ++ s.rest }

def token (kind : Kind) (s : Scanner) : Token where
  kind
  text := String.ofList s.held
  offset := s.committed
  length := byteLength s.held

def unsettled (s : Scanner) : List Char := s.held ++ s.rest

@[simp]
theorem committed_advance (count : Nat) (s : Scanner) :
    (s.advance count).committed = s.committed :=
  rfl

@[simp]
theorem unsettled_advance (count : Nat) (s : Scanner) :
    (s.advance count).unsettled = s.unsettled := by
  simp [advance, unsettled]

end Scanner

end Definiens
