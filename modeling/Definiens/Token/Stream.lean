import Definiens.ReadError
import Definiens.Supply
import Definiens.Token.Lexeme

/-!
# The tokens of a source, one by one

A token stream lexes a source on demand.  It can be asked in two ways: `next` goes on for ever and
answers with the last item again once the source is used up, whereas a draw comes up empty then.
`tokenize` is the whole of a stream at once.
-/

namespace Definiens

open Text

def Token.finish (offset : Nat) : Token := ⟨.finish, "", offset, 0⟩

/-- An item on one line: a token as it is shown, or the reason why there is none. -/
def Item.display : Item → String
  | .token read => read.display
  | .failure place => (ReadError.lexing place).message

inductive Halt where
  | finished
  | failed (offset : Nat)
  deriving DecidableEq, Repr

structure TokenStream where
  source : String
  /-- Where the trimmed source ends. -/
  finish : Nat
  scanner : Scanner
  halt : Option Halt
  deriving DecidableEq, Repr

namespace TokenStream

/-- The stream at the beginning of a source, which is trimmed of blanks at both ends. -/
def ofSource (source : String) : TokenStream :=
  let start := trimmedOffset source.toList
  let trimmed := trim source.toList
  { source
    finish := start + byteLength trimmed
    scanner := ⟨start, [], trimmed⟩
    halt := none }

def restart (stream : TokenStream) : TokenStream := ofSource stream.source

/-- Lexes the item at the scanner, and stops at the end of the source or at a failure. -/
def lex (stream : TokenStream) : Item × TokenStream :=
  let begun := stream.scanner.skipGap
  match begun.rest with
  | [] =>
    (.token (.finish stream.finish), { stream with scanner := begun, halt := some .finished })
  | _ :: _ =>
    match Lexeme.read Lexeme.all begun with
    | (.token token, scanner) => (.token token, { stream with scanner })
    | (.failure offset, scanner) =>
      (.failure offset, { stream with scanner, halt := some (.failed offset) })

/-- The next item; a stream that has stopped keeps giving its last one. -/
def next (stream : TokenStream) : Item × TokenStream :=
  match stream.halt with
  | none => stream.lex
  | some .finished => (.token (.finish stream.finish), stream)
  | some (.failed offset) => (.failure offset, stream)

/-- A draw from a stream that has stopped comes up empty; any other gives notice of what it lexed. -/
instance : Supply TokenStream Item Item where
  draw stream :=
    match stream.halt with
    | none =>
      let (item, rest) := stream.next
      ⟨some item, [item], rest⟩
    | some _ => ⟨none, [], stream⟩

/-- A bound on the number of items that can still be drawn. -/
def pending (stream : TokenStream) : Nat :=
  match stream.halt with
  | none => stream.scanner.unsettled.length + 1
  | some _ => 0

/-- The items of at most `count` draws, up to the first empty one, and the stream behind them. -/
def drawUpTo : Nat → TokenStream → List Item × TokenStream
  | 0, stream => ([], stream)
  | count + 1, stream =>
    match Supply.draw stream with
    | ⟨some item, _, rest⟩ =>
      let (items, last) := drawUpTo count rest
      (item :: items, last)
    | ⟨none, _, rest⟩ => ([], rest)

def exhaust (stream : TokenStream) : List Item × TokenStream := drawUpTo stream.pending stream

def items (stream : TokenStream) : List Item := stream.exhaust.1

end TokenStream

/-- The tokens of a source, with the finish at their end. -/
def tokenize (source : String) : Except ReadError (List Token) :=
  (Item.tokens (TokenStream.ofSource source).items).mapError .lexing

end Definiens
