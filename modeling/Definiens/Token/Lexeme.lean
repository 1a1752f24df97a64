import Definiens.Text.Blank
import Definiens.Token.Scanner

/-!
# Lexemes

Four rules say which texts are tokens: a keyword or arrow that stands by itself, a punctuation mark,
a type literal, a symbol.  A rule looks over the characters that it needs and gives a verdict; then
what it has looked over is settled as a token or given back.  The rules are tried in order.
-/

namespace Definiens

open Text

/-! ## Character classes -/

/-- A character that sets a keyword off from what follows: a gap or `(`, `)`, `{`, `}`, `,`. -/
def isDelimiter (c : Char) : Bool :=
  isGap c || c == '(' || c == ')' || c == '\x7b' || c == '\x7d' || c == ','

/-- A character of which symbols are made: an ASCII letter or digit or `+ - * / ^ _ \`. -/
def isSymbolic (c : Char) : Bool :=
  c.isAlphanum || c == '+' || c == '-' || c == '*' || c == '/' || c == '^' || c == '_' || c == '\\'

def keywords : List (String × Kind) :=
  [("def", .define), ("forall", .universal), ("exists", .existential), ("and", .and), ("or", .or),
   ("=>", .implies), ("<=>", .iff)]

def Kind.ofKeyword? (text : List Char) : Option Kind :=
  (keywords.find? fun entry => entry.1.toList = text).map (·.2)

def Kind.ofMark? (c : Char) : Option Kind :=
  if c = '(' then some .leftParen
  else if c = ')' then some .rightParen
  else if c = '\x7b' then some .leftBrace
  else if c = '\x7d' then some .rightBrace
  else if c = ',' then some .comma
  else if c = '=' then some .equals
  else if c = '!' then some .bang
  else none

def typeOpening : List Char := ['t', 'y', 'p', 'e', '[']

def typeClosing : Char := ']'

/-! ## Rules -/

/-- What a rule makes of the characters that it has looked over. -/
inductive Verdict where
  | found (kind : Kind)
  | absent
  /-- The rule applies, and the text ends too early. -/
  | unclosed
  deriving DecidableEq, Repr

inductive Lexeme where
  | keyword
  | mark
  | typeLiteral
  | symbol
  deriving DecidableEq, Repr

namespace Lexeme

/-- The rules in the order in which they are tried. -/
def all : List Lexeme := [.keyword, .mark, .typeLiteral, .symbol]

/-- A keyword is the longest run up to a delimiter, and the whole of it. -/
def scanKeyword (s : Scanner) : Scanner × Verdict :=
  let scanned := s.advance (s.runLength fun c => !isDelimiter c)
  match Kind.ofKeyword? scanned.held with
  | some kind => (scanned, .found kind)
  | none => (scanned, .absent)

/-- A punctuation mark is a token wherever it stands. -/
def scanMark (s : Scanner) : Scanner × Verdict :=
  match s.rest.head?.bind Kind.ofMark? with
  | some kind => (s.advance 1, .found kind)
  | none => (s, .absent)

/-- A type literal runs up to and including the first closing bracket, whatever stands between. -/
def scanTypeLiteral (s : Scanner) : Scanner × Verdict :=
  if typeOpening.isPrefixOf s.rest then
    if typeClosing ∈ s.rest then
      (s.advance (s.runLength (· != typeClosing) + 1), .found .type)
    else
      (s, .unclosed)
  else
    (s, .absent)

/-- A symbol is the longest run of symbolic characters, which is not empty. -/
def scanSymbol (s : Scanner) : Scanner × Verdict :=
  let count := s.runLength isSymbolic
  if count = 0 then (s, .absent) else (s.advance count, .found .symbol)

def scan : Lexeme → Scanner → Scanner × Verdict
  | .keyword => scanKeyword
  | .mark => scanMark
  | .typeLiteral => scanTypeLiteral
  | .symbol => scanSymbol

/-- The item by the first rule that applies, and the scanner behind it. -/
def read : List Lexeme → Scanner → Item × Scanner
  | [], s => (.failure s.committed, s)
  | rule :: rules, s =>
    match rule.scan s with
    | (scanned, .found kind) => (.token (scanned.token kind), scanned.commit)
    | (scanned, .absent) => read rules scanned.reset
    | (scanned, .unclosed) => (.failure scanned.committed, scanned.reset)

end Lexeme

def Scanner.skipGap (s : Scanner) : Scanner := (s.advance (s.runLength isGap)).commit

end Definiens
