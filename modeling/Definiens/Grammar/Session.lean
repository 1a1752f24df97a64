import Definiens.Cursor
import Definiens.Grammar.Rule
import Definiens.Token.Stream

/-!
# Sessions

A session is the reading of one source: a cursor on its tokens and, if the session is observed, a
journal of what has happened so far.  The journal holds every move of the cursor and every event, so
the past of a session can be told from it: the events are what an observer is told, and replaying the
moves gives the cursor.  A silent session keeps no journal; nothing else depends on that.
-/

namespace Definiens

/-- Something worth telling an observer. -/
inductive Event where
  | attempt (rule : Rule) (start : Nat)
  /-- A rule has matched the tokens between two positions. -/
  | matched (rule : Rule) (start stop : Nat)
  | noMatch (rule : Rule) (start : Nat)
  | lexed (item : Item)
  /-- The source is refused; no rule got beyond the token at this offset. -/
  | refused (offset : Nat)
  deriving DecidableEq, Repr

inductive Entry where
  | event (event : Event)
  | move (move : Move)
  deriving DecidableEq, Repr

namespace Entry

def event? : Entry → Option Event
  | .event happened => some happened
  | .move _ => none

def move? : Entry → Option Move
  | .event _ => none
  | .move made => some made

end Entry

/-- The reading of a source at some moment. -/
structure Session where
  cursor : Cursor TokenStream Item
  /-- What has happened, the latest entry first; there is none in a silent session. -/
  journal : Option (List Entry)

namespace Session

def silent (source : String) : Session := ⟨.ofSupply (.ofSource source), none⟩

def observed (source : String) : Session := ⟨.ofSupply (.ofSource source), some []⟩

/-- The same moment of a session that nobody observes. -/
def silence (s : Session) : Session := { s with journal := none }

def position (s : Session) : Nat := s.cursor.position

/-- The number of rules in progress. -/
def depth (s : Session) : Nat := s.cursor.depth

@[inline]
def record (entry : Entry) (s : Session) : Session :=
  match s.journal with
  | none => s
  | some entries => { s with journal := some (entry :: entries) }

@[inline]
def note (event : Event) (s : Session) : Session := s.record (.event event)

/-- Makes a move of the cursor; what is lexed on the way is entered into the journal. -/
@[inline]
def move (move : Move) (s : Session) : Answer Item × Session :=
  let step := s.cursor.step move
  let moved := Session.record (.move move) { s with cursor := step.cursor }
  (step.answer, step.notices.foldl (fun s item => s.note (.lexed item)) moved)

def history (s : Session) : List Entry := (s.journal.getD []).reverse

def events (s : Session) : List Event := s.history.filterMap Entry.event?

def moves (s : Session) : List Move := s.history.filterMap Entry.move?

/-- The offset of the furthest item that has been looked at. -/
def furthestOffset (s : Session) : Nat :=
  match s.cursor.furthestValue? with
  | some item => item.offset
  | none => 0

/-- A bound on the number of items at and behind the cursor. -/
def remaining (s : Session) : Nat :=
  (s.cursor.log.size - s.cursor.position) + s.cursor.supply.pending

end Session

end Definiens
