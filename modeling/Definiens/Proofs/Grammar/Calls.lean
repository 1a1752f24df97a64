import Definiens.Proofs.Grammar.Heed
import Definiens.Proofs.Grammar.Moments

/-!
# Calls on one session

On one session rules may be called one after another, in any order and whatever comes of the calls
before.  The session remembers what it has drawn and what it has saved, but that does not show: each
call answers as reading the items of the source by its rule, from the place where the session stands.
-/

namespace Definiens

structure Reply where
  rule : Rule
  outcome : Outcome rule.Result
  position : Nat

/-- Calls one rule after another, whatever comes of it. -/
def Session.calls : List Rule → Session → List Reply × Session
  | [], s => ([], s)
  | rule :: rules, s =>
    let (outcome, behind) := Parser.call rule s
    let (replies, last) := calls rules behind
    (⟨rule, outcome, behind.position⟩ :: replies, last)

namespace Rule

/-- What reading the items by a rule answers; without a match it leaves the reader at the start. -/
def reply (items : List Item) (rule : Rule) (start : Nat) : Reply :=
  match (rule.read items start).outcome with
  | .matched (value, stop) => ⟨rule, .matched value, stop⟩
  | .noMatch => ⟨rule, .noMatch, start⟩
  | .failed offset => ⟨rule, .failed offset, start⟩

def replies (items : List Item) : List Rule → Nat → List Reply
  | [], _ => []
  | rule :: rules, start =>
    rule.reply items start :: replies items rules (rule.reply items start).position

end Rule

/-! ## One call -/

/-- There are nothing but tokens before the place. -/
structure Item.Passed (items : List Item) (place : Nat) : Prop where
  le_length : place ≤ items.length
  token : ∀ before < place, ∃ token, items[before]? = some (.token token)

theorem Reader.Steady.passed {α : Type} {q : Reader α} (steady : q.Steady) {items : List Item}
    {start stop : Nat} {value : α} (passed : Item.Passed items start)
    (ended : (q items start).outcome = .matched (value, stop)) : Item.Passed items stop := by
  obtain ⟨forward, behind⟩ := steady.matched ended
  have token : ∀ before < stop, ∃ token, items[before]? = some (.token token) := by
    intro before low
    rcases Nat.lt_or_ge before start with early | late
    · exact passed.token before early
    · exact behind before late low
  -- were the place beyond the items, there would be a token right behind the last of them
  refine ⟨Nat.le_of_not_lt fun beyond => ?_, token⟩
  obtain ⟨last, here⟩ := token items.length beyond
  simp at here

theorem Reading.Tells.failed_iff {α : Type} {items : List Item} {s : Session} {reading : Reading α}
    {ended : Outcome α × Session} (told : reading.Tells items s ended) {offset : Nat} :
    ended.1 = .failed offset ↔ reading.outcome = .failed offset := by
  rcases ended with ⟨ended, s'⟩
  rcases reading with ⟨⟨value, stop⟩ | _ | place, reach⟩
  · obtain ⟨-, -, -, rfl, -⟩ := told
    simp
  · obtain ⟨-, -, -, rfl⟩ := told
    simp
  · obtain ⟨-, -, -, rfl⟩ := told
    simp

theorem Reading.Tells.outcome_of_matched {α : Type} {items : List Item} {s : Session}
    {reading : Reading α} {ended : Outcome α × Session} (told : reading.Tells items s ended) {value : α}
    (matched : ended.1 = .matched value) : reading.outcome = .matched (value, ended.2.position) := by
  rcases ended with ⟨ended, s'⟩
  rcases reading with ⟨⟨value', stop⟩ | _ | offset, reach⟩
  · obtain ⟨-, -, -, rfl, rfl⟩ := told
    cases matched
    rfl
  · obtain ⟨-, -, -, rfl⟩ := told
    cases matched
  · obtain ⟨-, -, -, rfl⟩ := told
    cases matched

namespace Parser

variable {items : List Item} {s : Session}

/-- A call ends as the reading from the position of the session; without a match it brings the session back
there. -/
theorem call_cases (along : s.cursor.Over items) (rule : Rule) :
    (∃ value s', call rule s = (.matched value, s') ∧ s'.cursor.Over items ∧
        (rule.read items s.position).outcome = .matched (value, s'.position)) ∨
      (∃ s', call rule s = (.noMatch, s') ∧ s'.position = s.position ∧
        (rule.read items s.position).outcome = .noMatch) ∨
      ∃ offset s', call rule s = (.failed offset, s') ∧ s'.position = s.position ∧
        (rule.read items s.position).outcome = .failed offset := by
  have told := call_refines rule items s along
  have back := call_restores rule items s along
  generalize call rule s = ended at *
  generalize rule.read items s.position = reading at *
  rcases ended with ⟨ended, s'⟩
  rcases reading with ⟨⟨value, stop⟩ | _ | offset, reach⟩
  · obtain ⟨along', -, -, rfl, rfl⟩ := told
    exact Or.inl ⟨value, s', rfl, along', rfl⟩
  · obtain ⟨-, -, -, rfl⟩ := told
    exact Or.inr (Or.inl ⟨s', rfl, back rfl, rfl⟩)
  · obtain ⟨-, -, -, rfl⟩ := told
    exact Or.inr (Or.inr ⟨offset, s', rfl, back rfl, rfl⟩)

theorem call_of_matched (along : s.cursor.Over items) {rule : Rule} {value : rule.Result} {stop : Nat}
    (read : (rule.read items s.position).outcome = .matched (value, stop)) :
    (call rule s).1 = .matched value ∧ (call rule s).2.position = stop := by
  rcases call_cases along rule with ⟨_, s', called, -, read'⟩ | ⟨_, -, -, read'⟩ | ⟨_, _, -, -, read'⟩ <;>
    rw [read] at read' <;> cases read'
  rw [called]
  exact ⟨rfl, rfl⟩

theorem call_of_noMatch (along : s.cursor.Over items) {rule : Rule}
    (read : (rule.read items s.position).outcome = .noMatch) :
    (call rule s).1 = .noMatch ∧ (call rule s).2.position = s.position := by
  rcases call_cases along rule with ⟨_, _, -, -, read'⟩ | ⟨s', called, back, -⟩ | ⟨_, _, -, -, read'⟩
  · rw [read] at read'
    cases read'
  · rw [called]
    exact ⟨rfl, back⟩
  · rw [read] at read'
    cases read'

end Parser

namespace Session

variable {items : List Item} {s : Session}

theorem call_eq_reply (along : s.cursor.Over items) (rule : Rule) :
    (⟨rule, (Parser.call rule s).1, (Parser.call rule s).2.position⟩ : Reply) =
      rule.reply items s.position := by
  rcases Parser.call_cases along rule with
    ⟨value, s', called, -, read⟩ | ⟨s', called, back, read⟩ | ⟨offset, s', called, back, read⟩
  · rw [called, Rule.reply, read]
  · rw [called, Rule.reply, read, back]
  · rw [called, Rule.reply, read, back]

theorem over_call (along : s.cursor.Over items) (rule : Rule) :
    (Parser.call rule s).2.cursor.Over items :=
  (Parser.call_refines rule items s along).along

/-- A call leaves a session behind tokens, wherever there have been tokens only. -/
theorem passed_call (along : s.cursor.Over items) (passed : Item.Passed items s.position)
    (rule : Rule) : Item.Passed items (Parser.call rule s).2.position := by
  have answer := congrArg Reply.position (call_eq_reply along rule)
  dsimp only at answer
  rw [answer, Rule.reply]
  cases ended : (rule.read items s.position).outcome with
  | matched result => exact rule.steady_read.passed passed ended
  | noMatch => exact passed
  | failed offset => exact passed

/-! ## All calls -/

/-- The calls of any rules answer as the readings, from wherever the session stands. -/
theorem calls_eq_replies (along : s.cursor.Over items) (rules : List Rule) :
    (s.calls rules).1 = Rule.replies items rules s.position ∧
      (s.calls rules).2.cursor.Over items := by
  induction rules generalizing s with
  | nil => exact ⟨rfl, along⟩
  | cons rule rules ih =>
    have answer := call_eq_reply along rule
    obtain ⟨others, along'⟩ := ih (over_call along rule)
    refine ⟨?_, along'⟩
    rw [Rule.replies, ← answer, ← others]
    rfl

theorem passed_calls (along : s.cursor.Over items) (passed : Item.Passed items s.position)
    (rules : List Rule) : Item.Passed items (s.calls rules).2.position := by
  induction rules generalizing s with
  | nil => exact passed
  | cons rule rules ih => exact ih (over_call along rule) (passed_call along passed rule)

/-- However rules are called on a session of a source, each call answers as its rule reads the items of
the source from the position at the time; a call fails exactly if it looks at a failure, be it logged
or not; and the session stays within the items, and before a failure.  How a rule reads the items
depends on the items and the start alone, by the equations of the rules. -/
theorem calls_answer_as_readings (source : String) (journal : Option (List Entry)) (rules : List Rule) :
    let items := (TokenStream.ofSource source).items
    let begun := moment source [] journal
    let s := (begun.calls rules).2
    (begun.calls rules).1 = Rule.replies items rules 0 ∧
      (∀ later, (s.calls later).1 = Rule.replies items later s.position) ∧
      (∀ (rule : Rule) (offset : Nat), (Parser.call rule s).1 = .failed offset ↔
        ∃ place < (rule.read items s.position).reach, items[place]? = some (.failure offset)) ∧
      Item.Passed items s.position ∧
      ∀ (rule : Rule) (start : Nat),
        rule.read items start = rule.reader Rule.read (items.length - start + 1) items start := by
  intro items begun s
  have along : begun.cursor.Over items := over_moment
  have passed : Item.Passed items begun.position := ⟨Nat.zero_le _, nofun⟩
  obtain ⟨answers, along'⟩ := calls_eq_replies along rules
  have passed' : Item.Passed items s.position := passed_calls along passed rules
  refine ⟨answers, fun later => (calls_eq_replies along' later).1, ?_, passed', ?_⟩
  · intro rule offset
    rw [← rule.heeds_read.failed_iff passed'.token]
    exact (Parser.call_refines rule items s along').failed_iff
  · intro rule start
    exact Rule.read_eq'

end Session

end Definiens
