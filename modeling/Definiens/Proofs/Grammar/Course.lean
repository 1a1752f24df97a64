import Definiens.Proofs.Grammar.Aftermath

/-!
# The courses of parsers

Whatever a parser tries and gives up, what it does with a session is a course: items are read, some of
them are given back at once, and rules are tried, each of which takes a course of its own inside.  The
journal of the session tells the whole course, move by move and event by event.  A course is good only at
its place, since what is read depends on what there is ahead.
-/

namespace Definiens

/-- What is done with a session, one thing after another. -/
inductive Course where
  | done
  | read (lexed : List Item) (later : Course)
  | peek (lexed : List Item) (later : Course)
  /-- A rule is tried at a position, and matches up to another one unless it does not match. -/
  | attempt (rule : Rule) (start : Nat) (inside : Course) (stop? : Option Nat) (later : Course)

/-! ## What is told of a course -/

namespace Entry

def reading (lexed : List Item) : List Entry :=
  .move .next :: lexed.map fun item => .event (.lexed item)

def closing (rule : Rule) (start : Nat) : Option Nat → List Entry
  | some stop => [.event (.matched rule start stop), .move .commit]
  | none => [.event (.noMatch rule start), .move .rollback]

end Entry

namespace Course

def append : Course → Course → Course
  | .done, others => others
  | .read lexed later, others => .read lexed (later.append others)
  | .peek lexed later, others => .peek lexed (later.append others)
  | .attempt rule start inside stop? later, others =>
    .attempt rule start inside stop? (later.append others)

def entries : Course → List Entry
  | .done => []
  | .read lexed later => Entry.reading lexed ++ later.entries
  | .peek lexed later => Entry.reading lexed ++ .move .stepBack :: later.entries
  | .attempt rule start inside stop? later =>
    .event (.attempt rule start) :: .move .checkpoint ::
      (inside.entries ++ (Entry.closing rule start stop? ++ later.entries))

theorem entries_append (course others : Course) :
    (course.append others).entries = course.entries ++ others.entries := by
  induction course with
  | done => rfl
  | read lexed later ih => simp [append, entries, ih]
  | peek lexed later ih => simp [append, entries, ih]
  | attempt rule start inside stop? later _ ih => simp [append, entries, ih]

/-! ## Where a course goes -/

/-- A course over the given items leads from one position to another one.  Each rule that is tried in it
needs less than the bound, and those inside that one need less again. -/
inductive Runs (items : List Item) : (bound start : Nat) → Course → (stop : Nat) → Prop where
  | done {bound start : Nat} : Runs items bound start .done start
  | read {bound start stop : Nat} {later : Course} (lexed : List Item)
      (behind : Runs items bound (if start < items.length then start + 1 else start) later stop) :
      Runs items bound start (.read lexed later) stop
  | peek {bound start stop : Nat} {later : Course} (lexed : List Item) (ahead : start < items.length)
      (behind : Runs items bound start later stop) : Runs items bound start (.peek lexed later) stop
  | matched {bound start middle stop : Nat} {inside later : Course} (rule : Rule)
      (lower : rule.need (items.length - start) < bound)
      (within : Runs items (rule.need (items.length - start)) start inside middle)
      (behind : Runs items bound middle later stop) :
      Runs items bound start (.attempt rule start inside (some middle) later) stop
  | noMatch {bound start middle stop : Nat} {inside later : Course} (rule : Rule)
      (lower : rule.need (items.length - start) < bound)
      (within : Runs items (rule.need (items.length - start)) start inside middle)
      (behind : Runs items bound start later stop) :
      Runs items bound start (.attempt rule start inside none later) stop

namespace Runs

variable {items : List Item} {bound start middle stop : Nat} {course others : Course}

theorem append (runs : course.Runs items bound start middle) (behind : others.Runs items bound middle stop) :
    (course.append others).Runs items bound start stop := by
  induction runs with
  | done => exact behind
  | read lexed _ ih => exact .read lexed (ih behind)
  | peek lexed ahead _ ih => exact .peek lexed ahead (ih behind)
  | matched rule lower within _ _ ih => exact .matched rule lower within (ih behind)
  | noMatch rule lower within _ _ ih => exact .noMatch rule lower within (ih behind)

theorem start_le (runs : course.Runs items bound start stop) : start ≤ stop := by
  induction runs with
  | done => exact Nat.le_refl _
  | read lexed _ ih =>
    refine Nat.le_trans ?_ ih
    split
    · exact Nat.le_succ _
    · exact Nat.le_refl _
  | peek lexed _ _ ih => exact ih
  | matched rule _ _ _ ih ih' => exact Nat.le_trans ih ih'
  | noMatch rule _ _ _ _ ih' => exact ih'

end Runs

end Course

/-! ## Journals -/

namespace Session

/-- The second session has entered so much more than the first one, if it has a journal at all, and its
cursor has come from that of the first one by the moves among what was entered. -/
structure Enters (s : Session) (entries : List Entry) (s' : Session) : Prop where
  journal : s'.journal = s.journal.map (entries.reverse ++ ·)
  cursor : s'.cursor = s.cursor.after (entries.filterMap Entry.move?)

theorem journal_record (entry : Entry) (s : Session) :
    (s.record entry).journal = s.journal.map (entry :: ·) := by
  rcases s with ⟨cursor, _ | journal⟩ <;> rfl

theorem journal_foldl_note (lexed : List Item) (s : Session) :
    (lexed.foldl (fun s item => s.note (.lexed item)) s).journal =
      s.journal.map ((lexed.map fun item => Entry.event (.lexed item)).reverse ++ ·) := by
  induction lexed generalizing s with
  | nil =>
    rcases s with ⟨cursor, _ | journal⟩ <;> rfl
  | cons item lexed ih =>
    rw [List.foldl_cons, ih, note, journal_record, Option.map_map]
    exact congrArg (s.journal.map ·) (funext fun journal => by simp)

namespace Enters

variable {s s' s'' : Session} {entries others : List Entry}

theorem refl (s : Session) : s.Enters [] s := by
  rcases s with ⟨cursor, _ | journal⟩ <;> exact ⟨rfl, rfl⟩

theorem trans (first : s.Enters entries s') (second : s'.Enters others s'') :
    s.Enters (entries ++ others) s'' where
  journal := by
    rw [second.journal, first.journal, Option.map_map]
    exact congrArg (s.journal.map ·) (funext fun journal => by simp)
  cursor := by
    rw [second.cursor, first.cursor, List.filterMap_append, Cursor.after_append]

theorem note (s : Session) (event : Event) : s.Enters [.event event] (s.note event) :=
  ⟨journal_record _ s, cursor_note event s⟩

theorem move (s : Session) (move : Move) :
    s.Enters (.move move :: (s.cursor.step move).notices.map fun item => .event (.lexed item))
      (s.move move).2 where
  journal := by
    simp only [Session.move, journal_foldl_note, journal_record, Option.map_map]
    exact congrArg (s.journal.map ·) (funext fun journal => by simp)
  cursor := by
    have silent : ((s.cursor.step move).notices.map fun item => Entry.event (.lexed item)).filterMap
        Entry.move? = [] := by
      simp [List.filterMap_map, Entry.move?]
    rw [cursor_move, List.filterMap_cons, silent]
    rfl

theorem history_eq (enters : s.Enters entries s') (observed : s.journal.isSome) :
    s'.history = s.history ++ entries := by
  rcases s with ⟨cursor, _ | journal⟩
  · cases observed
  · simp [history, enters.journal]

end Enters

theorem enters_move_quiet (s : Session) {move : Move} (quiet : move ≠ .next) :
    s.Enters [.move move] (s.move move).2 := by
  have silent : (s.cursor.step move).notices = [] := by
    cases move with
    | next => exact absurd rfl quiet
    | checkpoint => rfl
    | rollback =>
      simp only [Cursor.step, Cursor.rollback]
      cases s.cursor.checkpoints <;> rfl
    | commit => rfl
    | stepBack =>
      simp only [Cursor.step, Cursor.stepBack]
      cases s.cursor.position <;> rfl
  have enters := Enters.move s move
  rw [silent] at enters
  exact enters

end Session

/-! ## Courses of sessions -/

/-- A cursor that is put no further ahead, with any places saved, goes over the same items. -/
theorem Cursor.Over.elsewhere {items : List Item} {c : Cursor TokenStream Item} (along : c.Over items)
    {position : Nat} {checkpoints : List Nat} (le : position ≤ c.position) :
    ({ c with position, checkpoints } : Cursor TokenStream Item).Over items :=
  ⟨along.split, along.furthest, Nat.le_trans le along.position_le⟩

/-- The course leads from one session to another one over the same items; the places saved are the same,
and what the second session has entered more is the course. -/
structure Course.Leads (course : Course) (items : List Item) (bound : Nat) (s s' : Session) : Prop where
  along : s'.cursor.Over items
  checkpoints : s'.cursor.checkpoints = s.cursor.checkpoints
  runs : course.Runs items bound s.position s'.position
  enters : s.Enters course.entries s'

namespace Course.Leads

variable {items : List Item} {bound : Nat} {s s' s'' : Session} {course others : Course}

theorem refl (along : s.cursor.Over items) : Course.done.Leads items bound s s :=
  ⟨along, rfl, .done, .refl s⟩

theorem trans (first : course.Leads items bound s s') (second : others.Leads items bound s' s'') :
    (course.append others).Leads items bound s s'' where
  along := second.along
  checkpoints := second.checkpoints.trans first.checkpoints
  runs := first.runs.append second.runs
  enters := by
    rw [Course.entries_append]
    exact first.enters.trans second.enters

end Course.Leads

def Session.stop? {α : Type} (ended : Outcome α × Session) : Option Nat :=
  if ended.1.isMatch then some ended.2.position else none

/-- What has come of trying a rule in session `s` is a course in which only this rule is tried, with its
position, and with the end of its match if it has matched. -/
def Rule.Traced (items : List Item) (bound : Nat) (rule : Rule) (s : Session)
    (ended : Outcome rule.Result × Session) : Prop :=
  ∃ inside, (Course.attempt rule s.position inside (Session.stop? ended) .done).Leads items bound s ended.2

namespace Parser

variable {α : Type} {items : List Item} {bound : Nat} {s : Session}

theorem snd_nextToken (s : Session) : (nextToken s).2 = (s.move .next).2 := by
  rw [nextToken]
  rcases s.move .next with ⟨(token | offset) | _ | _ | _, s'⟩ <;> rfl

theorem nextToken_leads (along : s.cursor.Over items) :
    ∃ lexed, (Course.read lexed .done).Leads items bound s (nextToken s).2 := by
  obtain ⟨s', read, along', checkpoints, -, position⟩ := nextToken_over along
  have last : (nextToken s).2 = s' := congrArg Prod.snd read
  refine ⟨(s.cursor.step .next).notices, ?_, ?_, .read _ ?_, ?_⟩
  · exact last ▸ along'
  · exact last ▸ checkpoints
  · rw [last, position]
    exact .done
  · rw [snd_nextToken, Course.entries, Course.entries, List.append_nil]
    exact Session.Enters.move s .next

theorem stepBack_leads (along : s.cursor.Over items) (ahead : s.position < items.length) :
    ∃ lexed, (Course.peek lexed .done).Leads items bound s ((nextToken s).2.move .stepBack).2 := by
  obtain ⟨s', read, along', checkpoints, -, position⟩ := nextToken_over along
  have last : (nextToken s).2 = s' := congrArg Prod.snd read
  rw [if_pos ahead] at position
  have stepped := cursor_stepBack position
  refine ⟨(s.cursor.step .next).notices, ?_, ?_, .peek _ ahead ?_, ?_⟩
  · rw [last, stepped]
    exact along'.elsewhere (Nat.le_of_lt (Nat.lt_of_succ_le (Nat.le_of_eq position.symm)))
  · rw [last, stepped]
    exact checkpoints
  · have back : (s'.move .stepBack).2.position = s.position := by
      rw [Session.position, stepped]
    rw [last, back]
    exact .done
  · rw [snd_nextToken]
    exact (Session.Enters.move s .next).trans (Session.enters_move_quiet _ (by decide))

/-- A parser that depends on the next token goes on behind it or from where it began, or has failed. -/
theorem ifNext_cases (α : Type) (kind : Kind) (bound : Nat) (along : s.cursor.Over items) :
    ∃ (course : Course) (s' : Session), course.Leads items bound s s' ∧
      ((s'.position = s.position + 1 ∧ ∀ yes no : Parser α, ifNext kind yes no s = yes s') ∨
        (∀ yes no : Parser α, ifNext kind yes no s = no s') ∨
        ∃ offset, ∀ yes no : Parser α, ifNext kind yes no s = (.failed offset, s')) := by
  obtain ⟨lexed, reads⟩ := nextToken_leads along
  obtain ⟨s', ended, along', -, -, position⟩ := nextToken_over along
  simp only [ifNext_eq, ended]
  rw [ended] at reads
  rcases here : items[s.position]? with _ | token | offset
  · exact ⟨_, s', reads, .inr (.inl fun yes no => rfl)⟩
  · obtain ⟨ahead, -⟩ := List.getElem?_eq_some_iff.mp here
    rw [if_pos ahead] at position
    cases expected : token.is kind
    · obtain ⟨lexed', peeks⟩ := stepBack_leads along ahead
      rw [ended] at peeks
      exact ⟨_, _, peeks, .inr (.inl fun yes no => by simp [expected])⟩
    · exact ⟨_, s', reads, .inl ⟨position, fun yes no => by simp [expected]⟩⟩
  · exact ⟨_, s', reads, .inr (.inr ⟨offset, fun yes no => rfl⟩)⟩

theorem cursor_opened (rule : Rule) (s : Session) :
    ((s.note (.attempt rule s.position)).move .checkpoint).2.cursor = s.cursor.checkpoint := by
  rw [Session.cursor_move, Session.cursor_note]
  rfl

theorem position_opened {begun : Session} (opened : begun.cursor = s.cursor.checkpoint) :
    begun.position = s.position := by
  rw [Session.position, opened]
  rfl

section

variable {rule : Rule} {inside : Course} {begun s' : Session} (opened : begun.cursor = s.cursor.checkpoint)
  (entered : s.Enters [.event (.attempt rule s.position), .move .checkpoint] begun)
  (lower : rule.need (items.length - s.position) < bound)
  (within : inside.Leads items (rule.need (items.length - s.position)) begun s')
include opened entered lower within

theorem commit_leads :
    (Course.attempt rule s.position inside (some s'.position) .done).Leads items bound s
      ((s'.note (.matched rule s.position s'.position)).move .commit).2 := by
  obtain ⟨along', checkpoints, runs, enters⟩ := within
  have committed : ((s'.note (.matched rule s.position s'.position)).move .commit).2.cursor =
      s'.cursor.commit := by
    rw [Session.cursor_move, Session.cursor_note]
    rfl
  have stop : ((s'.note (.matched rule s.position s'.position)).move .commit).2.position = s'.position := by
    rw [Session.position, committed]
    rfl
  rw [opened] at checkpoints
  rw [position_opened opened] at runs
  refine ⟨?_, ?_, ?_, ?_⟩
  · rw [committed]
    exact along'.elsewhere (Nat.le_refl _)
  · rw [committed, Cursor.commit, checkpoints]
    rfl
  · rw [stop]
    exact .matched rule lower runs .done
  · exact (entered.trans enters).trans ((Session.Enters.note s' _).trans
      (Session.enters_move_quiet _ (by decide)))

theorem rollback_leads :
    (Course.attempt rule s.position inside none .done).Leads items bound s
      ((s'.note (.noMatch rule s.position)).move .rollback).2 := by
  obtain ⟨along', checkpoints, runs, enters⟩ := within
  rw [opened] at checkpoints
  rw [position_opened opened] at runs
  have saved : (s'.note (.noMatch rule s.position)).cursor.checkpoints = s.cursor.checkpoint.checkpoints :=
    (congrArg Cursor.checkpoints (Session.cursor_note _ s')).trans checkpoints
  have back := cursor_rollback saved
  rw [Session.cursor_note] at back
  have stop : ((s'.note (.noMatch rule s.position)).move .rollback).2.position = s.position := by
    rw [Session.position, back]
    rfl
  refine ⟨?_, ?_, ?_, ?_⟩
  · rw [back]
    exact along'.elsewhere runs.start_le
  · rw [back]
  · rw [stop]
    exact .noMatch rule lower runs .done
  · exact (entered.trans enters).trans ((Session.Enters.note s' _).trans
      (Session.enters_move_quiet _ (by decide)))

end

theorem attempt_congr {p p' : Parser α} (rule : Rule)
    (within : ∀ begun : Session, begun.cursor = s.cursor.checkpoint → p begun = p' begun) :
    attempt rule p s = attempt rule p' s := by
  simp only [attempt, within _ (cursor_opened rule s)]

/-- Trying a rule is a course, if what is done inside is one. -/
theorem attempt_leads {p : Parser α} (rule : Rule) (lower : rule.need (items.length - s.position) < bound)
    (within : ∀ begun : Session, begun.cursor = s.cursor.checkpoint →
      ∃ inside : Course, inside.Leads items (rule.need (items.length - s.position)) begun (p begun).2) :
    ∃ inside, (Course.attempt rule s.position inside (Session.stop? (attempt rule p s)) .done).Leads items
      bound s (attempt rule p s).2 := by
  have opened := cursor_opened rule s
  have entered : s.Enters [.event (.attempt rule s.position), .move .checkpoint]
      ((s.note (.attempt rule s.position)).move .checkpoint).2 :=
    (Session.Enters.note s _).trans (Session.enters_move_quiet _ (by decide))
  obtain ⟨inside, within⟩ := within _ opened
  refine ⟨inside, ?_⟩
  simp only [attempt]
  generalize p _ = ended at *
  rcases ended with ⟨value | _ | offset, s'⟩
  · have committed := commit_leads opened entered lower within
    have stop : ((s'.note (.matched rule s.position s'.position)).move .commit).2.position =
        s'.position := by
      rw [Session.position, Session.cursor_move, Session.cursor_note]
      rfl
    simp only [Session.stop?, Outcome.isMatch, if_true, stop]
    exact committed
  · exact rollback_leads opened entered lower within
  · exact rollback_leads opened entered lower within

end Parser

end Definiens
