import Definiens.Proofs.Grammar.Calls
import Definiens.Proofs.Grammar.Descending
import Definiens.Proofs.Grammar.Refusal

/-!
# Moves in order

A cursor answers some moves with a misuse, and others it makes without a word although they make no sense
where it stands.  No rule comes to either: what a rule does with the cursor begins with a checkpoint of its
own and ends with the move that settles it, and in between nothing is given back that was read before.
-/

namespace Definiens

namespace Cursor

variable {σ α ε : Type} [Supply σ α ε] {c : Cursor σ α}

/-- A place has been saved, and the last one that was does not lie behind the given one. -/
def SavedUpTo (c : Cursor σ α) (place : Nat) : Prop :=
  ∃ saved others, c.checkpoints = saved :: others ∧ saved ≤ place

/-- The cursor has what a move is to settle: a place to return to or to forget, and a value to give back that
was read since the last place was saved. -/
def InOrder (c : Cursor σ α) : Move → Prop
  | .next => True
  | .checkpoint => True
  | .rollback => c.checkpoints ≠ []
  | .commit => c.checkpoints ≠ []
  | .stepBack => 0 < c.position ∧ c.SavedUpTo (c.step .stepBack).cursor.position

def Admits (c : Cursor σ α) : List Move → Prop
  | [] => True
  | move :: moves => c.InOrder move ∧ (c.step move).cursor.Admits moves

theorem InOrder.answer_ne_misuse {move : Move} (inOrder : c.InOrder move) (misuse : Misuse) :
    (c.step move).answer ≠ .misuse misuse := by
  cases move with
  | next =>
    rw [step]
    rcases c.next with ⟨_ | value, notices, rest⟩ <;> simp
  | checkpoint => simp [step]
  | rollback =>
    obtain ⟨saved, others, saves⟩ := List.exists_cons_of_ne_nil inOrder
    simp [step, settle, rollback, saves]
  | commit => simp [step]
  | stepBack =>
    obtain ⟨position, place⟩ := Nat.exists_eq_add_one.mpr inOrder.1
    simp [step, settle, stepBack, place]

theorem admits_append {moves later : List Move} :
    c.Admits (moves ++ later) ↔ c.Admits moves ∧ (c.after moves).Admits later := by
  induction moves generalizing c with
  | nil => simp [Admits, after]
  | cons move moves ih =>
    rw [List.cons_append, Admits, Admits, ih, and_assoc]
    rfl

theorem Admits.inOrder {before behind : List Move} {move : Move}
    (admits : c.Admits (before ++ move :: behind)) : (c.after before).InOrder move :=
  (admits_append.mp admits).2.1

/-! ## Series of moves -/

variable {items : List Item} {c : Cursor TokenStream Item} {moves later : List Move} {middle stop : Nat}

/-- The moves are in order, and they lead the cursor to another place of the same items, with the same places
saved. -/
structure Orderly (items : List Item) (c : Cursor TokenStream Item) (moves : List Move) (stop : Nat) :
    Prop where
  admits : c.Admits moves
  along : (c.after moves).Over items
  checkpoints : (c.after moves).checkpoints = c.checkpoints
  position : (c.after moves).position = stop

namespace Orderly

theorem nil (along : c.Over items) : c.Orderly items [] c.position := ⟨trivial, along, rfl, rfl⟩

theorem still {start : Nat} (first : c.Orderly items moves stop) (forward : start ≤ middle)
    (inside : c.SavedUpTo start) : (c.after moves).SavedUpTo middle := by
  obtain ⟨saved, others, saves, le⟩ := inside
  exact ⟨saved, others, first.checkpoints.trans saves, Nat.le_trans le forward⟩

theorem append (first : c.Orderly items moves middle) (second : (c.after moves).Orderly items later stop) :
    c.Orderly items (moves ++ later) stop where
  admits := admits_append.mpr ⟨first.admits, second.admits⟩
  along := by
    rw [after_append]
    exact second.along
  checkpoints := by
    rw [after_append, second.checkpoints, first.checkpoints]
  position := by
    rw [after_append, second.position]

theorem next (along : c.Over items) :
    c.Orderly items [.next] (if c.position < items.length then c.position + 1 else c.position) := by
  obtain ⟨-, along', checkpoints, -, position⟩ := along.next
  rw [← cursor_step_next] at along' checkpoints position
  exact ⟨⟨trivial, trivial⟩, along', checkpoints, position⟩

theorem stepBack {start : Nat} (along : c.Over items) (place : c.position = start + 1)
    (inside : c.SavedUpTo start) : c.Orderly items [.stepBack] start := by
  have stepped := cursor_step_stepBack place
  have back : c.after [.stepBack] = { c with position := start } := stepped
  refine ⟨⟨⟨by omega, ?_⟩, trivial⟩, ?_, ?_, ?_⟩
  · rw [stepped]
    exact inside
  · rw [back]
    exact along.elsewhere (by omega)
  · rw [back]
  · rw [back]

section

variable (inside : c.checkpoint.Orderly items moves stop)
include inside

theorem exists_saved : (c.checkpoint.after moves).checkpoints ≠ [] := by
  rw [inside.checkpoints]
  exact List.cons_ne_nil _ _

theorem matched : c.Orderly items (.checkpoint :: (moves ++ [.commit])) stop := by
  have last : c.after (.checkpoint :: (moves ++ [.commit])) = (c.checkpoint.after moves).commit :=
    after_append moves [.commit]
  refine ⟨⟨trivial, admits_append.mpr ⟨inside.admits, inside.exists_saved, trivial⟩⟩, ?_, ?_, ?_⟩
  · rw [last]
    exact inside.along.elsewhere (Nat.le_refl _)
  · rw [last, commit, inside.checkpoints]
    rfl
  · rw [last]
    exact inside.position

theorem noMatch (forward : c.position ≤ stop) :
    c.Orderly items (.checkpoint :: (moves ++ [.rollback])) c.position := by
  have saves : (c.checkpoint.after moves).checkpoints = c.position :: c.checkpoints := inside.checkpoints
  have last : c.after (.checkpoint :: (moves ++ [.rollback])) =
      { c.checkpoint.after moves with position := c.position, checkpoints := c.checkpoints } :=
    (after_append moves [.rollback]).trans (cursor_step_rollback saves)
  rw [← inside.position] at forward
  refine ⟨⟨trivial, admits_append.mpr ⟨inside.admits, inside.exists_saved, trivial⟩⟩, ?_, ?_, ?_⟩
  · rw [last]
    exact inside.along.elsewhere forward
  · rw [last]
  · rw [last]

end

end Orderly

end Cursor

/-! ## Courses -/

namespace Course

def moves (course : Course) : List Move := course.entries.filterMap Entry.move?

theorem moves_reading (lexed : List Item) : (Entry.reading lexed).filterMap Entry.move? = [.next] := by
  simp [Entry.reading, Entry.move?, List.filterMap_map]

variable {later inside : Course} {rule : Rule} {start : Nat}

theorem moves_read (lexed : List Item) : (read lexed later).moves = [.next] ++ later.moves := by
  rw [moves, entries, List.filterMap_append, moves_reading, ← moves]

theorem moves_peek (lexed : List Item) : (peek lexed later).moves = [.next] ++ ([.stepBack] ++ later.moves) := by
  rw [moves, entries, List.filterMap_append, moves_reading]
  rfl

theorem moves_attempt (stop? : Option Nat) : (attempt rule start inside stop? later).moves =
    .checkpoint :: (inside.moves ++ [if stop?.isSome then .commit else .rollback]) ++ later.moves := by
  cases stop? <;> simp [moves, entries, Entry.closing, List.filterMap_cons, Entry.move?]

/-- Something is given back outside of the rules that are tried. -/
def GivesBack : Course → Prop
  | .done => False
  | .read _ later => later.GivesBack
  | .peek _ _ => True
  | .attempt _ _ _ _ later => later.GivesBack

/-- The moves on a course are in order, if a place has been saved for what is given back outside of rules. -/
theorem Runs.orderly {items : List Item} {bound start stop : Nat} {course : Course}
    (runs : course.Runs items bound start stop) {c : Cursor TokenStream Item} (along : c.Over items)
    (place : c.position = start) (inside : course.GivesBack → c.SavedUpTo start) :
    c.Orderly items course.moves stop := by
  -- along the course; a rule that is tried has a checkpoint of its own inside
  induction runs generalizing c with
  | done => exact place ▸ .nil along
  | @read bound start stop later lexed behind ih =>
    rw [moves_read]
    have first := Cursor.Orderly.next along
    rw [place] at first
    have forward : start ≤ if start < items.length then start + 1 else start := by
      split <;> omega
    exact first.append (ih first.along first.position fun gives => first.still forward (inside gives))
  | @peek bound start stop later lexed ahead behind ih =>
    rw [moves_peek]
    have first := Cursor.Orderly.next along
    rw [place, if_pos ahead] at first
    have inside' := first.still (Nat.le_refl start) (inside trivial)
    have second := Cursor.Orderly.stepBack first.along first.position inside'
    exact first.append
      (second.append (ih second.along second.position fun _ => second.still (Nat.le_refl start) inside'))
  | matched rule lower within behind ih ih' =>
    have opened : c.checkpoint.Over items := along.elsewhere (Nat.le_refl _)
    have tried := (ih opened place fun _ => ⟨c.position, c.checkpoints, rfl, Nat.le_of_eq place⟩).matched
    rw [moves_attempt]
    exact tried.append
      (ih' tried.along tried.position fun gives => tried.still within.start_le (inside gives))
  | noMatch rule lower within behind ih ih' =>
    subst place
    have opened : c.checkpoint.Over items := along.elsewhere (Nat.le_refl _)
    have tried := (ih opened rfl fun _ => ⟨c.position, c.checkpoints, rfl, Nat.le_refl _⟩).noMatch
      within.start_le
    rw [moves_attempt]
    exact tried.append
      (ih' tried.along tried.position fun gives => tried.still (Nat.le_refl _) (inside gives))

end Course

/-! ## Sessions -/

namespace Session

variable {items : List Item} {begun : Cursor TokenStream Item} {s s' : Session}

/-- Since the cursor stood as it has begun, all moves of the session were in order, and nothing is saved any
more. -/
structure Orderly (items : List Item) (begun : Cursor TokenStream Item) (s : Session) : Prop where
  observed : s.journal.isSome
  along : s.cursor.Over items
  cursor : s.cursor = begun.after s.moves
  admits : begun.Admits s.moves
  settled : s.cursor.checkpoints = []

namespace Orderly

theorem enters (orderly : s.Orderly items begun) {entries : List Entry} (enters : s.Enters entries s')
    (along : s'.cursor.Over items) (admits : s.cursor.Admits (entries.filterMap Entry.move?))
    (same : s'.cursor.checkpoints = s.cursor.checkpoints) : s'.Orderly items begun := by
  have moves : s'.moves = s.moves ++ entries.filterMap Entry.move? := by
    rw [Session.moves, enters.history_eq orderly.observed, List.filterMap_append]
    rfl
  refine ⟨?_, along, ?_, ?_, same.trans orderly.settled⟩
  · rw [enters.journal, Option.isSome_map]
    exact orderly.observed
  · rw [moves, Cursor.after_append, ← orderly.cursor]
    exact enters.cursor
  · rw [moves]
    refine Cursor.admits_append.mpr ⟨orderly.admits, ?_⟩
    rw [← orderly.cursor]
    exact admits

/-- A course is in order if nothing is given back but inside rules. -/
theorem leads (orderly : s.Orderly items begun) {course : Course} {bound : Nat}
    (leads : course.Leads items bound s s') (keeps : ¬course.GivesBack) : s'.Orderly items begun :=
  have made := leads.runs.orderly orderly.along rfl fun gives => absurd gives keeps
  orderly.enters leads.enters leads.along made.admits leads.checkpoints

theorem note (orderly : s.Orderly items begun) (event : Event) : (s.note event).Orderly items begun := by
  have same := Session.cursor_note event s
  refine orderly.enters (.note s event) ?_ trivial (congrArg Cursor.checkpoints same)
  rw [same]
  exact orderly.along

theorem call (orderly : s.Orderly items begun) (rule : Rule) :
    (Parser.call rule s).2.Orderly items begun := by
  obtain ⟨inside, tried⟩ : rule.Traced items _ s _ := Parser.call_traced orderly.along (Nat.lt_succ_self _)
  exact orderly.leads tried id

theorem calls (orderly : s.Orderly items begun) (rules : List Rule) :
    (s.calls rules).2.Orderly items begun := by
  induction rules generalizing s with
  | nil => exact orderly
  | cons rule rules ih => exact ih (orderly.call rule)

theorem drainUpTo (orderly : s.Orderly items begun) (count : Nat) :
    (Parser.drainUpTo count s).2.Orderly items begun := by
  induction count generalizing s with
  | zero => exact orderly
  | succ count ih =>
    obtain ⟨lexed, reads⟩ := @Parser.nextToken_leads items 0 s orderly.along
    have orderly' := orderly.leads reads id
    rw [Parser.drainUpTo_succ]
    generalize Parser.nextToken s = ended at *
    rcases ended with ⟨token | _ | offset, s'⟩
    · dsimp only
      split
      · exact orderly'
      · exact ih orderly'
    · exact orderly'
    · exact orderly'

theorem refuse (orderly : s.Orderly items begun) : s.refuse.2.Orderly items begun := by
  have drained : (Parser.drain s).2.Orderly items begun := orderly.drainUpTo _
  rw [Session.refuse]
  generalize Parser.drain s = ended at *
  rcases ended with ⟨_ | _ | offset, s'⟩
  · exact drained.note _
  · exact drained.note _
  · exact drained

theorem read (orderly : s.Orderly items begun) : s.read.2.Orderly items begun := by
  have first := orderly.call .definition
  simp only [Session.read, Parser.whole, Bind.bind, Parser.andThen]
  generalize Parser.call .definition s = ended at *
  rcases ended with ⟨d | _ | offset, s'⟩
  · have second := first.call .atEnd
    dsimp only at second ⊢
    generalize Parser.call .atEnd s' = ended at *
    rcases ended with ⟨token | _ | offset, s''⟩
    · exact second
    · exact second.refuse
    · exact second
  · exact first.refuse
  · exact first

end Orderly

end Session

/-- Whatever rules are called on a session of a source, and if the source is read whole then or at once: the
cursor has come where it is by the moves of the session, and each of them was in order when it was made, so
that none of them was a misuse.  Nothing is left saved in the end. -/
theorem moves_in_order (source : String) (rules : List Rule) :
    let begun : Cursor TokenStream Item := .ofSupply (.ofSource source)
    let called := ((Session.observed source).calls rules).2
    ∀ s ∈ [called, called.read.2],
      s.cursor = begun.after s.moves ∧ s.cursor.checkpoints = [] ∧
        ∀ before move behind, s.moves = before ++ move :: behind →
          (begun.after before).InOrder move ∧
            ∀ misuse, ((begun.after before).step move).answer ≠ .misuse misuse := by
  intro begun called s member
  have observed : (Session.observed source).Orderly (TokenStream.ofSource source).items begun :=
    ⟨rfl, Cursor.over_ofSupply _, rfl, trivial, rfl⟩
  have orderly : s.Orderly (TokenStream.ofSource source).items begun := by
    have after := observed.calls rules
    simp only [List.mem_cons, List.not_mem_nil, or_false] at member
    rcases member with rfl | rfl
    · exact after
    · exact after.read
  refine ⟨orderly.cursor, orderly.settled, fun before move behind parted => ?_⟩
  have admits := orderly.admits
  rw [parted] at admits
  exact ⟨admits.inOrder, admits.inOrder.answer_ne_misuse⟩

/-- The item behind the last term of a list is given back inside the checkpoint of the list. -/
theorem moves_in_order_behind_last_term :
    let begun : Cursor TokenStream Item := .ofSupply (.ofSource "x y")
    let s := ((Session.observed "x y").calls [.termList]).2
    let before : List Move := [.checkpoint, .checkpoint, .checkpoint, .next, .next, .rollback, .checkpoint,
      .next, .commit, .commit, .next]
    s.moves = before ++ .stepBack :: [.commit] ∧ (begun.after before).InOrder .stepBack := by
  intro begun s before
  have parted : s.moves = before ++ .stepBack :: [.commit] := by decide +kernel
  obtain ⟨-, -, all⟩ := moves_in_order "x y" [.termList] s List.mem_cons_self
  exact ⟨parted, (all before .stepBack [.commit] parted).1⟩

end Definiens
