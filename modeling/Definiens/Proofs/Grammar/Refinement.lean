import Definiens.Proofs.Cursor.Bounds
import Definiens.Proofs.Grammar.Allowance
import Definiens.Proofs.Token.Items

/-!
# Parsers refine readers

A cursor lies over a fixed list of items: what it has logged is the beginning of the list, and its
supply holds the rest.  A parser that refines a reader ends as the reader ends on that list, stands
where the reader stands, and has logged exactly what the reader has looked at, whatever was logged
before; and it leaves the checkpoints as they were.
-/

namespace Definiens

/-- The cursor goes over the given items, has logged some of them and has been as far as that. -/
structure Cursor.Over (items : List Item) (c : Cursor TokenStream Item) : Prop where
  split : c.log.toList ++ c.supply.items = items
  furthest : c.furthest = c.log.size
  position_le : c.position ≤ c.log.size

namespace Cursor

theorem over_ofSupply (stream : TokenStream) : (Cursor.ofSupply stream).Over stream.items :=
  ⟨List.nil_append _, rfl, Nat.le_refl _⟩

namespace Over

variable {items : List Item} {c : Cursor TokenStream Item}

theorem size_le (along : c.Over items) : c.log.size ≤ items.length := by
  have total := congrArg List.length along.split
  rw [List.length_append, Array.length_toList] at total
  omega

theorem getElem?_log (along : c.Over items) {place : Nat} (logged : place < c.log.size) :
    c.log[place]? = items[place]? := by
  rw [← along.split, List.getElem?_append_left (by simpa using logged), Array.getElem?_toList]

theorem furthestValue?_eq (along : c.Over items) {last : Nat} (size : c.log.size = last + 1) :
    c.furthestValue? = items[last]? := by
  rw [furthestValue?, along.furthest, size]
  exact along.getElem?_log (by omega)

theorem next (along : c.Over items) :
    c.next.value = items[c.position]? ∧ c.next.rest.Over items ∧
      c.next.rest.checkpoints = c.checkpoints ∧
      c.next.rest.log.size = max c.log.size (min (c.position + 1) items.length) ∧
      c.next.rest.position = if c.position < items.length then c.position + 1 else c.position := by
  have size := along.size_le
  by_cases logged : c.position < c.log.size
  · -- inside the log the value is read again and nothing is drawn
    have here := along.getElem?_log logged
    have value : c.log[c.position]? = some c.log[c.position] := Array.getElem?_eq_getElem logged
    have furthest := along.furthest
    rw [Cursor.next, value]
    refine ⟨?_, ⟨along.split, ?_, logged⟩, rfl, ?_, ?_⟩
    · rw [← here, value]
    · simp only [advance]
      omega
    · simp only [advance]
      omega
    · rw [if_pos (by omega)]
      rfl
  · have atEnd : c.position = c.log.size := by
      have := along.position_le
      omega
    have value : c.log[c.position]? = none := Array.getElem?_eq_none (by omega)
    have length : c.log.size + c.supply.items.length = items.length := by
      simp [← along.split]
    have here : items[c.position]? = c.supply.items[0]? := by
      rw [← along.split, List.getElem?_append_right (by simp [atEnd])]
      simp [atEnd]
    rw [Cursor.next, value]
    cases running : c.supply.halt with
    | none =>
      have ahead := TokenStream.items_of_running running
      rw [ahead, List.length_cons] at length
      simp only [TokenStream.draw_of_running running]
      refine ⟨?_, ⟨?_, ?_, ?_⟩, rfl, ?_, ?_⟩
      · rw [here, ahead, List.getElem?_cons_zero]
      · simp [advance, ← along.split, ahead]
      · simp [advance, along.furthest, atEnd]
      · simp [advance, atEnd]
      · simp only [advance, Array.size_push]
        omega
      · rw [if_pos (by omega)]
        rfl
    | some halt =>
      have ahead := TokenStream.items_of_stopped running
      rw [ahead, List.length_nil] at length
      simp only [TokenStream.draw_of_stopped running]
      refine ⟨?_, along, trivial, ?_, ?_⟩
      · rw [here, ahead, List.getElem?_nil]
      · omega
      · rw [if_neg (by omega)]

end Over

end Cursor

/-! ## Sessions -/

namespace Session

@[simp]
theorem cursor_record (entry : Entry) (s : Session) : (s.record entry).cursor = s.cursor := by
  rcases s with ⟨cursor, _ | entries⟩ <;> rfl

@[simp]
theorem cursor_note (event : Event) (s : Session) : (s.note event).cursor = s.cursor :=
  cursor_record _ s

@[simp]
theorem cursor_foldl_note (lexed : List Item) (s : Session) :
    (lexed.foldl (fun s item => s.note (.lexed item)) s).cursor = s.cursor := by
  induction lexed generalizing s with
  | nil => rfl
  | cons item lexed ih => simp [ih]

@[simp]
theorem cursor_move (move : Move) (s : Session) :
    (s.move move).2.cursor = (s.cursor.step move).cursor := by
  simp [Session.move]

@[simp]
theorem answer_move (move : Move) (s : Session) :
    (s.move move).1 = (s.cursor.step move).answer :=
  rfl

end Session

/-- A parser that began in session `s` has ended as the reading tells, over the given items. -/
structure Reading.Tells {α : Type} (items : List Item) (s : Session) (reading : Reading α)
    (ended : Outcome α × Session) : Prop where
  along : ended.2.cursor.Over items
  checkpoints : ended.2.cursor.checkpoints = s.cursor.checkpoints
  size : ended.2.cursor.log.size = max s.cursor.log.size (min reading.reach items.length)
  outcome : match reading.outcome with
    | .matched (value, stop) => ended.1 = .matched value ∧ ended.2.position = stop
    | .noMatch => ended.1 = .noMatch
    | .failed offset => ended.1 = .failed offset

namespace Parser

variable {α β : Type}

/-- The parser does in any session what the reader does with the items the session goes over. -/
def Refines (p : Parser α) (q : Reader α) : Prop :=
  ∀ items s, s.cursor.Over items → (q items s.position).Tells items s (p s)

def Restores (p : Parser α) : Prop :=
  ∀ items s, s.cursor.Over items → (p s).1.isMatch = false → (p s).2.position = s.position

theorem nextToken_over {items : List Item} {s : Session} (along : s.cursor.Over items) :
    ∃ s', nextToken s =
        (match items[s.position]? with
          | some (.token token) => .matched token
          | some (.failure offset) => .failed offset
          | none => .noMatch, s') ∧
      s'.cursor.Over items ∧ s'.cursor.checkpoints = s.cursor.checkpoints ∧
      s'.cursor.log.size = max s.cursor.log.size (min (s.position + 1) items.length) ∧
      s'.position = if s.position < items.length then s.position + 1 else s.position := by
  obtain ⟨value, along', checkpoints, size, position⟩ := along.next
  have moved : (s.move .next).2.cursor = s.cursor.next.rest := by
    simp only [Session.cursor_move, Cursor.step]
    rcases s.cursor.next with ⟨_ | value, notices, rest⟩ <;> rfl
  refine ⟨(s.move .next).2, ?_, ?_⟩
  · have answered : (s.move .next).1 = items[s.position]?.elim .missing .value := by
      rw [Session.answer_move, Session.position, ← value]
      simp only [Cursor.step]
      rcases s.cursor.next with ⟨_ | value, notices, rest⟩ <;> rfl
    rw [Parser.nextToken]
    generalize s.move .next = step at *
    rcases step with ⟨answer, s'⟩
    dsimp only at *
    subst answered
    rcases items[s.position]? with _ | token | offset <;> rfl
  · simp only [Session.position, moved]
    exact ⟨along', checkpoints, size, position⟩

theorem ifNext_eq (kind : Kind) (yes no : Parser α) (s : Session) :
    ifNext kind yes no s =
      match nextToken s with
      | (.matched token, s') => if token.is kind then yes s' else no (s'.move .stepBack).2
      | (.noMatch, s') => no s'
      | (.failed offset, s') => (.failed offset, s') := by
  simp only [ifNext, Bind.bind, andThen, Parser.optional]
  rcases Parser.nextToken s with ⟨token | _ | offset, s'⟩
  · cases h : token.is kind <;> simp [h, andThen, stepBack]
  · rfl
  · rfl

theorem cursor_stepBack {s : Session} {position : Nat} (h : s.position = position + 1) :
    (s.move .stepBack).2.cursor = { s.cursor with position } := by
  rw [Session.cursor_move]
  exact Cursor.cursor_step_stepBack h

namespace Refines

theorem pure (value : α) : Refines (Pure.pure value : Parser α) (Pure.pure value) :=
  fun _ _ along => ⟨along, rfl, by simp [Pure.pure], rfl, rfl⟩

theorem fail : Refines (fail : Parser α) .fail :=
  fun _ _ along => ⟨along, rfl, by simp [Parser.fail, Reader.fail], rfl⟩

theorem nextToken : Refines nextToken .nextToken := by
  intro items s along
  obtain ⟨s', ended, along', checkpoints, size, position⟩ := nextToken_over along
  rw [ended, Reader.nextToken]
  rcases here : items[s.position]? with _ | token | offset
  · exact ⟨along', checkpoints, size, rfl⟩
  · obtain ⟨inside, -⟩ := List.getElem?_eq_some_iff.mp here
    rw [if_pos inside] at position
    exact ⟨along', checkpoints, size, rfl, position⟩
  · exact ⟨along', checkpoints, size, rfl⟩

theorem bind {p : Parser α} {q : Reader α} {f : α → Parser β} {g : α → Reader β}
    (first : Refines p q) (second : ∀ value, Refines (f value) (g value)) :
    Refines (p >>= f) (q >>= g) := by
  intro items s along
  have told := first items s along
  simp only [Bind.bind, Parser.andThen, Reader.andThen]
  generalize p s = ended at *
  generalize q items s.position = reading at *
  rcases ended with ⟨ended, s'⟩
  rcases reading with ⟨⟨value, stop⟩ | _ | offset, reach⟩
  · obtain ⟨along', checkpoints, size, rfl, position⟩ := told
    have next := second value items s' along'
    rw [position] at next
    refine ⟨next.along, next.checkpoints.trans checkpoints, ?_, next.outcome⟩
    rw [next.size, size, Reading.reach_also]
    dsimp only
    omega
  · obtain ⟨along', checkpoints, size, rfl⟩ := told
    exact ⟨along', checkpoints, size, rfl⟩
  · obtain ⟨along', checkpoints, size, rfl⟩ := told
    exact ⟨along', checkpoints, size, rfl⟩

theorem orElse {p p' : Parser α} {q q' : Reader α} (first : Refines p q) (back : Restores p)
    (second : Refines p' q') : Refines (p.orElse p') (q.orElse q') := by
  intro items s along
  have told := first items s along
  have back := back items s along
  simp only [Parser.orElse, Reader.orElse]
  generalize p s = ended at *
  generalize q items s.position = reading at *
  rcases ended with ⟨ended, s'⟩
  rcases reading with ⟨⟨value, stop⟩ | _ | offset, reach⟩
  · obtain ⟨along', checkpoints, size, rfl, position⟩ := told
    exact ⟨along', checkpoints, size, rfl, position⟩
  · obtain ⟨along', checkpoints, size, rfl⟩ := told
    have next := second items s' along'
    rw [show s'.position = s.position from back rfl] at next
    refine ⟨next.along, next.checkpoints.trans checkpoints, ?_, next.outcome⟩
    rw [next.size, size, Reading.reach_also]
    dsimp only
    omega
  · obtain ⟨along', checkpoints, size, rfl⟩ := told
    exact ⟨along', checkpoints, size, rfl⟩

theorem optional {p : Parser α} {q : Reader α} (h : Refines p q) (back : Restores p) :
    Refines (optional p) (.optional q) := by
  intro items s along
  have told := h items s along
  have back := back items s along
  simp only [Parser.optional, Reader.optional]
  generalize p s = ended at *
  generalize q items s.position = reading at *
  rcases ended with ⟨ended, s'⟩
  rcases reading with ⟨⟨value, stop⟩ | _ | offset, reach⟩
  · obtain ⟨along', checkpoints, size, rfl, position⟩ := told
    exact ⟨along', checkpoints, size, rfl, position⟩
  · obtain ⟨along', checkpoints, size, rfl⟩ := told
    exact ⟨along', checkpoints, size, rfl, back rfl⟩
  · obtain ⟨along', checkpoints, size, rfl⟩ := told
    exact ⟨along', checkpoints, size, rfl⟩

theorem ifNext {kind : Kind} {yes no : Parser α} {yes' no' : Reader α}
    (found : Refines yes yes') (absent : Refines no no') :
    Refines (ifNext kind yes no) (.ifNext kind yes' no') := by
  intro items s along
  obtain ⟨s', ended, along', checkpoints, size, position⟩ := nextToken_over along
  rw [ifNext_eq, ended, Reader.ifNext]
  rcases here : items[s.position]? with _ | token | offset
  · have outside := List.getElem?_eq_none_iff.mp here
    rw [if_neg (by omega)] at position
    have next := absent items s' along'
    rw [position] at next
    refine ⟨next.along, next.checkpoints.trans checkpoints, ?_, next.outcome⟩
    rw [next.size, size, Reading.reach_also]
    omega
  · obtain ⟨inside, -⟩ := List.getElem?_eq_some_iff.mp here
    rw [if_pos inside] at position
    dsimp only
    split
    · have next := found items s' along'
      rw [position] at next
      refine ⟨next.along, next.checkpoints.trans checkpoints, ?_, next.outcome⟩
      rw [next.size, size, Reading.reach_also]
      omega
    · have stepped := cursor_stepBack position
      have back : (s'.move .stepBack).2.cursor.Over items := by
        have behind := along'.position_le
        rw [stepped]
        exact ⟨along'.split, along'.furthest, by rw [Session.position] at position; dsimp only; omega⟩
      have next := absent items _ back
      rw [Session.position, stepped] at next
      refine ⟨next.along, ?_, ?_, next.outcome⟩
      · rw [next.checkpoints, stepped]
        exact checkpoints
      · rw [next.size, stepped, Reading.reach_also]
        dsimp only
        omega
  · exact ⟨along', checkpoints, size, rfl⟩

end Refines

/-! ## Rules -/

theorem cursor_rollback {s : Session} {position : Nat} {checkpoints : List Nat}
    (h : s.cursor.checkpoints = position :: checkpoints) :
    (s.move .rollback).2.cursor = { s.cursor with position, checkpoints } := by
  rw [Session.cursor_move, Cursor.cursor_step_rollback h]

/-- What is read inside a checkpoint is read as it would be outside, and the checkpoint brings a rule
that does not match back to where it began. -/
theorem attempt_refines {p : Parser α} {q : Reader α} (rule : Rule) (h : Refines p q) :
    Refines (attempt rule p) q ∧ Restores (attempt rule p) := by
  suffices both : ∀ items s, s.cursor.Over items →
      (q items s.position).Tells items s (attempt rule p s) ∧
        ((attempt rule p s).1.isMatch = false →
          (attempt rule p s).2.position = s.position) from
    ⟨fun items s along => (both items s along).1, fun items s along => (both items s along).2⟩
  intro items s along
  -- behind the checkpoint the reader stands at the same place of the same items
  have begun : (((s.note (.attempt rule s.position)).move .checkpoint).2).cursor =
      s.cursor.checkpoint := by
    rw [Session.cursor_move, Session.cursor_note]
    rfl
  have along' : (((s.note (.attempt rule s.position)).move .checkpoint).2).cursor.Over items := by
    rw [begun]
    exact ⟨along.split, along.furthest, along.position_le⟩
  have told := h items _ along'
  have place : (((s.note (.attempt rule s.position)).move .checkpoint).2).position = s.position := by
    rw [Session.position, begun]
    rfl
  rw [place] at told
  simp only [attempt]
  generalize p _ = ended at *
  generalize q items s.position = reading at *
  rcases ended with ⟨ended, s'⟩
  obtain ⟨along'', checkpoints, size, outcome⟩ := told
  rw [begun] at checkpoints size
  have behind := along.position_le
  rcases reading with ⟨⟨value, stop⟩ | _ | offset, reach⟩
  · obtain ⟨rfl, position⟩ := outcome
    have committed : ((s'.note (.matched rule s.position s'.position)).move .commit).2.cursor =
        s'.cursor.commit := by
      rw [Session.cursor_move, Session.cursor_note]
      rfl
    refine ⟨⟨?_, ?_, ?_, rfl, ?_⟩, nofun⟩
    · rw [committed]
      exact ⟨along''.split, along''.furthest, along''.position_le⟩
    · rw [committed, Cursor.commit, checkpoints]
      rfl
    · rw [committed]
      exact size
    · rw [Session.position, committed]
      exact position
  all_goals
    -- the place to return to is the one that the checkpoint has saved
    cases outcome
    have saved : (s'.note (.noMatch rule s.position)).cursor.checkpoints =
        s.cursor.checkpoint.checkpoints :=
      (congrArg Cursor.checkpoints (Session.cursor_note _ s')).trans checkpoints
    have back := cursor_rollback saved
    rw [Session.cursor_note] at back
    refine ⟨⟨?_, ?_, ?_, rfl⟩, fun _ => ?_⟩
    · rw [back]
      refine ⟨along''.split, along''.furthest, ?_⟩
      rw [size]
      exact Nat.le_trans behind (Nat.le_max_left _ _)
    · rw [back]
    · rw [back]
      exact size
    · rw [Session.position, back]
      rfl

/-- A parser made of calls refines the reader made of calls, if the calls do. -/
theorem Refines.of_alike {call : (rule : Rule) → Parser rule.Result}
    {look : (rule : Rule) → Reader rule.Result} (calls : ∀ rule, Refines (call rule) (look rule))
    (back : ∀ rule, Restores (call rule)) {p : Parser α} {q : Reader α}
    (made : Alike call look α p q) : Refines p q := by
  induction made with
  | pure value => exact .pure value
  | fail => exact .fail
  | nextToken => exact .nextToken
  | call rule => exact calls rule
  | optional rule => exact .optional (calls rule) (back rule)
  | orElse rule others ih => exact .orElse (calls rule) (back rule) ih
  | bind first second ih ih' => exact .bind ih ih'
  | ifNext kind found absent ih ih' => exact .ifNext ih ih'

theorem run_refines (allowance : Nat) (rule : Rule) :
    Refines (run allowance rule) (.run allowance rule) ∧ Restores (run allowance rule) := by
  induction allowance generalizing rule with
  | zero => exact ⟨.fail, fun _ _ _ _ => rfl⟩
  | succ allowance ih =>
    exact attempt_refines rule
      (.of_alike (fun rule => (ih rule).1) (fun rule => (ih rule).2)
        (rule.alike (run allowance) (.run allowance) allowance))

theorem le_remaining {items : List Item} {s : Session} (along : s.cursor.Over items) :
    items.length - s.position ≤ s.remaining := by
  have total := congrArg List.length along.split
  have pending := s.cursor.supply.length_items_le
  rw [List.length_append, Array.length_toList] at total
  simp only [Session.remaining, Session.position]
  omega

theorem le_allowance {items : List Item} {s : Session} (along : s.cursor.Over items) :
    4 * (items.length - s.position) + 6 ≤ s.allowance := by
  have ahead := le_remaining along
  rw [Session.allowance]
  omega

/-- Reading by a rule in a session is reading by it in the items that the session goes over. -/
theorem call_refines (rule : Rule) : Refines (call rule) rule.read := by
  intro items s along
  rw [← Rule.run_eq_read (le_allowance along)]
  exact (run_refines s.allowance rule).1 items s along

theorem call_restores (rule : Rule) : Restores (call rule) :=
  fun items s along => (run_refines s.allowance rule).2 items s along

end Parser

end Definiens
