import Definiens.Proofs.Cursor.Plain

/-!
# Excursions

An excursion saves a place, moves about in any way that closes the checkpoints it opens and no others, and
rolls back.  The cursor returns to its place with the same places saved.  It has read ahead, though, and so
it may have drawn from the supply; whether that shows later depends on the draws that came up empty.  If
none did, or if there is never a value after an empty one, nothing shows of the excursion.
-/

namespace Definiens

open Supply (answer delivered EndedAt Fused)

namespace Move

/-- How many checkpoints stand open behind some moves, of which so many stand open before them; there is
no such number if the moves close a checkpoint that is not among these. -/
def openAfter : Nat → List Move → Option Nat
  | count, [] => some count
  | count, .next :: moves => openAfter count moves
  | count, .stepBack :: moves => openAfter count moves
  | count, .checkpoint :: moves => openAfter (count + 1) moves
  | 0, .rollback :: _ => none
  | 0, .commit :: _ => none
  | count + 1, .rollback :: moves => openAfter count moves
  | count + 1, .commit :: moves => openAfter count moves

/-- The moves close each checkpoint that they open, and none besides. -/
def Balanced (moves : List Move) : Prop := openAfter 0 moves = some 0

instance (moves : List Move) : Decidable (Balanced moves) :=
  inferInstanceAs (Decidable (openAfter 0 moves = some 0))

end Move

namespace PlainCursor

variable {α : Type} {answers : Nat → Option α} {p q : PlainCursor} {value : α}

/-! ## What stays saved -/

theorem saved_step_next : (p.step answers .next).2.saved = p.saved := by
  rw [step]
  split
  next => rfl
  next => split <;> rfl

theorem saved_step_stepBack : (p.step answers .stepBack).2.saved = p.saved := by
  rw [step]
  split <;> rfl

/-- What was saved before the checkpoints that the moves may close stays saved. -/
theorem saved_after {moves : List Move} {inner outer : List Nat} {count : Nat}
    (opened : Move.openAfter inner.length moves = some count) (saved : p.saved = inner ++ outer) :
    ∃ inner', (p.after answers moves).saved = inner' ++ outer ∧ inner'.length = count := by
  induction moves generalizing p inner with
  | nil =>
    cases opened
    exact ⟨inner, saved, rfl⟩
  | cons move moves ih =>
    cases move with
    | next => exact ih opened (saved_step_next.trans saved)
    | stepBack => exact ih opened (saved_step_stepBack.trans saved)
    | checkpoint => exact @ih _ (p.position :: inner) opened (congrArg (p.position :: ·) saved)
    | rollback =>
      cases inner with
      | nil => cases opened
      | cons place inner =>
        refine ih opened ?_
        simp only [step, saved, List.cons_append]
    | commit =>
      cases inner with
      | nil => cases opened
      | cons place inner =>
        refine ih opened ?_
        simp only [step, saved, List.cons_append, List.tail_cons]

theorem after_append (moves later : List Move) :
    p.after answers (moves ++ later) = (p.after answers moves).after answers later :=
  List.foldl_append

theorem step_rollback {position : Nat} {others : List Nat} (saved : p.saved = position :: others) :
    p.step answers .rollback = (.done, { p with position, saved := others }) := by
  simp only [step, saved]

theorem after_excursion {moves : List Move} (balanced : Move.Balanced moves) :
    (p.after answers (.checkpoint :: (moves ++ [.rollback]))).position = p.position ∧
      (p.after answers (.checkpoint :: (moves ++ [.rollback]))).saved = p.saved := by
  let begun := (p.step answers .checkpoint).2
  obtain ⟨inner, saved, closed⟩ :=
    @saved_after α answers begun moves [] (p.position :: p.saved) 0 balanced rfl
  rw [List.eq_nil_of_length_eq_zero closed] at saved
  have last : p.after answers (.checkpoint :: (moves ++ [.rollback])) =
      ((begun.after answers moves).step answers .rollback).2 :=
    after_append moves [.rollback]
  rw [last, step_rollback saved]
  exact ⟨rfl, rfl⟩

/-! ## Reading ahead -/

/-- The second cursor stands where the first one does and may have drawn more, but of the draws that only
it has made none came up empty unless the supply had ended. -/
structure Ahead (answers : Nat → Option α) (p q : PlainCursor) : Prop where
  position_eq : q.position = p.position
  saved_eq : q.saved = p.saved
  draws_le : p.draws ≤ q.draws
  ended : ∀ draw, p.draws ≤ draw → draw < q.draws → answers draw = none → EndedAt answers draw

theorem step_of_logged (here : (delivered answers p.draws)[p.position]? = some value) :
    p.step answers .next = (.value value, { p with position := p.position + 1 }) := by
  simp only [step, here]

theorem step_of_drawn (ended : (delivered answers p.draws)[p.position]? = none)
    (given : answers p.draws = some value) :
    p.step answers .next =
      (.value value, { p with draws := p.draws + 1, position := p.position + 1 }) := by
  simp only [step, ended, given]

theorem step_of_missed (ended : (delivered answers p.draws)[p.position]? = none)
    (missed : answers p.draws = none) :
    p.step answers .next = (.missing, { p with draws := p.draws + 1 }) := by
  simp only [step, ended, missed]

namespace Ahead

theorem next_of_logged (ahead : Ahead answers p q)
    (here : (delivered answers p.draws)[p.position]? = some value) :
    (q.step answers .next).1 = (p.step answers .next).1 ∧
      Ahead answers (p.step answers .next).2 (q.step answers .next).2 := by
  have here' : (delivered answers q.draws)[q.position]? = some value := by
    rw [ahead.position_eq]
    exact Supply.getElem?_delivered ahead.draws_le here
  rw [step_of_logged here, step_of_logged here']
  exact ⟨rfl, congrArg (· + 1) ahead.position_eq, ahead.saved_eq, ahead.draws_le, ahead.ended⟩

theorem next_of_level (ahead : Ahead answers p q) (level : q.draws = p.draws) :
    (q.step answers .next).1 = (p.step answers .next).1 ∧
      Ahead answers (p.step answers .next).2 (q.step answers .next).2 := by
  have same : q = p := by
    rcases p with ⟨draws, position, saved⟩
    rcases q with ⟨draws', position', saved'⟩
    cases level
    cases ahead.position_eq
    cases ahead.saved_eq
    rfl
  rw [same]
  exact ⟨rfl, rfl, rfl, Nat.le_refl _, fun draw low high => absurd high (Nat.not_lt_of_le low)⟩

/-- What the first cursor must draw, the second one finds among the values that it has drawn before. -/
theorem next_of_drawn (ahead : Ahead answers p q) (less : p.draws < q.draws)
    (atEnd : p.position = (delivered answers p.draws).length)
    (given : answers p.draws = some value) :
    (q.step answers .next).1 = (p.step answers .next).1 ∧
      Ahead answers (p.step answers .next).2 (q.step answers .next).2 := by
  have here : (delivered answers q.draws)[q.position]? = some value := by
    rw [ahead.position_eq, atEnd]
    exact Supply.getElem?_delivered less (Supply.getElem?_delivered_succ given)
  rw [step_of_drawn (List.getElem?_eq_none (Nat.le_of_eq atEnd.symm)) given, step_of_logged here]
  refine ⟨rfl, congrArg (· + 1) ahead.position_eq, ahead.saved_eq, less, fun draw low => ?_⟩
  exact ahead.ended draw (Nat.le_of_succ_le low)

/-- Where the first cursor draws nothing, the supply has ended, and the second one draws nothing. -/
theorem next_of_missed (ahead : Ahead answers p q) (less : p.draws < q.draws)
    (atEnd : p.position = (delivered answers p.draws).length) (missed : answers p.draws = none) :
    (q.step answers .next).1 = (p.step answers .next).1 ∧
      Ahead answers (p.step answers .next).2 (q.step answers .next).2 := by
  have ended : EndedAt answers p.draws := ahead.ended p.draws (Nat.le_refl _) less missed
  have here : (delivered answers q.draws)[q.position]? = none := by
    rw [ahead.position_eq, ended.delivered_eq ahead.draws_le]
    exact List.getElem?_eq_none (Nat.le_of_eq atEnd.symm)
  rw [step_of_missed (List.getElem?_eq_none (Nat.le_of_eq atEnd.symm)) missed,
    step_of_missed here (ended q.draws ahead.draws_le)]
  refine ⟨rfl, ahead.position_eq, ahead.saved_eq, Nat.succ_le_succ ahead.draws_le, ?_⟩
  intro draw low _ _ later le
  exact ended later (Nat.le_trans (Nat.le_of_succ_le low) le)

/-- No move tells the two cursors apart, and after it the second one is ahead as before. -/
theorem step (ahead : Ahead answers p q)
    (within : p.position ≤ (delivered answers p.draws).length) (move : Move) :
    (q.step answers move).1 = (p.step answers move).1 ∧
      Ahead answers (p.step answers move).2 (q.step answers move).2 := by
  cases move with
  | next =>
    rcases Nat.lt_or_eq_of_le within with inside | atEnd
    · exact ahead.next_of_logged (List.getElem?_eq_getElem inside)
    rcases Nat.lt_or_eq_of_le ahead.draws_le with less | level
    · cases given : answers p.draws with
      | some value => exact ahead.next_of_drawn less atEnd given
      | none => exact ahead.next_of_missed less atEnd given
    · exact ahead.next_of_level level.symm
  | checkpoint =>
    obtain ⟨position_eq, saved_eq, draws_le, ended⟩ := ahead
    exact ⟨rfl, position_eq, by simp only [PlainCursor.step, position_eq, saved_eq], draws_le, ended⟩
  | rollback =>
    obtain ⟨position_eq, saved_eq, draws_le, ended⟩ := ahead
    simp only [PlainCursor.step, saved_eq]
    cases p.saved with
    | nil => exact ⟨rfl, position_eq, saved_eq, draws_le, ended⟩
    | cons place saved => exact ⟨rfl, rfl, rfl, draws_le, ended⟩
  | commit =>
    obtain ⟨position_eq, saved_eq, draws_le, ended⟩ := ahead
    exact ⟨rfl, position_eq, congrArg List.tail saved_eq, draws_le, ended⟩
  | stepBack =>
    obtain ⟨position_eq, saved_eq, draws_le, ended⟩ := ahead
    simp only [PlainCursor.step, position_eq]
    cases p.position with
    | zero => exact ⟨rfl, position_eq, saved_eq, draws_le, ended⟩
    | succ position => exact ⟨rfl, rfl, saved_eq, draws_le, ended⟩

end Ahead

end PlainCursor

namespace Cursor

variable {σ α ε : Type} [Supply σ α ε] {supply : σ} {c c' : Cursor (Counted σ) α}

/-- No series of moves tells a cursor from one that is ahead of it. -/
theorem glimpses_eq_of_ahead (logs : c.Logs supply) (logs' : c'.Logs supply)
    (ahead : c.plain.Ahead (answer supply) c'.plain) (moves : List Move) :
    c'.glimpses moves = c.glimpses moves := by
  induction moves generalizing c c' with
  | nil => rfl
  | cons move moves ih =>
    have within : c.plain.position ≤ (delivered (answer supply) c.plain.draws).length := by
      rw [plain, ← logs.log_eq, Array.length_toList]
      exact logs.sound.position_le
    obtain ⟨next, same⟩ := logs.step move
    obtain ⟨next', same'⟩ := logs'.step move
    obtain ⟨answers, ahead'⟩ := ahead.step within move
    rw [same, same'] at answers ahead'
    have place : (c'.step move).cursor.position = (c.step move).cursor.position :=
      ahead'.position_eq
    have saved : (c'.step move).cursor.checkpoints = (c.step move).cursor.checkpoints :=
      ahead'.saved_eq
    simp only at answers
    simp only [glimpses, depth, answers, place, saved, ih next next' ahead']

/-- After an excursion the cursor is back in its place with the same places saved, and all that was logged
is still logged.  If each draw of the excursion gave a value, or if the supply gives none after it has once
given none, then no later move shows that there has been an excursion. -/
theorem excursion_leaves_no_trace (supply : σ) (moves excursion : List Move)
    (balanced : Move.Balanced excursion) :
    let s : Cursor (Counted σ) α := (ofSupply ⟨supply, 0⟩).after moves
    let back := s.after (.checkpoint :: (excursion ++ [.rollback]))
    back.position = s.position ∧ back.checkpoints = s.checkpoints ∧
      s.log.toList <+: back.log.toList ∧
      (Fused (answer supply) ∨
          (∀ draw < back.supply.draws, s.supply.draws ≤ draw → (answer supply draw).isSome) →
        ∀ later, back.glimpses later = s.glimpses later) := by
  intro s back
  have logs : s.Logs supply := ((logs_ofSupply supply).run moves).1
  obtain ⟨logs', place, -⟩ := logs.run (.checkpoint :: (excursion ++ [.rollback]))
  obtain ⟨position, saved⟩ :=
    @PlainCursor.after_excursion α (answer supply) s.plain excursion balanced
  rw [← place] at position saved
  refine ⟨position, saved, logs.log_isPrefix_after _, fun settled later => ?_⟩
  refine glimpses_eq_of_ahead logs logs' ⟨position, saved, logs.draws_le_after _, ?_⟩ later
  intro draw low high missed
  rcases settled with fused | answered
  · exact fused.endedAt missed
  · have given := answered draw high low
    rw [missed] at given
    cases given

/-- An excursion that steps back behind its checkpoint, reads on from there under a checkpoint that it
commits, and draws a third value from a supply that misses one later. -/
theorem excursion_behind_its_checkpoint :
    let supply : Replies Char := ⟨[some 'a', some 'b', some 'c', none, some 'd']⟩
    let excursion : List Move :=
      [.stepBack, .stepBack, .checkpoint, .next, .next, .next, .commit, .checkpoint, .rollback]
    let s : Cursor (Counted (Replies Char)) Char :=
      (ofSupply ⟨supply, 0⟩).after [.next, .next, .checkpoint, .stepBack]
    let back := s.after (.checkpoint :: (excursion ++ [.rollback]))
    Move.Balanced excursion ∧ s.supply.draws = 2 ∧ back.supply.draws = 3 ∧
      (∀ draw < back.supply.draws, s.supply.draws ≤ draw → (answer supply draw).isSome) ∧
      back.position = 1 ∧ back.checkpoints = [2] ∧
      ∀ later, back.glimpses later = s.glimpses later := by
  intro supply excursion s back
  have balanced : Move.Balanced excursion := by decide
  have here : s.position = 1 ∧ s.checkpoints = [2] := by decide
  obtain ⟨position, saved, -, unseen⟩ := excursion_leaves_no_trace supply
    [.next, .next, .checkpoint, .stepBack] excursion balanced
  exact ⟨balanced, by decide, by decide, by decide, position.trans here.1, saved.trans here.2,
    unseen (.inr (by decide))⟩

end Cursor

end Definiens
