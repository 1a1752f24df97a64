import Definiens.Cursor

/-!
# Where a cursor can be

However a cursor is moved, and whatever its supply gives, it stays within its log: neither its position
nor a place that it has saved lies behind the end of the log, and that is where its furthest mark is.
-/

namespace Definiens

namespace Cursor

variable {σ α ε : Type}

/-- No place of the cursor lies behind the end of its log, and the furthest mark is at the end. -/
structure Sound (c : Cursor σ α) : Prop where
  position_le : c.position ≤ c.log.size
  saved_le : ∀ saved ∈ c.checkpoints, saved ≤ c.log.size
  furthest_eq : c.furthest = c.log.size

theorem sound_ofSupply (supply : σ) : (ofSupply supply : Cursor σ α).Sound :=
  ⟨Nat.le_refl _, nofun, rfl⟩

section

variable [Supply σ α ε] {c : Cursor σ α}

theorem cursor_step_next : (c.step .next).cursor = c.next.rest := by
  rw [step]
  rcases c.next with ⟨_ | value, notices, rest⟩ <;> rfl

theorem cursor_step_rollback {position : Nat} {checkpoints : List Nat}
    (saves : c.checkpoints = position :: checkpoints) :
    (c.step .rollback).cursor = { c with position, checkpoints } := by
  simp [step, settle, rollback, saves]

theorem cursor_step_stepBack {position : Nat} (place : c.position = position + 1) :
    (c.step .stepBack).cursor = { c with position } := by
  simp [step, settle, stepBack, place]

theorem after_append (moves later : List Move) :
    c.after (moves ++ later) = (c.after moves).after later :=
  List.foldl_append

namespace Sound

theorem next (sound : c.Sound) : c.next.rest.Sound := by
  obtain ⟨position_le, saved_le, furthest_eq⟩ := sound
  rw [Cursor.next]
  split
  next value logged =>
    obtain ⟨inside, -⟩ := Array.getElem?_eq_some_iff.mp logged
    refine ⟨inside, saved_le, ?_⟩
    simp only [advance]
    omega
  next missing =>
    have atEnd : c.log.size ≤ c.position := Array.getElem?_eq_none_iff.mp missing
    split
    next value notices supply drawn =>
      refine ⟨?_, fun saved member => ?_, ?_⟩
      · simp only [advance, Array.size_push]
        omega
      · have := saved_le saved member
        simp only [advance, Array.size_push]
        omega
      · simp only [advance, Array.size_push]
        omega
    next => exact ⟨position_le, saved_le, furthest_eq⟩

/-- Every move keeps a cursor within its log. -/
theorem step (sound : c.Sound) (move : Move) : (c.step move).cursor.Sound := by
  cases move with
  | next =>
    rw [cursor_step_next]
    exact sound.next
  | checkpoint =>
    refine ⟨sound.position_le, fun saved member => ?_, sound.furthest_eq⟩
    rcases List.mem_cons.mp member with rfl | member
    · exact sound.position_le
    · exact sound.saved_le saved member
  | rollback =>
    simp only [Cursor.step, rollback]
    cases hsaved : c.checkpoints with
    | nil => exact sound
    | cons position others =>
      refine ⟨sound.saved_le position ?_, fun saved member => sound.saved_le saved ?_,
        sound.furthest_eq⟩
      · simp [hsaved]
      · exact hsaved ▸ List.mem_cons_of_mem _ member
  | commit =>
    exact ⟨sound.position_le, fun saved member => sound.saved_le saved (List.mem_of_mem_tail member),
      sound.furthest_eq⟩
  | stepBack =>
    simp only [Cursor.step, stepBack]
    cases hposition : c.position with
    | zero => exact sound
    | succ position =>
      refine ⟨?_, sound.saved_le, sound.furthest_eq⟩
      have := sound.position_le
      simp only [settle]
      omega

end Sound

end

end Cursor

end Definiens
