import Definiens.Proofs.Cursor.Bounds
import Definiens.Proofs.Grammar.Refinement
import Definiens.Proofs.Grammar.Upkeep

/-!
# The moments of a session

The cursor of a session only ever moves, so whatever a session is in the midst of, its cursor has come
from the beginning of the source by some moves.  A moment is a session whose cursor has come there by
any moves at all, in any order; what holds at every moment holds at every moment of every reading.
-/

namespace Definiens

namespace Cursor.Over

variable {items : List Item} {c : Cursor TokenStream Item}

theorem log_eq (along : c.Over items) : c.log.toList = items.take c.log.size := by
  rw [← along.split, ← Array.length_toList, List.take_left]

theorem log_eq_items (along : c.Over items) (all : items.length ≤ c.log.size) :
    c.log.toList = items := by
  rw [along.log_eq, List.take_of_length_le all]

/-- What one cursor has logged is the beginning of what another one over the same items has logged,
if that is no less. -/
theorem log_isPrefix (along : c.Over items) {c' : Cursor TokenStream Item} (along' : c'.Over items)
    (less : c.log.size ≤ c'.log.size) : c.log.toList <+: c'.log.toList := by
  rw [along.log_eq, along'.log_eq]
  exact List.take_prefix_take_left less

theorem step (along : c.Over items) (sound : c.Sound) (move : Move) :
    (c.step move).cursor.Over items := by
  have sound' := sound.step move
  refine ⟨?_, sound'.furthest_eq, sound'.position_le⟩
  cases move with
  | next =>
    rw [cursor_step_next]
    exact along.next.2.1.split
  | checkpoint => exact along.split
  | rollback =>
    simp only [Cursor.step, rollback]
    cases c.checkpoints <;> exact along.split
  | commit => exact along.split
  | stepBack =>
    simp only [Cursor.step, stepBack]
    cases c.position <;> exact along.split

theorem after (along : c.Over items) (sound : c.Sound) (moves : List Move) :
    (c.after moves).Over items := by
  induction moves generalizing c with
  | nil => exact along
  | cons move moves ih => exact ih (along.step sound move) (sound.step move)

end Cursor.Over

namespace Session

/-- A session of the source whose cursor has come from the beginning by the given moves. -/
def moment (source : String) (moves : List Move) (journal : Option (List Entry)) : Session :=
  ⟨(Cursor.ofSupply (.ofSource source)).after moves, journal⟩

variable {source : String} {moves : List Move} {journal : Option (List Entry)}

theorem eq_moment {s : Session}
    (came : s.cursor = (Cursor.ofSupply (.ofSource source)).after moves) :
    s = moment source moves s.journal := by
  rw [moment, ← came]

theorem over_moment :
    (moment source moves journal).cursor.Over (TokenStream.ofSource source).items :=
  (Cursor.over_ofSupply _).after (Cursor.sound_ofSupply _) moves

/-- Moments are followed by moments, whatever a parser does in between. -/
theorem kept_moment (source : String) (moves : List Move) :
    Kept fun s => ∃ more journal, s = moment source (moves ++ more) journal where
  move := by
    rintro _ ⟨more, journal, rfl⟩ move
    refine ⟨more ++ [move], _, eq_moment ?_⟩
    rw [cursor_move, ← List.append_assoc, Cursor.after_append]
    rfl
  note := by
    rintro _ rule ⟨more, journal, rfl⟩ event -
    exact ⟨more, _, eq_moment (cursor_note event _)⟩

end Session

end Definiens
