import Definiens.Proofs.Cursor.Bounds
import Definiens.Proofs.Cursor.Delivery

/-!
# The plain cursor

What a cursor does can be told without a log and without the state of a supply.  A plain cursor knows how
often it has drawn, where it stands among the values delivered so far, and which places it has saved.  A
cursor that reads ahead in a supply, however it is moved and whatever the supply answers, does as the plain
cursor does, and its log is what the supply has delivered.
-/

namespace Definiens

open Supply (answer delivered)

/-- What shows of a move: its answer, and the position and the depth behind it. -/
structure Glimpse (α : Type) where
  answer : Answer α
  position : Nat
  depth : Nat
  deriving DecidableEq, Repr

/-- A place among the values that a supply delivers. -/
structure PlainCursor where
  /-- How many answers have been asked for. -/
  draws : Nat
  position : Nat
  saved : List Nat
  deriving DecidableEq, Repr

namespace PlainCursor

variable {α : Type}

def origin : PlainCursor := ⟨0, 0, []⟩

/-- Makes one move over the values that a supply with these answers delivers. -/
def step (answers : Nat → Option α) (p : PlainCursor) : Move → Answer α × PlainCursor
  | .next =>
    match (delivered answers p.draws)[p.position]? with
    | some value => (.value value, { p with position := p.position + 1 })
    | none =>
      match answers p.draws with
      | some value => (.value value, { p with draws := p.draws + 1, position := p.position + 1 })
      | none => (.missing, { p with draws := p.draws + 1 })
  | .checkpoint => (.done, { p with saved := p.position :: p.saved })
  | .rollback =>
    match p.saved with
    | [] => (.misuse .rollback, p)
    | position :: saved => (.done, { p with position, saved })
  | .commit => (.done, { p with saved := p.saved.tail })
  | .stepBack =>
    match p.position with
    | 0 => (.misuse .stepBack, p)
    | position + 1 => (.done, { p with position })

def after (answers : Nat → Option α) (p : PlainCursor) (moves : List Move) : PlainCursor :=
  moves.foldl (fun p move => (p.step answers move).2) p

def glimpses (answers : Nat → Option α) : PlainCursor → List Move → List (Glimpse α)
  | _, [] => []
  | p, move :: moves =>
    let (answer, moved) := p.step answers move
    ⟨answer, moved.position, moved.saved.length⟩ :: moved.glimpses answers moves

theorem draws_le_step (answers : Nat → Option α) (p : PlainCursor) (move : Move) :
    p.draws ≤ (p.step answers move).2.draws := by
  cases move with
  | next =>
    rw [step]
    split
    next => exact Nat.le_refl _
    next => split <;> exact Nat.le_succ _
  | checkpoint => exact Nat.le_refl _
  | rollback =>
    rw [step]
    split <;> exact Nat.le_refl _
  | commit => exact Nat.le_refl _
  | stepBack =>
    rw [step]
    split <;> exact Nat.le_refl _

theorem draws_le_after (answers : Nat → Option α) (p : PlainCursor) (moves : List Move) :
    p.draws ≤ (p.after answers moves).draws := by
  induction moves generalizing p with
  | nil => exact Nat.le_refl _
  | cons move moves ih => exact Nat.le_trans (p.draws_le_step answers move) (ih _)

end PlainCursor

namespace Cursor

variable {σ α ε : Type}

/-- The plain cursor that stands where a cursor with counted draws stands. -/
def plain (c : Cursor (Counted σ) α) : PlainCursor := ⟨c.supply.draws, c.position, c.checkpoints⟩

theorem cursor_settle_of_misuse {c : Cursor σ α} {tried : Except Misuse (Cursor σ α)} {misuse : Misuse}
    (misused : (c.settle tried : Step σ α ε).answer = .misuse misuse) :
    (c.settle tried : Step σ α ε).cursor = c := by
  cases tried with
  | ok moved => cases misused
  | error _ => rfl

section

variable [Supply σ α ε]

def glimpses : Cursor σ α → List Move → List (Glimpse α)
  | _, [] => []
  | c, move :: moves =>
    let step := c.step move
    ⟨step.answer, step.cursor.position, step.cursor.depth⟩ :: step.cursor.glimpses moves

theorem cursor_step_of_misuse {c : Cursor σ α} {move : Move} {misuse : Misuse}
    (misused : (c.step move).answer = .misuse misuse) : (c.step move).cursor = c := by
  cases move with
  | next =>
    rw [Cursor.step] at misused
    split at misused <;> cases misused
  | checkpoint => cases misused
  | rollback => exact cursor_settle_of_misuse misused
  | commit => cases misused
  | stepBack => exact cursor_settle_of_misuse misused

end

/-! ## The log of a supply -/

section

variable [Supply σ α ε] {supply : σ} {c : Cursor (Counted σ) α} {value : α}

/-- The cursor has logged what the supply has delivered, in as many draws as have been counted. -/
structure Logs (supply : σ) (c : Cursor (Counted σ) α) : Prop where
  inner_eq : c.supply.inner = Supply.after supply c.supply.draws
  log_eq : c.log.toList = delivered (answer supply) c.supply.draws
  sound : c.Sound

theorem logs_ofSupply (supply : σ) : (ofSupply ⟨supply, 0⟩ : Cursor (Counted σ) α).Logs supply :=
  ⟨rfl, rfl, sound_ofSupply _⟩

namespace Logs

theorem draw_eq (logs : c.Logs supply) :
    Supply.draw c.supply = ⟨answer supply c.supply.draws, (Supply.draw c.supply).notices,
      ⟨Supply.after supply (c.supply.draws + 1), c.supply.draws + 1⟩⟩ := by
  rw [answer, Supply.after, ← logs.inner_eq]
  rfl

theorem step_logged (logs : c.Logs supply) (inside : c.position < c.log.size) :
    c.step .next = ⟨.value c.log[c.position], [], { c with position := c.position + 1 }⟩ := by
  have furthest : max c.furthest (c.position + 1) = c.furthest := by
    rw [logs.sound.furthest_eq]
    omega
  simp only [Cursor.step, next, Array.getElem?_eq_getElem inside, advance, furthest]

theorem step_drawn (logs : c.Logs supply) (ended : c.position = c.log.size)
    (given : answer supply c.supply.draws = some value) :
    c.step .next = ⟨.value value, (Supply.draw c.supply).notices,
      { c with
        supply := ⟨Supply.after supply (c.supply.draws + 1), c.supply.draws + 1⟩
        log := c.log.push value
        position := c.position + 1
        furthest := c.furthest + 1 }⟩ := by
  have missing : c.log[c.position]? = none := Array.getElem?_eq_none (Nat.le_of_eq ended.symm)
  have furthest : max c.furthest (c.position + 1) = c.furthest + 1 := by
    rw [logs.sound.furthest_eq]
    omega
  have draw := logs.draw_eq
  rw [given] at draw
  rw [Cursor.step, next, missing, draw]
  simp only [advance, furthest]

theorem step_missed (logs : c.Logs supply) (ended : c.position = c.log.size)
    (missed : answer supply c.supply.draws = none) :
    c.step .next = ⟨.missing, (Supply.draw c.supply).notices,
      { c with
        supply := ⟨Supply.after supply (c.supply.draws + 1), c.supply.draws + 1⟩ }⟩ := by
  have missing : c.log[c.position]? = none := Array.getElem?_eq_none (Nat.le_of_eq ended.symm)
  have draw := logs.draw_eq
  rw [missed] at draw
  rw [Cursor.step, next, missing, draw]

/-- A read does to the cursor what it does to the plain cursor, and the log stays that of the supply. -/
theorem step_next (logs : c.Logs supply) :
    (c.step .next).cursor.Logs supply ∧
      c.plain.step (answer supply) .next =
        ((c.step .next).answer, (c.step .next).cursor.plain) := by
  have sound := logs.sound.step .next
  have log : (delivered (answer supply) c.supply.draws)[c.position]? = c.log[c.position]? := by
    rw [← logs.log_eq, Array.getElem?_toList]
  rcases Nat.lt_or_eq_of_le logs.sound.position_le with inside | ended
  · have moved := logs.step_logged inside
    rw [moved] at sound ⊢
    refine ⟨⟨logs.inner_eq, logs.log_eq, sound⟩, ?_⟩
    simp only [PlainCursor.step, plain, log, Array.getElem?_eq_getElem inside]
  · rw [Array.getElem?_eq_none (Nat.le_of_eq ended.symm)] at log
    have grown := Supply.delivered_succ (answer supply) c.supply.draws
    rw [← logs.log_eq] at grown
    cases given : answer supply c.supply.draws with
    | some value =>
      have moved := logs.step_drawn ended given
      rw [moved] at sound ⊢
      refine ⟨⟨rfl, ?_, sound⟩, ?_⟩
      · rw [grown, given, Array.toList_push, Option.toList_some]
      · simp only [PlainCursor.step, plain, log, given]
    | none =>
      have moved := logs.step_missed ended given
      rw [moved] at sound ⊢
      refine ⟨⟨rfl, ?_, sound⟩, ?_⟩
      · rw [grown, given, Option.toList_none, List.append_nil]
      · simp only [PlainCursor.step, plain, log, given]

/-- Every move does to the cursor what it does to the plain cursor, and the log stays that of the
supply. -/
theorem step (logs : c.Logs supply) (move : Move) :
    (c.step move).cursor.Logs supply ∧
      c.plain.step (answer supply) move = ((c.step move).answer, (c.step move).cursor.plain) := by
  have sound := logs.sound.step move
  cases move with
  | next => exact logs.step_next
  | checkpoint => exact ⟨⟨logs.inner_eq, logs.log_eq, sound⟩, rfl⟩
  | rollback =>
    simp only [Cursor.step, PlainCursor.step, plain, rollback] at sound ⊢
    cases saved : c.checkpoints with
    | nil => exact ⟨logs, by simp [settle, saved]⟩
    | cons position others =>
      rw [saved] at sound
      exact ⟨⟨logs.inner_eq, logs.log_eq, sound⟩, rfl⟩
  | commit => exact ⟨⟨logs.inner_eq, logs.log_eq, sound⟩, rfl⟩
  | stepBack =>
    simp only [Cursor.step, PlainCursor.step, plain, stepBack] at sound ⊢
    cases place : c.position with
    | zero => exact ⟨logs, by simp [settle, place]⟩
    | succ position =>
      rw [place] at sound
      exact ⟨⟨logs.inner_eq, logs.log_eq, sound⟩, rfl⟩

/-- A series of moves shows what it shows of the plain cursor. -/
theorem run (logs : c.Logs supply) (moves : List Move) :
    (c.after moves).Logs supply ∧
      (c.after moves).plain = c.plain.after (answer supply) moves ∧
      c.glimpses moves = c.plain.glimpses (answer supply) moves := by
  induction moves generalizing c with
  | nil => exact ⟨logs, rfl, rfl⟩
  | cons move moves ih =>
    obtain ⟨logs', same⟩ := logs.step move
    obtain ⟨last, place, shown⟩ := ih logs'
    refine ⟨last, ?_, ?_⟩
    · rw [after, List.foldl_cons, ← after, place, PlainCursor.after, PlainCursor.after,
        List.foldl_cons, same]
    · rw [glimpses, PlainCursor.glimpses, same, shown]
      rfl

theorem draws_le_after (logs : c.Logs supply) (moves : List Move) :
    c.supply.draws ≤ (c.after moves).supply.draws := by
  have le := c.plain.draws_le_after (answer supply) moves
  rw [← (logs.run moves).2.1] at le
  exact le

theorem log_isPrefix_after (logs : c.Logs supply) (moves : List Move) :
    c.log.toList <+: (c.after moves).log.toList := by
  rw [logs.log_eq, (logs.run moves).1.log_eq]
  exact Supply.delivered_isPrefix _ (logs.draws_le_after moves)

theorem furthestValue?_eq (logs : c.Logs supply) : c.furthestValue? = c.log.back? := by
  rw [furthestValue?, logs.sound.furthest_eq, Array.back?]
  cases size : c.log.size with
  | zero => simp [size]
  | succ last => rfl

end Logs

/-! ## Any series of moves -/

/-- What is true of a cursor on a counted supply at every moment. -/
structure Faithful (supply : σ) (c : Cursor (Counted σ) α) : Prop where
  log_eq : c.log.toList = delivered (answer supply) c.supply.draws
  grows : ∀ later, c.log.toList <+: (c.after later).log.toList
  position_le : c.position ≤ c.log.size
  saved_le : ∀ saved ∈ c.checkpoints, saved ≤ c.log.size
  furthest_eq : c.furthest = c.log.size
  furthestValue_eq : c.furthestValue? = c.log.back?
  /-- Before the end of the log a read gives what is logged there and draws nothing. -/
  replays : ∀ inside : c.position < c.log.size,
    c.step .next = ⟨.value c.log[c.position], [], { c with position := c.position + 1 }⟩
  /-- At the end of the log it draws once; a value that comes is logged and passed. -/
  draws : c.position = c.log.size → ∀ value, answer supply c.supply.draws = some value →
    c.step .next = ⟨.value value, (Supply.draw c.supply).notices,
      { c with
        supply := ⟨Supply.after supply (c.supply.draws + 1), c.supply.draws + 1⟩
        log := c.log.push value
        position := c.position + 1
        furthest := c.furthest + 1 }⟩
  misses : c.position = c.log.size → answer supply c.supply.draws = none →
    c.step .next = ⟨.missing, (Supply.draw c.supply).notices,
      { c with supply := ⟨Supply.after supply (c.supply.draws + 1), c.supply.draws + 1⟩ }⟩
  misused : ∀ move misuse, (c.step move).answer = .misuse misuse → (c.step move).cursor = c
  /-- With nothing saved there is nothing to forget. -/
  idle : c.checkpoints = [] → c.step .commit = ⟨.done, [], c⟩

theorem Logs.faithful (logs : c.Logs supply) : c.Faithful supply where
  log_eq := logs.log_eq
  grows := logs.log_isPrefix_after
  position_le := logs.sound.position_le
  saved_le := logs.sound.saved_le
  furthest_eq := logs.sound.furthest_eq
  furthestValue_eq := logs.furthestValue?_eq
  replays := logs.step_logged
  draws := fun ended _ given => logs.step_drawn ended given
  misses := logs.step_missed
  misused := fun _ _ misused => cursor_step_of_misuse misused
  idle := by
    intro nothing
    rcases c with ⟨counted, log, position, checkpoints, furthest⟩
    cases nothing
    rfl

/-- A cursor on any supply, moved in any way, shows what the plain cursor shows over the answers of the
supply: the same values, misses and misuses, at the same positions and depths.  At the end it stands where
the plain cursor stands, with the same places saved, and its log is what the supply has delivered. -/
theorem moves_as_plain_cursor (supply : σ) (moves : List Move) :
    let begun : Cursor (Counted σ) α := ofSupply ⟨supply, 0⟩
    begun.glimpses moves = PlainCursor.origin.glimpses (answer supply) moves ∧
      (begun.after moves).plain = PlainCursor.origin.after (answer supply) moves ∧
      (begun.after moves).supply.inner = Supply.after supply (begun.after moves).supply.draws ∧
      (begun.after moves).Faithful supply := by
  intro begun
  obtain ⟨logs, place, shown⟩ := (logs_ofSupply supply).run moves
  exact ⟨shown, place, logs.inner_eq, logs.faithful⟩

/-- A value that comes after a miss is read, and a rollback after a step back goes forward. -/
example :
    (ofSupply ⟨⟨[some 'a', none, some 'b']⟩, 0⟩ : Cursor (Counted (Replies Char)) Char).glimpses
      [.next, .checkpoint, .stepBack, .rollback, .next, .next, .rollback] =
      [⟨.value 'a', 1, 0⟩, ⟨.done, 1, 1⟩, ⟨.done, 0, 1⟩, ⟨.done, 1, 0⟩, ⟨.missing, 1, 0⟩,
       ⟨.value 'b', 2, 0⟩, ⟨.misuse .rollback, 2, 0⟩] := by
  decide

end

end Cursor

end Definiens
