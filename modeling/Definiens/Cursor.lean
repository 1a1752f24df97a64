import Definiens.Supply

/-!
# Cursors

A cursor reads ahead in a supply and keeps a log of all that it has drawn, so that it can go back.
Checkpoints save places in the log; rolling back returns to the last one saved, and what was read
since then is read again from the log and not drawn again.  `Cursor.step` makes one move of any kind.
-/

namespace Definiens

/-- A place in the log of a supply. -/
structure Cursor (σ α : Type) where
  supply : σ
  log : Array α
  /-- How many values of the log lie behind the cursor. -/
  position : Nat
  /-- The places saved, the last one first. -/
  checkpoints : List Nat
  /-- The largest position that the cursor has had. -/
  furthest : Nat

/-- Moves that a cursor has no answer for. -/
inductive Misuse where
  | rollback
  | stepBack
  deriving DecidableEq, Repr

def Misuse.message : Misuse → String
  | .rollback => "internal error: rollback without an active checkpoint"
  | .stepBack => "internal error: step_back before the first value"

namespace Cursor

variable {σ α ε : Type}

def ofSupply (supply : σ) : Cursor σ α := ⟨supply, #[], 0, [], 0⟩

def depth (c : Cursor σ α) : Nat := c.checkpoints.length

/-- The last value that the cursor has ever been behind. -/
def furthestValue? (c : Cursor σ α) : Option α :=
  match c.furthest with
  | 0 => none
  | last + 1 => c.log[last]?

def advance (c : Cursor σ α) : Cursor σ α :=
  { c with position := c.position + 1, furthest := max c.furthest (c.position + 1) }

/-- Reads the value at the cursor, from the log or else by a draw; an empty draw moves nothing. -/
def next [Supply σ α ε] (c : Cursor σ α) : Draw (Cursor σ α) α ε :=
  match c.log[c.position]? with
  | some value => ⟨some value, [], c.advance⟩
  | none =>
    match Supply.draw c.supply with
    | ⟨some value, notices, supply⟩ =>
      ⟨some value, notices, { c with supply, log := c.log.push value }.advance⟩
    | ⟨none, notices, supply⟩ => ⟨none, notices, { c with supply }⟩

/-- A cursor is a supply of what it reads. -/
instance [Supply σ α ε] : Supply (Cursor σ α) α ε where
  draw := next

def checkpoint (c : Cursor σ α) : Cursor σ α :=
  { c with checkpoints := c.position :: c.checkpoints }

/-- Returns to the last place saved and forgets it. -/
def rollback (c : Cursor σ α) : Except Misuse (Cursor σ α) :=
  match c.checkpoints with
  | [] => .error .rollback
  | position :: checkpoints => .ok { c with position, checkpoints }

/-- Forgets the last place saved, if there is one, and stays. -/
def commit (c : Cursor σ α) : Cursor σ α := { c with checkpoints := c.checkpoints.tail }

def stepBack (c : Cursor σ α) : Except Misuse (Cursor σ α) :=
  match c.position with
  | 0 => .error .stepBack
  | position + 1 => .ok { c with position }

/-- Up to `count` values, fewer if a read gives none. -/
def take [Supply σ α ε] : Nat → Cursor σ α → List α × Cursor σ α
  | 0, c => ([], c)
  | count + 1, c =>
    match c.next with
    | ⟨some value, _, rest⟩ =>
      let (values, last) := take count rest
      (value :: values, last)
    | ⟨none, _, rest⟩ => ([], rest)

end Cursor

/-! ## Moves -/

inductive Move where
  | next
  | checkpoint
  | rollback
  | commit
  | stepBack
  deriving DecidableEq, Repr

/-- What a move answers: a read gives a value or none, and a misuse leaves the cursor as it was. -/
inductive Answer (α : Type) where
  | value (value : α)
  | missing
  | done
  | misuse (misuse : Misuse)
  deriving DecidableEq, Repr

structure Step (σ α ε : Type) where
  answer : Answer α
  notices : List ε
  cursor : Cursor σ α

namespace Cursor

variable {σ α ε : Type}

/-- The step of a move that either succeeds or leaves the cursor `c` as it was. -/
@[inline]
def settle (c : Cursor σ α) : Except Misuse (Cursor σ α) → Step σ α ε
  | .ok moved => ⟨.done, [], moved⟩
  | .error misuse => ⟨.misuse misuse, [], c⟩

@[inline]
def step [Supply σ α ε] (c : Cursor σ α) : Move → Step σ α ε
  | .next =>
    match c.next with
    | ⟨some value, notices, rest⟩ => ⟨.value value, notices, rest⟩
    | ⟨none, notices, rest⟩ => ⟨.missing, notices, rest⟩
  | .checkpoint => ⟨.done, [], c.checkpoint⟩
  | .rollback => c.settle c.rollback
  | .commit => ⟨.done, [], c.commit⟩
  | .stepBack => c.settle c.stepBack

def after [Supply σ α ε] (c : Cursor σ α) (moves : List Move) : Cursor σ α :=
  moves.foldl (fun c move => (c.step move).cursor) c

end Cursor

end Definiens
