import Definiens.Proofs.Grammar.Equations
import Definiens.Proofs.Grammar.Moments

/-!
# Formulas with their left operand read once

Where no connective follows, the rule for formulas reads a left operand twice: as what a connective
might follow, and again by itself.  A formula can be read left-factored instead, the operand once and
then what follows it.  With the left-factored rule in place of the other one throughout, at any moment
of a source, the answer is the same and so is all that the session keeps: position, log and saved places.
-/

namespace Definiens

/-! ## The left-factored grammar -/

namespace Parser

/-- A connective and its right side, behind a left side that has been read. -/
def connectiveAfter (formula : Parser Formula) (left : Formula) : Parser Formula := do
  let token ← nextToken
  let op ← ofOption (Connective.ofKind? token.kind)
  let right ← formula
  pure (.connective token op left right)

/-- A left operand with a connective and a formula behind it; or if they are not there, the operand
alone, and the cursor back behind it.  A failure of the lexer on the way is the end. -/
def leftFactored (lhs formula : Parser Formula) : Parser Formula := do
  let left ← lhs
  (attempt .binaryConnective (connectiveAfter formula left)).orElse (pure left)

end Parser

def Rule.factoredBody (call : (rule : Rule) → Parser rule.Result) (rounds : Nat) :
    (rule : Rule) → Parser rule.Result
  | .formula => .leftFactored (call .binaryLhs) (call .formula)
  | rule => rule.body call rounds

def Parser.runFactored : Nat → (rule : Rule) → Parser rule.Result
  | 0, _ => fail
  | allowance + 1, rule => attempt rule (rule.factoredBody (runFactored allowance) allowance)

namespace Reader

def connectiveAfter (formula : Reader Formula) (left : Formula) : Reader Formula := do
  let token ← nextToken
  let op ← ofOption (Connective.ofKind? token.kind)
  let right ← formula
  pure (.connective token op left right)

def leftFactored (lhs formula : Reader Formula) : Reader Formula := do
  let left ← lhs
  (connectiveAfter formula left).orElse (pure left)

end Reader

def Rule.factoredReader (look : (rule : Rule) → Reader rule.Result) (rounds : Nat) :
    (rule : Rule) → Reader rule.Result
  | .formula => .leftFactored (look .binaryLhs) (look .formula)
  | rule => rule.reader look rounds

def Reader.runFactored : Nat → (rule : Rule) → Reader rule.Result
  | 0, _ => fail
  | allowance + 1, rule => rule.factoredReader (runFactored allowance) allowance

section

variable {rule : Rule}

theorem Rule.factoredBody_of_ne (other : rule ≠ .formula)
    (call : (rule : Rule) → Parser rule.Result) (rounds : Nat) :
    rule.factoredBody call rounds = rule.body call rounds := by
  cases rule <;> first | rfl | exact absurd rfl other

theorem Rule.factoredReader_of_ne (other : rule ≠ .formula)
    (look : (rule : Rule) → Reader rule.Result) (rounds : Nat) :
    rule.factoredReader look rounds = rule.reader look rounds := by
  cases rule <;> first | rfl | exact absurd rfl other

/-! ## Reading left-factored -/

/-- With an allowance that meets the need, reading left-factored is reading, its reach included. -/
theorem Reader.runFactored_eq_read {allowance : Nat} {items : List Item} {start : Nat}
    (enough : rule.need (items.length - start) ≤ allowance) :
    runFactored allowance rule items start = rule.read items start := by
  induction allowance generalizing rule start with
  | zero =>
    have positive := rule.need_pos (items.length - start)
    omega
  | succ allowance ih =>
    rw [runFactored]
    by_cases known : rule = .formula
    · -- by its equation the rule for formulas reads the operand once, so it goes the same way
      subst known
      simp only [Rule.need, Rule.rank] at enough
      rw [Rule.read_formula]
      refine (bind_congr ?_ fun left stop ended => ?_).symm
      · exact (ih (by simp only [Rule.need, Rule.rank]; omega)).symm
      · obtain ⟨forward, -⟩ := (Rule.steady_read .binaryLhs).matched ended
        refine orElse_congr ?_ rfl
        refine bind_congr rfl fun token stop ended => ?_
        obtain ⟨inside, rfl⟩ := of_matched_nextToken ended
        refine bind_congr rfl fun op stop ended => ?_
        cases of_matched_ofOption ended
        refine bind_congr ?_ fun _ _ _ => rfl
        exact (ih (by simp only [Rule.need, Rule.rank]; omega)).symm
    · have rounds : rule = .termList → items.length - start < allowance := by
        rintro rfl
        simp only [Rule.need, Rule.rank] at enough
        omega
      rw [Rule.factoredReader_of_ne known, Rule.read_eq rounds]
      refine (Rule.reader_congr Rule.steady_read (fun other place lower => ?_) rounds rounds).symm
      exact (ih (by omega)).symm

/-! ## Parsing left-factored -/

namespace Parser

theorem Refines.ofOption {α : Type} (value : Option α) :
    Refines (ofOption value) (.ofOption value) := by
  cases value with
  | none => exact .fail
  | some value => exact .pure value

theorem connectiveAfter_refines {p : Parser Formula} {q : Reader Formula} (h : Refines p q)
    (left : Formula) : Refines (connectiveAfter p left) (.connectiveAfter q left) :=
  .bind .nextToken fun _ => .bind (.ofOption _) fun _ => .bind h fun _ => .pure _

theorem runFactored_refines (allowance : Nat) (rule : Rule) :
    Refines (runFactored allowance rule) (.runFactored allowance rule) ∧
      Restores (runFactored allowance rule) := by
  induction allowance generalizing rule with
  | zero => exact ⟨.fail, fun _ _ _ _ => rfl⟩
  | succ allowance ih =>
    apply attempt_refines rule
    by_cases known : rule = .formula
    · subst known
      refine .bind (ih .binaryLhs).1 fun left => ?_
      have behind := attempt_refines .binaryConnective (connectiveAfter_refines (ih .formula).1 left)
      exact .orElse behind.1 behind.2 (.pure left)
    · rw [Rule.factoredBody_of_ne known, Reader.runFactored, Rule.factoredReader_of_ne known]
      exact .of_alike (fun rule => (ih rule).1) (fun rule => (ih rule).2) (rule.alike _ _ allowance)

end Parser

end

/-- Two ends of reading that nothing further can tell apart: the outcome is one, and the cursors stand at
one place, have logged the same and have saved the same places. -/
structure SameEnd {α : Type} (ended ended' : Outcome α × Session) : Prop where
  outcome : ended.1 = ended'.1
  position : ended.2.position = ended'.2.position
  log : ended.2.cursor.log = ended'.2.cursor.log
  furthest : ended.2.cursor.furthestValue? = ended'.2.cursor.furthestValue?
  checkpoints : ended.2.cursor.checkpoints = ended'.2.cursor.checkpoints

/-- Two parsers that have ended as one reading tells, and that come back without a match, have ended in
the same way. -/
theorem Reading.Tells.sameEnd {α : Type} {items : List Item} {s : Session} {reading : Reading α}
    {ended ended' : Outcome α × Session} (told : reading.Tells items s ended)
    (told' : reading.Tells items s ended')
    (back : ended.1.isMatch = false → ended.2.position = s.position)
    (back' : ended'.1.isMatch = false → ended'.2.position = s.position) : SameEnd ended ended' := by
  have size : ended.2.cursor.log.size = ended'.2.cursor.log.size := told.size.trans told'.size.symm
  have log : ended.2.cursor.log = ended'.2.cursor.log := by
    apply Array.toList_inj.mp
    rw [told.along.log_eq, told'.along.log_eq, size]
  have furthest : ended.2.cursor.furthestValue? = ended'.2.cursor.furthestValue? := by
    rw [Cursor.furthestValue?, Cursor.furthestValue?, told.along.furthest, told'.along.furthest, log]
  have saved := told.checkpoints.trans told'.checkpoints.symm
  rcases ended with ⟨ended, s₁⟩
  rcases ended' with ⟨ended', s₂⟩
  rcases reading with ⟨⟨value, stop⟩ | _ | offset, reach⟩
  · obtain ⟨-, -, -, rfl, rfl⟩ := told
    obtain ⟨-, -, -, rfl, same⟩ := told'
    exact ⟨rfl, same.symm, log, furthest, saved⟩
  · obtain ⟨-, -, -, rfl⟩ := told
    obtain ⟨-, -, -, rfl⟩ := told'
    exact ⟨rfl, (back rfl).trans (back' rfl).symm, log, furthest, saved⟩
  · obtain ⟨-, -, -, rfl⟩ := told
    obtain ⟨-, -, -, rfl⟩ := told'
    exact ⟨rfl, (back rfl).trans (back' rfl).symm, log, furthest, saved⟩

theorem Parser.sameEnd_runFactored {items : List Item} {s : Session} (along : s.cursor.Over items)
    (rule : Rule) {allowance : Nat} (enough : s.allowance ≤ allowance) :
    SameEnd (call rule s) (runFactored allowance rule s) := by
  -- both parsers refine the one reading from the position of the session
  obtain ⟨refines, restores⟩ := runFactored_refines allowance rule
  have need : rule.need (items.length - s.position) ≤ allowance :=
    Nat.le_trans (rule.need_le _) (Nat.le_trans (le_allowance along) enough)
  have told := refines items s along
  rw [Reader.runFactored_eq_read need] at told
  exact (call_refines rule items s along).sameEnd told (call_restores rule items s along)
    (restores items s along)

/-- At every moment of a source, reading a formula left-factored ends as the rule for formulas does, the
log and the furthest item included, however much more than the rule's allowance it is allowed. -/
theorem formula_eq_leftFactored (source : String) (moves : List Move) (journal : Option (List Entry))
    (extra : Nat) :
    let s := Session.moment source moves journal
    SameEnd (Parser.call .formula s) (Parser.runFactored (s.allowance + extra) .formula s) := by
  intro s
  have along : s.cursor.Over _ := Session.over_moment
  exact Parser.sameEnd_runFactored along .formula (Nat.le_add_right _ _)

end Definiens
