import Definiens.Proofs.Grammar.Allowance

/-!
# The equations of the rules

Each rule is read by reading the rules that it mentions, with no allowance in sight.  A formula can
also be read with its left operand read once: `read_formula` says so of the whole reading, its reach
included, although the rule as it stands goes over a left operand without connective twice.
-/

namespace Definiens

namespace Rule

/-- Only a list of terms depends on the rounds that it is allowed. -/
theorem read_eq_reader {rule : Rule} (single : rule ≠ .termList) :
    rule.read = rule.reader Rule.read 0 := by
  funext items start
  exact read_eq fun same => absurd same single

theorem read_definition : definition.read = Reader.definition formula.read :=
  read_eq_reader nofun

theorem read_formula_eq : formula.read = Reader.firstOf
    [binaryConnective.read, parenthesized.read, quantifier.read, negation.read, equality.read,
     predicate.read] :=
  read_eq_reader nofun

theorem read_binaryConnective :
    binaryConnective.read = Reader.binaryConnective binaryLhs.read formula.read :=
  read_eq_reader nofun

theorem read_binaryLhs : binaryLhs.read = Reader.firstOf
    [parenthesized.read, quantifier.read, negation.read, equality.read, predicate.read] :=
  read_eq_reader nofun

theorem read_parenthesized : parenthesized.read = Reader.parenthesized formula.read :=
  read_eq_reader nofun

theorem read_quantifier : quantifier.read = Reader.quantifier var.read formula.read :=
  read_eq_reader nofun

theorem read_negation : negation.read = Reader.negation formula.read :=
  read_eq_reader nofun

theorem read_equality : equality.read = Reader.equality term.read :=
  read_eq_reader nofun

theorem read_predicate : predicate.read = Reader.predicate termList.read :=
  read_eq_reader nofun

theorem read_term : term.read = Reader.term function.read var.read :=
  read_eq_reader nofun

theorem read_function : function.read = Reader.function termList.read :=
  read_eq_reader nofun

theorem read_var : var.read = Reader.var :=
  read_eq_reader nofun

theorem read_atEnd : atEnd.read = Reader.expect .finish :=
  read_eq_reader nofun

/-! ## Left operands -/

/-- A connective and its right side, behind a left side that has been read. -/
def connectiveAfter (left : Formula) : Reader Formula := do
  let token ← Reader.nextToken
  let op ← Reader.ofOption (Connective.ofKind? token.kind)
  let right ← formula.read
  pure (.connective token op left right)

/-- Trying something longer first and then reading the same again is reading once and trying to go
on from there. -/
theorem bind_orElse_self {α : Type} (p : Reader α) (more : α → Reader α) :
    (p >>= more).orElse p = p >>= fun value => (more value).orElse (pure value) := by
  funext items start
  simp only [Bind.bind, Reader.orElse, Reader.andThen]
  rcases hp : p items start with ⟨⟨value, stop⟩ | _ | offset, reach⟩
  · dsimp only
    rcases more value items stop with ⟨result | _ | offset, reach'⟩
    · rfl
    · have looked : max (max reach reach') reach = max reach (max reach' 0) := by omega
      exact congrArg (Reading.mk _) looked
    · rfl
  · simp [Reading.also]
  · rfl

theorem read_formula :
    formula.read = binaryLhs.read >>= fun left => (connectiveAfter left).orElse (pure left) := by
  have first : binaryConnective.read = binaryLhs.read >>= connectiveAfter := read_binaryConnective
  have second : formula.read = binaryConnective.read.orElse binaryLhs.read := by
    rw [read_formula_eq, read_binaryLhs]
    rfl
  rw [second, first, bind_orElse_self]

/-! ## Lists of terms -/

def furtherTerms : Reader (List Term) := fun items start =>
  Reader.moreTerms term.read (items.length - start + 1) items start

def someTerms : Reader (List Term) := do
  let first ← term.read
  let others ← furtherTerms
  pure (first :: others)

theorem furtherTerms_eq : furtherTerms = Reader.ifNext .comma someTerms (pure []) := by
  funext items start
  refine Reader.ifNext_congr (fun inside => ?_) rfl
  refine Reader.bind_congr rfl fun next stop ended => ?_
  obtain ⟨forward, -⟩ := (steady_read .term).matched ended
  refine Reader.bind_congr ?_ fun _ _ _ => rfl
  exact Reader.moreTerms_congr (steady_read .term) (by omega) (by omega) fun _ _ _ => rfl

theorem read_termList : termList.read = (do
    match ← Reader.optional term.read with
    | none => pure []
    | some first =>
      let others ← furtherTerms
      pure (first :: others)) := by
  funext items start
  rw [read_eq']
  refine Reader.bind_congr rfl fun first? stop ended => ?_
  cases first? with
  | none => rfl
  | some first =>
    have forward : start ≤ stop := ((steady_read .term).optional.matched ended).1
    refine Reader.bind_congr ?_ fun _ _ _ => rfl
    exact Reader.moreTerms_congr (steady_read .term) (by omega) (by omega) fun _ _ _ => rfl

end Rule

end Definiens
