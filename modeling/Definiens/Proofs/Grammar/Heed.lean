import Definiens.Proofs.Grammar.Allowance

/-!
# Failures within reach

A reading never looks past a failure: it fails if there is a failure among what it has looked at from
its start on, and otherwise it does not.  So how far it has looked tells whether it has failed.
-/

namespace Definiens

variable {α β : Type} {items : List Item} {start : Nat}

/-- A match has been looked at, and a failure is one that the reading has come upon. -/
structure Reading.Heeds (items : List Item) (start : Nat) (reading : Reading α) : Prop where
  outcome : match reading.outcome with
    | .matched (_, stop) => stop ≤ max start reading.reach
    | .noMatch => True
    | .failed offset => ∃ place < reading.reach, items[place]? = some (.failure offset)
  failure : ∀ place offset, start ≤ place → place < reading.reach →
    items[place]? = some (.failure offset) → reading.outcome = .failed offset

namespace Reading.Heeds

theorem of_reach_zero {reading : Reading α} (reach : reading.reach = 0)
    (outcome : match reading.outcome with
      | .matched (_, stop) => stop = start
      | .noMatch => True
      | .failed _ => False) : reading.Heeds items start where
  outcome := by
    rcases reading with ⟨⟨value, stop⟩ | _ | offset, _⟩
    · exact Nat.le_trans (Nat.le_of_eq outcome) (Nat.le_max_left _ _)
    · trivial
    · cases outcome
  failure := by
    intro place offset low high
    rw [reach] at high
    exact absurd high (Nat.not_lt_zero place)

theorem of_failed {offset reach : Nat}
    (heeds : Reading.Heeds items start (⟨.failed offset, reach⟩ : Reading α)) :
    Reading.Heeds items start (⟨.failed offset, reach⟩ : Reading β) where
  outcome := heeds.outcome
  failure := by
    intro place offset' low high here
    cases heeds.failure place offset' low high here
    rfl

/-- A reading that goes on from another place, behind items without a failure that have been looked
at before. -/
theorem also {reading : Reading α} {stop seen : Nat} (heeds : reading.Heeds items stop)
    (near : stop ≤ max start seen)
    (clear : ∀ place offset, start ≤ place → place < seen → items[place]? ≠ some (.failure offset)) :
    (reading.also seen).Heeds items start where
  outcome := by
    have outcome := heeds.outcome
    simp only [Reading.outcome_also, Reading.reach_also]
    rcases reading with ⟨⟨value, stop'⟩ | _ | offset, reach⟩
    · dsimp only at outcome ⊢
      omega
    · trivial
    · obtain ⟨place, high, here⟩ := outcome
      exact ⟨place, Nat.lt_of_lt_of_le high (Nat.le_max_right _ _), here⟩
  failure := by
    intro place offset low high here
    rw [Reading.reach_also] at high
    rcases Nat.lt_or_ge place seen with before | behind
    · exact absurd here (clear place offset low before)
    · exact heeds.failure place offset (by omega) (by omega) here

theorem clear {reading : Reading α} (heeds : reading.Heeds items start)
    (fine : ∀ offset, reading.outcome ≠ .failed offset) :
    ∀ place offset, start ≤ place → place < reading.reach →
      items[place]? ≠ some (.failure offset) := by
  intro place offset low high here
  exact fine offset (heeds.failure place offset low high here)

end Reading.Heeds

namespace Reader

def Heeds (q : Reader α) : Prop := ∀ items start, (q items start).Heeds items start

namespace Heeds

theorem pure (value : α) : Heeds (Pure.pure value : Reader α) :=
  fun _ _ => .of_reach_zero rfl rfl

theorem fail : Heeds (fail : Reader α) :=
  fun _ _ => .of_reach_zero rfl trivial

theorem nextToken : Heeds nextToken := by
  intro items start
  refine ⟨?_, fun place offset low high here => ?_⟩
  · rw [reach_nextToken, Reader.nextToken]
    rcases here : items[start]? with _ | token | offset
    · trivial
    · exact Nat.le_max_right _ _
    · exact ⟨start, Nat.lt_succ_self start, here⟩
  · rw [reach_nextToken] at high
    cases Nat.le_antisymm low (Nat.le_of_lt_succ high)
    exact failed_nextToken.mpr here

theorem optional {q : Reader α} (h : Heeds q) : Heeds (optional q) := by
  intro items start
  have heeds := h items start
  simp only [Reader.optional]
  generalize q items start = reading at *
  rcases reading with ⟨⟨value, stop⟩ | _ | offset, reach⟩
  · exact ⟨heeds.outcome, fun _ _ low high here => absurd here (heeds.clear (by simp) _ _ low high)⟩
  · exact ⟨Nat.le_max_left _ _, fun _ _ low high here =>
      absurd here (heeds.clear (by simp) _ _ low high)⟩
  · exact heeds.of_failed

theorem orElse {p q : Reader α} (first : Heeds p) (second : Heeds q) : Heeds (p.orElse q) := by
  intro items start
  have heeds := first items start
  simp only [Reader.orElse]
  generalize p items start = reading at *
  rcases reading with ⟨result | _ | offset, reach⟩
  · exact heeds
  · exact (second items start).also (Nat.le_max_left _ _) (heeds.clear (by simp))
  · exact heeds

theorem bind {q : Reader α} {next : α → Reader β} (first : Heeds q)
    (second : ∀ value, Heeds (next value)) : Heeds (q >>= next) := by
  intro items start
  have heeds := first items start
  simp only [Bind.bind, andThen]
  generalize q items start = reading at *
  rcases reading with ⟨⟨value, stop⟩ | _ | offset, reach⟩
  · exact (second value items stop).also heeds.outcome (heeds.clear (by simp))
  · exact ⟨trivial, fun _ _ low high here => absurd here (heeds.clear (by simp) _ _ low high)⟩
  · exact heeds.of_failed

theorem ifNext {kind : Kind} {yes no : Reader α} (found : Heeds yes) (absent : Heeds no) :
    Heeds (ifNext kind yes no) := by
  intro items start
  have heeds := nextToken items start
  simp only [Reader.nextToken] at heeds
  simp only [Reader.ifNext]
  rcases here : items[start]? with _ | token | offset <;> rw [here] at heeds
  · exact (absent items start).also (Nat.le_max_left _ _) (heeds.clear (by simp))
  · dsimp only
    split
    · exact (found items (start + 1)).also (Nat.le_max_right _ _) (heeds.clear (by simp))
    · exact (absent items start).also (Nat.le_max_left _ _) (heeds.clear (by simp))
  · exact heeds.of_failed

theorem of_alike {call : (rule : Rule) → Parser rule.Result}
    {look : (rule : Rule) → Reader rule.Result} (calls : ∀ rule, Heeds (look rule))
    {p : Parser α} {q : Reader α} (made : Alike call look α p q) : Heeds q := by
  induction made with
  | pure value => exact pure value
  | fail => exact fail
  | nextToken => exact nextToken
  | call rule => exact calls rule
  | optional rule => exact optional (calls rule)
  | orElse rule others ih => exact orElse (calls rule) ih
  | bind first second ih ih' => exact bind ih ih'
  | ifNext kind found absent ih ih' => exact ifNext ih ih'

theorem run (allowance : Nat) (rule : Rule) : Heeds (run allowance rule) := by
  induction allowance generalizing rule with
  | zero => exact fail
  | succ allowance ih =>
    exact of_alike ih (rule.alike (Parser.run allowance) (Reader.run allowance) allowance)

/-- Behind tokens only, a reading fails exactly if it looks at a failure. -/
theorem failed_iff {q : Reader α} (h : Heeds q) {offset : Nat}
    (passed : ∀ place < start, ∃ token, items[place]? = some (.token token)) :
    (q items start).outcome = .failed offset ↔
      ∃ place < (q items start).reach, items[place]? = some (.failure offset) := by
  constructor
  · intro ended
    have outcome := (h items start).outcome
    rw [ended] at outcome
    exact outcome
  · rintro ⟨place, high, here⟩
    refine (h items start).failure place offset (Nat.le_of_not_lt fun before => ?_) high here
    obtain ⟨token, here'⟩ := passed place before
    rw [here] at here'
    cases here'

end Heeds

end Reader

theorem Rule.heeds_read (rule : Rule) : rule.read.Heeds :=
  fun items start => Reader.Heeds.run (4 * (items.length - start) + 6) rule items start

end Definiens
