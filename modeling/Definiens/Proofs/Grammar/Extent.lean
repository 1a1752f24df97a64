import Definiens.Proofs.Grammar.Alike
import Definiens.Proofs.Grammar.Outcomes

/-!
# What a reading passes over and what it looks at

A match goes forward over tokens only, and a failure is a failure of the list.  A reading depends on
nothing that lies beyond its reach, so what is changed there changes nothing.
-/

namespace Definiens

namespace Reader

variable {α β : Type}

/-- A match goes forward over tokens, and a failure is one that stands in the list. -/
structure Steady (q : Reader α) : Prop where
  matched {items : List Item} {start stop : Nat} {value : α}
    (ended : (q items start).outcome = .matched (value, stop)) :
    start ≤ stop ∧ ∀ place, start ≤ place → place < stop →
      ∃ token, items[place]? = some (.token token)
  failed {items : List Item} {start offset : Nat}
    (ended : (q items start).outcome = .failed offset) :
    ∃ place : Nat, items[place]? = some (.failure offset)

/-- A reading is determined by the items within its reach. -/
def Local (q : Reader α) : Prop :=
  ∀ items items' start, (∀ place < (q items start).reach, items'[place]? = items[place]?) →
    q items' start = q items start

/-! ## Going forward -/

namespace Steady

theorem pure (value : α) : Steady (Pure.pure value : Reader α) where
  matched := by
    rintro items start stop value' ended
    cases ended
    exact ⟨Nat.le_refl _, fun place low high => by omega⟩
  failed := nofun

theorem fail : Steady (fail : Reader α) := ⟨nofun, nofun⟩

theorem nextToken : Steady nextToken where
  matched := by
    intro items start stop token ended
    obtain ⟨here, rfl⟩ := matched_nextToken.mp ended
    refine ⟨Nat.le_succ start, fun place low high => ⟨token, ?_⟩⟩
    rw [show place = start by omega, here]
  failed := fun ended => ⟨_, failed_nextToken.mp ended⟩

theorem optional {q : Reader α} (h : Steady q) : Steady (optional q) where
  matched := by
    intro items start stop value ended
    simp only [Reader.optional] at ended
    split at ended
    next value' stop' reach reading =>
      cases ended
      exact h.matched (congrArg Reading.outcome reading)
    next reach reading =>
      cases ended
      exact ⟨Nat.le_refl _, fun place low high => by omega⟩
    next => cases ended
  failed := by
    intro items start offset ended
    simp only [Reader.optional] at ended
    split at ended
    next => cases ended
    next => cases ended
    next offset' reach reading =>
      cases ended
      exact h.failed (congrArg Reading.outcome reading)

theorem orElse {p q : Reader α} (first : Steady p) (second : Steady q) :
    Steady (p.orElse q) where
  matched := by
    intro items start stop value ended
    rcases matched_orElse.mp ended with ended | ⟨-, ended⟩
    · exact first.matched ended
    · exact second.matched ended
  failed := by
    intro items start offset ended
    rcases failed_orElse.mp ended with ended | ⟨-, ended⟩
    · exact first.failed ended
    · exact second.failed ended

theorem bind {q : Reader α} {next : α → Reader β} (first : Steady q)
    (second : ∀ value, Steady (next value)) : Steady (q >>= next) where
  matched := by
    intro items start stop value ended
    obtain ⟨value', middle, ended, ended'⟩ := matched_bind.mp ended
    obtain ⟨forward, before⟩ := first.matched ended
    obtain ⟨forward', behind⟩ := (second value').matched ended'
    refine ⟨Nat.le_trans forward forward', fun place low high => ?_⟩
    by_cases side : place < middle
    · exact before place low side
    · exact behind place (Nat.le_of_not_lt side) high
  failed := by
    intro items start offset ended
    rcases failed_bind.mp ended with ended | ⟨value, middle, -, ended⟩
    · exact first.failed ended
    · exact (second value).failed ended

theorem ifNext {kind : Kind} {yes no : Reader α} (found : Steady yes) (absent : Steady no) :
    Steady (ifNext kind yes no) where
  matched := by
    intro items start stop value ended
    simp only [Reader.ifNext] at ended
    split at ended
    next token here =>
      split at ended
      · obtain ⟨forward, behind⟩ := found.matched ended
        refine ⟨by omega, fun place low high => ?_⟩
        by_cases first : place = start
        · exact ⟨token, by rw [first, here]⟩
        · exact behind place (by omega) high
      · exact absent.matched ended
    next => cases ended
    next => exact absent.matched ended
  failed := by
    intro items start offset ended
    simp only [Reader.ifNext] at ended
    split at ended
    next token here =>
      split at ended
      · exact found.failed ended
      · exact absent.failed ended
    next offset' here =>
      cases ended
      exact ⟨start, here⟩
    next => exact absent.failed ended

theorem of_alike {call : (rule : Rule) → Parser rule.Result}
    {look : (rule : Rule) → Reader rule.Result} (calls : ∀ rule, Steady (look rule))
    {p : Parser α} {q : Reader α} (made : Alike call look α p q) : Steady q := by
  induction made with
  | pure value => exact .pure value
  | fail => exact .fail
  | nextToken => exact .nextToken
  | call rule => exact calls rule
  | optional rule => exact .optional (calls rule)
  | orElse rule others ih => exact .orElse (calls rule) ih
  | bind first second ih ih' => exact .bind ih ih'
  | ifNext kind found absent ih ih' => exact .ifNext ih ih'

theorem run (allowance : Nat) (rule : Rule) : Steady (run allowance rule) := by
  induction allowance generalizing rule with
  | zero => exact .fail
  | succ allowance ih =>
    exact of_alike ih (rule.alike (Parser.run allowance) (Reader.run allowance) allowance)

end Steady

/-! ## Looking no further than the reach -/

namespace Local

theorem within_left {P : Nat → Prop} {reach reach' : Nat} (h : ∀ place < max reach reach', P place) :
    ∀ place < reach, P place :=
  fun place inside => h place (Nat.lt_of_lt_of_le inside (Nat.le_max_left _ _))

theorem within_right {P : Nat → Prop} {reach reach' : Nat}
    (h : ∀ place < max reach reach', P place) : ∀ place < reach', P place :=
  fun place inside => h place (Nat.lt_of_lt_of_le inside (Nat.le_max_right _ _))

theorem nextToken : Local nextToken := by
  intro items items' start same
  have here := same start (by rw [reach_nextToken]; exact Nat.lt_succ_self start)
  simp only [Reader.nextToken, here]

theorem optional {q : Reader α} (h : Local q) : Local (optional q) := by
  intro items items' start same
  have reach : (Reader.optional q items start).reach = (q items start).reach := by
    simp only [Reader.optional]
    split <;> simp_all
  rw [reach] at same
  simp only [Reader.optional, h items items' start same]

theorem orElse {p q : Reader α} (first : Local p) (second : Local q) : Local (p.orElse q) := by
  intro items items' start same
  simp only [Reader.orElse] at same ⊢
  rcases hp : p items start with ⟨value | _ | offset, reach⟩ <;> rw [hp] at same
  · rw [first items items' start (by rw [hp]; exact same), hp]
  · have before := first items items' start
      (by rw [hp]; exact within_left same)
    have behind := second items items' start (within_right same)
    rw [before, hp]
    dsimp only
    rw [behind]
  · rw [first items items' start (by rw [hp]; exact same), hp]

theorem bind {q : Reader α} {next : α → Reader β} (first : Local q)
    (second : ∀ value, Local (next value)) : Local (q >>= next) := by
  intro items items' start same
  simp only [Bind.bind, Reader.andThen] at same ⊢
  rcases hq : q items start with ⟨⟨value, stop⟩ | _ | offset, reach⟩ <;> rw [hq] at same
  · have before := first items items' start
      (by rw [hq]; exact within_left same)
    have behind := second value items items' stop (within_right same)
    rw [before, hq]
    dsimp only
    rw [behind]
  · rw [first items items' start (by rw [hq]; exact same), hq]
  · rw [first items items' start (by rw [hq]; exact same), hq]

theorem ifNext {kind : Kind} {yes no : Reader α} (found : Local yes) (absent : Local no) :
    Local (ifNext kind yes no) := by
  intro items items' start same
  have reach : start < (Reader.ifNext kind yes no items start).reach := by
    rw [Reader.ifNext]
    split
    · exact Nat.lt_of_lt_of_le (Nat.lt_succ_self start) (Nat.le_max_left _ _)
    · exact Nat.lt_succ_self start
    · exact Nat.lt_of_lt_of_le (Nat.lt_succ_self start) (Nat.le_max_left _ _)
  have here' := same start reach
  rcases here : items[start]? with _ | token | offset <;> rw [here] at here' <;>
    rw [Reader.ifNext, here] at same <;> simp only [Reader.ifNext, here, here']
  · rw [absent items items' start (within_right same)]
  · dsimp only at same
    by_cases known : token.is kind = true
    · rw [if_pos known] at same
      rw [if_pos known, if_pos known, found items items' (start + 1) (within_right same)]
    · rw [if_neg known] at same
      rw [if_neg known, if_neg known, absent items items' start (within_right same)]

theorem of_alike {call : (rule : Rule) → Parser rule.Result}
    {look : (rule : Rule) → Reader rule.Result} (calls : ∀ rule, Local (look rule))
    {p : Parser α} {q : Reader α} (made : Alike call look α p q) : Local q := by
  induction made with
  | pure value => exact fun _ _ _ _ => rfl
  | fail => exact fun _ _ _ _ => rfl
  | nextToken => exact .nextToken
  | call rule => exact calls rule
  | optional rule => exact .optional (calls rule)
  | orElse rule others ih => exact .orElse (calls rule) ih
  | bind first second ih ih' => exact .bind ih ih'
  | ifNext kind found absent ih ih' => exact .ifNext ih ih'

theorem run (allowance : Nat) (rule : Rule) : Local (run allowance rule) := by
  induction allowance generalizing rule with
  | zero => exact fun _ _ _ _ => rfl
  | succ allowance ih =>
    exact of_alike ih (rule.alike (Parser.run allowance) (Reader.run allowance) allowance)

end Local

end Reader

end Definiens
