import Definiens.Supply

/-!
# What a supply delivers

A supply shows itself in its answers alone: what it gives at the first draw, at the second and so on, which
is a value or nothing.  What it has delivered in so many draws are the values among so many answers, in
their order.
-/

namespace Definiens

namespace Supply

section

variable {σ α ε : Type} [Supply σ α ε]

def after (supply : σ) : Nat → σ
  | 0 => supply
  | draws + 1 => (Supply.draw (after supply draws)).rest

/-- What a supply answers to the draw that comes after so many others. -/
def answer (supply : σ) (draws : Nat) : Option α := (Supply.draw (after supply draws)).value

end

variable {α : Type} {answers : Nat → Option α} {draws later : Nat}

/-- The values among the first so many answers. -/
def delivered (answers : Nat → Option α) (draws : Nat) : List α :=
  (List.range draws).filterMap answers

/-- There is no answer with a value from this draw on. -/
def EndedAt (answers : Nat → Option α) (draws : Nat) : Prop :=
  ∀ later, draws ≤ later → answers later = none

/-- After an answer without a value there are only such answers. -/
def Fused (answers : Nat → Option α) : Prop :=
  ∀ draws, answers draws = none → answers (draws + 1) = none

theorem delivered_succ (answers : Nat → Option α) (draws : Nat) :
    delivered answers (draws + 1) = delivered answers draws ++ (answers draws).toList := by
  rw [delivered, List.range_succ, List.filterMap_append]
  cases answer : answers draws <;> simp [delivered, answer]

theorem delivered_isPrefix (answers : Nat → Option α) (le : draws ≤ later) :
    delivered answers draws <+: delivered answers later := by
  induction le with
  | refl => exact List.prefix_refl _
  | step _ ih =>
    rw [delivered_succ]
    exact ih.trans (List.prefix_append _ _)

theorem getElem?_delivered {place : Nat} {value : α} (le : draws ≤ later)
    (here : (delivered answers draws)[place]? = some value) :
    (delivered answers later)[place]? = some value := by
  obtain ⟨behind, whole⟩ := delivered_isPrefix answers le
  obtain ⟨inside, -⟩ := List.getElem?_eq_some_iff.mp here
  rw [← whole, List.getElem?_append_left inside, here]

theorem getElem?_delivered_succ {value : α} (given : answers draws = some value) :
    (delivered answers (draws + 1))[(delivered answers draws).length]? = some value := by
  rw [delivered_succ, given, Option.toList_some, List.getElem?_concat_length]

/-- Once a supply has ended it delivers nothing more. -/
theorem EndedAt.delivered_eq (ended : EndedAt answers draws) (le : draws ≤ later) :
    delivered answers later = delivered answers draws := by
  induction le with
  | refl => rfl
  | @step later le ih => rw [delivered_succ, ended later le, ih, Option.toList_none, List.append_nil]

theorem Fused.endedAt (fused : Fused answers) (missed : answers draws = none) :
    EndedAt answers draws := by
  intro later le
  induction le with
  | refl => exact missed
  | step _ ih => exact fused _ ih

end Supply

end Definiens
