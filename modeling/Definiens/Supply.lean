/-!
# Supplies

A supply is something that values are drawn from, one at a time.  A draw may come up empty, and a
later one need not.  A supply may also have notices to give of the work that a draw has cost it.
-/

namespace Definiens

/-- What one draw gives: the value that came, if any, the notices in order, and the supply left. -/
structure Draw (σ α ε : Type) where
  value : Option α
  notices : List ε
  rest : σ

/-- A state of type `σ` from which values of type `α` are drawn, with notices of type `ε`. -/
class Supply (σ : Type) (α ε : outParam Type) where
  draw : σ → Draw σ α ε

/-- A supply whose answers are laid down in advance; after the last one every draw comes up empty. -/
structure Replies (α : Type) where
  ahead : List (Option α)

instance (α : Type) : Supply (Replies α) α Empty where
  draw
    | ⟨[]⟩ => ⟨none, [], ⟨[]⟩⟩
    | ⟨reply :: ahead⟩ => ⟨reply, [], ⟨ahead⟩⟩

/-- A supply that counts how often it has been drawn from. -/
structure Counted (σ : Type) where
  inner : σ
  draws : Nat

instance (σ α ε : Type) [Supply σ α ε] : Supply (Counted σ) α ε where
  draw counted :=
    let drawn := Supply.draw counted.inner
    ⟨drawn.value, drawn.notices, ⟨drawn.rest, counted.draws + 1⟩⟩

end Definiens
