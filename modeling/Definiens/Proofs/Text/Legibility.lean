import Definiens.Proofs.Text.Runs

/-!
# Texts that can be read back

A text that is written in front of others can be read back if it shows where it ends.  `Legible` says so of
a way of writing values, given what may stand behind a value: equal texts begin with equal values and go on
with equal rests.  A numeral shows its end by the first character that is no digit, and values that are each
legible by themselves may stand in a row.
-/

namespace Definiens.Text

/-- What is written of a value can be told from what stands behind it, if that is such as `ends` allows. -/
def Legible {α : Type} (write : α → List Char) (ends : List Char → Prop) : Prop :=
  ∀ ⦃a b : α⦄ ⦃behind behind' : List Char⦄, ends behind → ends behind' →
    write a ++ behind = write b ++ behind' → a = b ∧ behind = behind'

theorem stops_cons {belongs : Char → Bool} {c : Char} {behind : List Char} (other : belongs c = false) :
    ∀ d ∈ (c :: behind).head?, belongs d = false := by
  rintro d ⟨rfl⟩
  exact other

namespace Legible

variable {α : Type} {write : α → List Char} {ends ends' : List Char → Prop}

theorem mono (legible : Legible write ends) (narrower : ∀ behind, ends' behind → ends behind) :
    Legible write ends' :=
  fun _ _ _ _ stops stops' same => legible (narrower _ stops) (narrower _ stops') same

/-- A way of writing is legible if a reader undoes it. -/
theorem of_read (read : List Char → Option (α × List Char))
    (undoes : ∀ a behind, ends behind → read (write a ++ behind) = some (a, behind)) :
    Legible write ends := by
  intro a b behind behind' stops stops' same
  have reading := undoes a behind stops
  rw [same, undoes b behind' stops'] at reading
  cases reading
  exact ⟨rfl, rfl⟩

/-- Values that are written by characters of one class, up to a character that is not of the class. -/
theorem of_run {belongs : Char → Bool} (injective : ∀ {a b}, write a = write b → a = b)
    (within : ∀ a, ∀ c ∈ write a, belongs c = true) :
    Legible write fun behind => ∀ c ∈ behind.head?, belongs c = false := by
  intro a b behind behind' stops stops' same
  obtain ⟨written, rest⟩ := longest_run_unique (within a) stops (within b) stops' same
  exact ⟨injective written, rest⟩

/-- Values that are written one behind the other, each legible whatever stands behind it, up to where no such
value is written. -/
theorem flatMap (single : Legible write fun _ => True) :
    Legible (fun values : List α => values.flatMap write) fun behind =>
      ∀ a rest, behind ≠ write a ++ rest := by
  intro values others behind behind' stops stops' same
  dsimp only at same
  induction values generalizing others with
  | nil =>
    cases others with
    | nil => exact ⟨rfl, same⟩
    | cons b others =>
      rw [List.flatMap_nil, List.nil_append, List.flatMap_cons, List.append_assoc] at same
      exact absurd same (stops b _)
  | cons a values ih =>
    cases others with
    | nil =>
      rw [List.flatMap_nil, List.nil_append, List.flatMap_cons, List.append_assoc] at same
      exact absurd same.symm (stops' a _)
    | cons b others =>
      rw [List.flatMap_cons, List.flatMap_cons, List.append_assoc, List.append_assoc] at same
      obtain ⟨rfl, rest⟩ := single trivial trivial same
      obtain ⟨rfl, stands⟩ := ih rest
      exact ⟨rfl, stands⟩

end Legible

theorem toList_numeral (n : Nat) : (toString n).toList = Nat.toDigits 10 n := by
  rw [Nat.toString_eq_ofList_toDigits, String.toList_ofList]

theorem isDigit_of_mem_numeral {n : Nat} {c : Char} (member : c ∈ (toString n).toList) :
    c.isDigit = true := by
  rw [toList_numeral] at member
  exact Nat.isDigit_of_mem_toDigits (by decide) (by decide) member

theorem legible_numeral :
    Legible (fun n : Nat => (toString n).toList) fun behind =>
      ∀ c ∈ behind.head?, c.isDigit = false := by
  refine Legible.of_run (fun {a b} same => ?_) fun _ _ => isDigit_of_mem_numeral
  rw [toList_numeral, toList_numeral] at same
  have values := congrArg (Nat.ofDigitChars 10 · 0) same
  rwa [Nat.ofDigitChars_ten_toDigits, Nat.ofDigitChars_ten_toDigits] at values

end Definiens.Text
