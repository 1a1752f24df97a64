/-!
# Tables of code point ranges

A character class given by a standard is a list of closed ranges in increasing order.  `covers`
looks a code point up and stops at the first range that lies beyond it.
-/

namespace Definiens.Text

/-- Whether `n` lies in one of the ranges, which are in increasing order. -/
def covers : List (Nat × Nat) → Nat → Bool
  | [], _ => false
  | (low, high) :: ranges, n => if n < low then false else n ≤ high || covers ranges n

theorem exists_range_of_covers {ranges : List (Nat × Nat)} {n : Nat}
    (h : covers ranges n = true) : ∃ r ∈ ranges, r.1 ≤ n ∧ n ≤ r.2 := by
  induction ranges with
  | nil => simp [covers] at h
  | cons r ranges ih =>
    obtain ⟨low, high⟩ := r
    rw [covers] at h
    split at h
    · cases h
    · rename_i low_le
      rcases Bool.or_eq_true_iff.1 h with h | h
      · exact ⟨_, List.mem_cons_self, by omega, by simpa using h⟩
      · obtain ⟨r, hr, bounds⟩ := ih h
        exact ⟨r, List.mem_cons_of_mem _ hr, bounds⟩

end Definiens.Text
