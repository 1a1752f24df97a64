import Definiens.Proofs.Grammar.Reader

/-!
# How combined readings end

For each combinator, the exact condition for each of the three ways in which a reading ends.  Later
proofs take a reading apart, and put one together, by these equivalences alone.
-/

namespace Definiens

namespace Reading

variable {α : Type}

@[simp]
theorem outcome_also (seen : Nat) (reading : Reading α) :
    (reading.also seen).outcome = reading.outcome :=
  rfl

@[simp]
theorem reach_also (seen : Nat) (reading : Reading α) :
    (reading.also seen).reach = max seen reading.reach :=
  rfl

end Reading

namespace Reader

variable {α β : Type} {items : List Item} {start : Nat}

/-! ## Values -/

@[simp]
theorem outcome_pure (value : α) :
    ((pure value : Reader α) items start).outcome = .matched (value, start) :=
  rfl

@[simp]
theorem outcome_fail : ((fail : Reader α) items start).outcome = .noMatch :=
  rfl

@[simp]
theorem ofOption_some (value : α) : ofOption (some value) = pure value :=
  rfl

@[simp]
theorem ofOption_none : ofOption (none : Option α) = fail :=
  rfl

@[simp]
theorem matched_ofOption {value? : Option α} {result : α × Nat} :
    (ofOption value? items start).outcome = .matched result ↔
      value? = some result.1 ∧ result.2 = start := by
  rcases result with ⟨value, stop⟩
  cases value? with
  | none => simp
  | some value' => simp [eq_comm]

/-! ## Sequence and choice -/

theorem matched_bind {p : Reader α} {next : α → Reader β} {result : β × Nat} :
    ((p >>= next) items start).outcome = .matched result ↔
      ∃ value stop, (p items start).outcome = .matched (value, stop) ∧
        (next value items stop).outcome = .matched result := by
  simp only [bind, andThen]
  rcases p items start with ⟨⟨value, stop⟩ | _ | offset, reach⟩ <;> simp [and_assoc]

theorem noMatch_bind {p : Reader α} {next : α → Reader β} :
    ((p >>= next) items start).outcome = .noMatch ↔
      (p items start).outcome = .noMatch ∨
        ∃ value stop, (p items start).outcome = .matched (value, stop) ∧
          (next value items stop).outcome = .noMatch := by
  simp only [bind, andThen]
  rcases p items start with ⟨⟨value, stop⟩ | _ | offset, reach⟩ <;> simp [and_assoc]

theorem failed_bind {p : Reader α} {next : α → Reader β} {offset : Nat} :
    ((p >>= next) items start).outcome = .failed offset ↔
      (p items start).outcome = .failed offset ∨
        ∃ value stop, (p items start).outcome = .matched (value, stop) ∧
          (next value items stop).outcome = .failed offset := by
  simp only [bind, andThen]
  rcases p items start with ⟨⟨value, stop⟩ | _ | offset, reach⟩ <;> simp [and_assoc]

theorem outcome_bind_of_matched {p : Reader α} {next : α → Reader β} {value : α} {stop : Nat}
    (first : (p items start).outcome = .matched (value, stop)) :
    ((p >>= next) items start).outcome = (next value items stop).outcome := by
  simp only [bind, andThen]
  generalize p items start = reading at *
  rcases reading with ⟨ended, reach⟩
  cases first
  rfl

theorem matched_orElse {p q : Reader α} {result : α × Nat} :
    ((p.orElse q) items start).outcome = .matched result ↔
      (p items start).outcome = .matched result ∨
        (p items start).outcome = .noMatch ∧ (q items start).outcome = .matched result := by
  simp only [orElse]
  rcases p items start with ⟨result | _ | offset, reach⟩ <;> simp

theorem noMatch_orElse {p q : Reader α} :
    ((p.orElse q) items start).outcome = .noMatch ↔
      (p items start).outcome = .noMatch ∧ (q items start).outcome = .noMatch := by
  simp only [orElse]
  rcases p items start with ⟨result | _ | offset, reach⟩ <;> simp

theorem failed_orElse {p q : Reader α} {offset : Nat} :
    ((p.orElse q) items start).outcome = .failed offset ↔
      (p items start).outcome = .failed offset ∨
        (p items start).outcome = .noMatch ∧ (q items start).outcome = .failed offset := by
  simp only [orElse]
  rcases p items start with ⟨result | _ | offset, reach⟩ <;> simp

theorem matched_optional_some {p : Reader α} {value : α} {stop : Nat} :
    (optional p items start).outcome = .matched (some value, stop) ↔
      (p items start).outcome = .matched (value, stop) := by
  simp only [optional]
  rcases p items start with ⟨⟨value', stop'⟩ | _ | offset, reach⟩ <;> simp

theorem matched_optional_none {p : Reader α} {stop : Nat} :
    (optional p items start).outcome = .matched (none, stop) ↔
      (p items start).outcome = .noMatch ∧ stop = start := by
  simp only [optional]
  rcases p items start with ⟨⟨value', stop'⟩ | _ | offset, reach⟩ <;> simp [eq_comm]

theorem failed_optional {p : Reader α} {offset : Nat} :
    (optional p items start).outcome = .failed offset ↔ (p items start).outcome = .failed offset := by
  simp only [optional]
  rcases p items start with ⟨⟨value, stop⟩ | _ | place, reach⟩ <;> simp

/-! ## Tokens -/

@[simp]
theorem matched_nextToken {token : Token} {stop : Nat} :
    (nextToken items start).outcome = .matched (token, stop) ↔
      items[start]? = some (.token token) ∧ stop = start + 1 := by
  rw [nextToken]
  rcases items[start]? with _ | token' | offset <;> simp [eq_comm]

@[simp]
theorem noMatch_nextToken :
    (nextToken items start).outcome = .noMatch ↔ items[start]? = none := by
  rw [nextToken]
  rcases items[start]? with _ | token | offset <;> simp

@[simp]
theorem failed_nextToken {offset : Nat} :
    (nextToken items start).outcome = .failed offset ↔
      items[start]? = some (.failure offset) := by
  rw [nextToken]
  rcases items[start]? with _ | token | place <;> simp

@[simp]
theorem matched_expect {kind : Kind} {token : Token} {stop : Nat} :
    (expect kind items start).outcome = .matched (token, stop) ↔
      items[start]? = some (.token token) ∧ token.kind = kind ∧ stop = start + 1 := by
  simp only [expect, matched_bind, matched_nextToken]
  constructor
  · rintro ⟨read, _, ⟨hread, rfl⟩, hkind⟩
    split at hkind
    next same =>
      cases hkind
      exact ⟨hread, Token.is_eq_true.mp same, rfl⟩
    next => cases hkind
  · rintro ⟨hread, same, rfl⟩
    refine ⟨token, _, ⟨hread, rfl⟩, ?_⟩
    rw [if_pos (Token.is_eq_true.mpr same), outcome_pure]

@[simp]
theorem noMatch_expect {kind : Kind} :
    (expect kind items start).outcome = .noMatch ↔
      ∀ item, items[start]? = some item → ∃ token, item = .token token ∧ token.kind ≠ kind := by
  simp only [expect, noMatch_bind, matched_nextToken, noMatch_nextToken]
  constructor
  · rintro (none | ⟨token, _, ⟨hread, rfl⟩, other⟩) item hitem
    · rw [none] at hitem
      cases hitem
    · rw [hread] at hitem
      cases hitem
      refine ⟨token, rfl, ?_⟩
      rintro same
      rw [if_pos (Token.is_eq_true.mpr same), outcome_pure] at other
      cases other
  · intro other
    cases hitem : items[start]? with
    | none => exact Or.inl rfl
    | some item =>
      obtain ⟨token, rfl, hkind⟩ := other item hitem
      refine Or.inr ⟨token, _, ⟨rfl, rfl⟩, ?_⟩
      rw [if_neg (mt Token.is_eq_true.mp hkind), outcome_fail]

@[simp]
theorem failed_expect {kind : Kind} {offset : Nat} :
    (expect kind items start).outcome = .failed offset ↔
      items[start]? = some (.failure offset) := by
  simp only [expect, failed_bind, failed_nextToken, matched_nextToken]
  constructor
  · rintro (failed | ⟨token, _, ⟨hread, rfl⟩, impossible⟩)
    · exact failed
    · split at impossible <;> cases impossible
  · exact Or.inl

theorem matched_ifNext {kind : Kind} {yes no : Reader α} {result : α × Nat} :
    ((ifNext kind yes no) items start).outcome = .matched result ↔
      (∃ token, items[start]? = some (.token token) ∧ token.kind = kind ∧
        (yes items (start + 1)).outcome = .matched result) ∨
      (expect kind items start).outcome = .noMatch ∧
        (no items start).outcome = .matched result := by
  rw [ifNext, noMatch_expect]
  rcases items[start]? with _ | token | offset
  · simp
  · by_cases same : token.kind = kind <;> simp [same, Token.is]
  · simp

/-! ## Reach -/

@[simp]
theorem reach_nextToken : (nextToken items start).reach = start + 1 := by
  rw [nextToken]
  split <;> rfl

@[simp]
theorem reach_expect {kind : Kind} : (expect kind items start).reach = start + 1 := by
  simp only [expect, bind, andThen, nextToken]
  rcases items[start]? with _ | token | offset
  · rfl
  · dsimp only
    split <;> exact Nat.max_eq_left (Nat.zero_le _)
  · rfl

theorem reach_le_bind {p : Reader α} {next : α → Reader β} :
    (p items start).reach ≤ ((p >>= next) items start).reach := by
  simp only [bind, andThen]
  rcases p items start with ⟨⟨value, stop⟩ | _ | offset, reach⟩
  · exact Nat.le_max_left _ _
  · exact Nat.le_refl _
  · exact Nat.le_refl _

end Reader

end Definiens
