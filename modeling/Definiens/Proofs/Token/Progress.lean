import Definiens.Token.Stream

/-!
# The lexer gets on

A rule that finds a token holds at least one character of it, and a rule that does not apply gives
everything back.  So every item that a stream lexes either takes characters away or stops the stream,
and `TokenStream.items`, which draws as often as `pending` allows, holds all that can be drawn.
-/

namespace Definiens

namespace Scanner

@[simp]
theorem advance_zero (s : Scanner) : s.advance 0 = s := by
  simp [advance]

theorem reset_advance {s : Scanner} (settled : s.held = []) (count : Nat) :
    (s.advance count).reset = s := by
  rcases s with ⟨committed, held, rest⟩
  cases settled
  simp [advance, reset]

theorem rest_commit_lt {s : Scanner} (settled : s.held = []) {count : Nat}
    (held : (s.advance count).held ≠ []) :
    (s.advance count).commit.rest.length < s.rest.length := by
  rcases s with ⟨committed, before, rest⟩
  cases settled
  simp only [advance, List.nil_append, ne_eq, List.take_eq_nil_iff, not_or] at held
  have ahead := List.length_pos_iff.mpr held.2
  simp only [advance, commit, List.length_drop]
  omega

end Scanner

/-! ## One rule -/

theorem Kind.ofKeyword?_eq_some {text : List Char} {kind : Kind}
    (found : Kind.ofKeyword? text = some kind) : text ≠ [] ∧ kind ≠ .finish := by
  obtain ⟨entry, hfind, rfl⟩ := Option.map_eq_some_iff.mp found
  have spelled : entry.1.toList = text := by simpa using List.find?_some hfind
  have proper : ∀ entry ∈ keywords, entry.1.toList ≠ [] ∧ entry.2 ≠ .finish := by decide
  rw [← spelled]
  exact proper entry (List.mem_of_find?_eq_some hfind)

theorem Kind.ofMark?_ne_finish {c : Char} {kind : Kind} (found : Kind.ofMark? c = some kind) :
    kind ≠ .finish := by
  rintro rfl
  unfold Kind.ofMark? at found
  repeat' split at found
  all_goals cases found

namespace Lexeme

/-- Whatever its verdict, a rule has looked over some of the characters ahead and done nothing else. -/
theorem scan_eq_advance (rule : Lexeme) (s : Scanner) :
    ∃ count, (rule.scan s).1 = s.advance count := by
  cases rule with
  | keyword =>
    refine ⟨s.runLength fun c => !isDelimiter c, ?_⟩
    simp only [scan, scanKeyword]
    split <;> rfl
  | mark =>
    simp only [scan, scanMark]
    split
    · exact ⟨1, rfl⟩
    · exact ⟨0, s.advance_zero.symm⟩
  | typeLiteral =>
    simp only [scan, scanTypeLiteral]
    split
    · split
      · exact ⟨_, rfl⟩
      · exact ⟨0, s.advance_zero.symm⟩
    · exact ⟨0, s.advance_zero.symm⟩
  | symbol =>
    simp only [scan, scanSymbol]
    split
    · exact ⟨0, s.advance_zero.symm⟩
    · exact ⟨_, rfl⟩

theorem scan_found {rule : Lexeme} {s scanned : Scanner} {kind : Kind}
    (found : rule.scan s = (scanned, .found kind)) : scanned.held ≠ [] ∧ kind ≠ .finish := by
  cases rule with
  | keyword =>
    simp only [scan, scanKeyword] at found
    split at found
    next known hknown =>
      cases found
      exact Kind.ofKeyword?_eq_some hknown
    next => cases found
  | mark =>
    simp only [scan, scanMark] at found
    split at found
    next known hknown =>
      cases found
      obtain ⟨c, hc, hmark⟩ := Option.bind_eq_some_iff.mp hknown
      refine ⟨?_, Kind.ofMark?_ne_finish hmark⟩
      cases hrest : s.rest with
      | nil => simp [hrest] at hc
      | cons d rest => simp [Scanner.advance, hrest]
    next => cases found
  | typeLiteral =>
    simp only [scan, scanTypeLiteral] at found
    split at found
    next opened =>
      split at found
      next closed =>
        cases found
        refine ⟨?_, by decide⟩
        have ahead : s.rest ≠ [] := List.ne_nil_of_mem closed
        simp [Scanner.advance, ahead]
      next => cases found
    next => cases found
  | symbol =>
    simp only [scan, scanSymbol] at found
    split at found
    next => cases found
    next some =>
      cases found
      refine ⟨?_, by decide⟩
      have ahead : s.rest ≠ [] := by
        intro none
        exact some (by simp [Scanner.runLength, none])
      simp [Scanner.advance, some, ahead]

/-! ## The rules in order -/

/-- An item read at a settled place is a token that takes characters away, or a failure there that
takes none. -/
theorem read_cases (rules : List Lexeme) {s : Scanner} (settled : s.held = []) :
    (∃ token after, read rules s = (.token token, after) ∧ token.kind ≠ .finish ∧
      after.held = [] ∧ after.rest.length < s.rest.length) ∨
    read rules s = (.failure s.committed, s) := by
  induction rules with
  | nil => exact Or.inr rfl
  | cons rule rules ih =>
    obtain ⟨count, hcount⟩ := rule.scan_eq_advance s
    have back := Scanner.reset_advance settled count
    rw [← hcount] at back
    rw [read]
    split
    next scanned kind found =>
      obtain ⟨held, notFinish⟩ := scan_found found
      rw [found] at hcount
      subst hcount
      exact Or.inl ⟨_, _, rfl, notFinish, rfl, Scanner.rest_commit_lt settled held⟩
    next scanned absent =>
      rw [absent] at back
      rw [back]
      exact ih
    next scanned unclosed =>
      rw [unclosed] at back hcount
      refine Or.inr ?_
      simp only at back hcount ⊢
      rw [back, hcount, Scanner.committed_advance]

end Lexeme

end Definiens
