import Definiens.Proofs.Grammar.Matches

/-!
# What is read is written

The tokens that a rule passes over write the tree that it gives.  For the left side of a connective
this rests on formulas being read as far as they go: behind an open formula there is never a
connective with a formula after it, for then the formula would have gone on.
-/

namespace Definiens

open Rule

variable {items : List Item} {start stop : Nat}

/-! ## Terms -/

theorem spans_of_matched_arguments {args : List Term}
    (lists : ∀ terms middle, (someTerms items (start + 1)).outcome = .matched (terms, middle) →
      Spans items (start + 1) middle (Term.ListWritten terms))
    (read : (Reader.arguments termList.read items start).outcome = .matched (args, stop)) :
    ∃ opening closing inside, opening.kind = .leftParen ∧ Term.ListWritten args inside ∧
      closing.kind = .rightParen ∧ Between items start stop (opening :: (inside ++ [closing])) := by
  obtain ⟨opening, closing, middle, hopening, opens, hargs, hclosing, closes, rfl⟩ :=
    matched_arguments.mp read
  have spans : Spans items (start + 1) middle (Term.ListWritten args) := by
    cases args with
    | nil =>
      obtain ⟨-, rfl⟩ := matched_termList_nil.mp hargs
      exact ⟨[], .nil, .nil⟩
    | cons t ts => exact lists _ _ (matched_termList_cons.mp hargs)
  obtain ⟨inside, hinside, written⟩ := spans
  exact ⟨opening, closing, inside, opens, written, closes,
    .cons hopening (hinside.append (.single hclosing))⟩

theorem spans_of_matched_terms (items : List Item) (start : Nat) :
    (∀ t stop, (term.read items start).outcome = .matched (t, stop) →
      Spans items start stop t.Written) ∧
    (∀ ts stop, (someTerms items start).outcome = .matched (ts, stop) →
      Spans items start stop (Term.ListWritten ts)) := by
  -- arguments and further terms stand behind at least one token
  generalize hahead : items.length - start = ahead
  induction ahead using Nat.strongRecOn generalizing start with
  | ind ahead ih =>
    have terms : ∀ t stop, (term.read items start).outcome = .matched (t, stop) →
        Spans items start stop t.Written := by
      intro t stop read
      rcases matched_term.mp read with function | ⟨-, token, rfl, here, symbol, rfl⟩
      · obtain ⟨token, args, rfl, here, symbol, hargs⟩ := matched_function.mp function
        obtain ⟨inside, -⟩ := List.getElem?_eq_some_iff.mp here
        have lists := (ih (items.length - (start + 1 + 1)) (by omega) (start + 1 + 1) rfl).2
        obtain ⟨opening, closing, between, opens, written, closes, stands⟩ :=
          spans_of_matched_arguments lists hargs
        exact ⟨_, .cons here stands, .function symbol opens written closes⟩
      · exact ⟨[token], .single here, .var symbol⟩
    refine ⟨terms, ?_⟩
    intro ts stop read
    obtain ⟨first, others, middle, rfl, hfirst, hothers⟩ := matched_someTerms.mp read
    obtain ⟨before, hbefore, written⟩ := terms _ _ hfirst
    rcases matched_furtherTerms.mp hothers with ⟨comma, hcomma, separates, hrest⟩ | ⟨-, rfl, rfl⟩
    · obtain ⟨inside, -⟩ := List.getElem?_eq_some_iff.mp hcomma
      have forward := hbefore.start_le
      have rest := (ih (items.length - (middle + 1)) (by omega) _ rfl).2 _ _ hrest
      obtain ⟨behind, hbehind, written'⟩ := rest
      obtain ⟨next, others, _, rfl, -⟩ := matched_someTerms.mp hrest
      exact ⟨_, hbefore.append (.cons hcomma hbehind), .cons written separates written'⟩
    · exact ⟨before, hbefore, .single written⟩

/-! ## Formulas -/

/-- A formula is read as far as it goes: behind it there is no connective with a formula after it. -/
theorem noMatch_behind_formula {f : Formula} {token : Token} {op : Connective}
    (read : (formula.read items start).outcome = .matched (f, stop))
    (here : items[stop]? = some (.token token)) (operator : token.kind = op.kind) :
    (formula.read items (stop + 1)).outcome = .noMatch := by
  generalize hahead : items.length - start = ahead
  induction ahead using Nat.strongRecOn generalizing start f with
  | ind ahead ih =>
    obtain ⟨left, middle, hleft, further | ⟨ended, rfl, rfl⟩⟩ := matched_formula.mp read
    · obtain ⟨token', op', right, rfl, hmiddle, -, hright⟩ := matched_connectiveAfter.mp further
      obtain ⟨inside, -⟩ := List.getElem?_eq_some_iff.mp hmiddle
      obtain ⟨forward, -⟩ := (steady_read .binaryLhs).matched hleft
      exact ih (items.length - (middle + 1)) (by omega) hright rfl
    · obtain ⟨token', same, noFormula⟩ := noMatch_connectiveAfter.mp ended _ here
      cases same
      exact noFormula op operator

/-- The tokens of a left side write it if those of the formulas inside do, and either it stands in
parentheses where it has to or it ends as another formula does. -/
theorem spans_of_matched_binaryLhs {f : Formula}
    (inner : ∀ {place stop f}, start < place → place ≤ items.length →
      (formula.read items place).outcome = .matched (f, stop) →
      Spans items place stop fun tokens => ∃ pairs, f.Written pairs tokens)
    (read : (binaryLhs.read items start).outcome = .matched (f, stop)) :
    Spans items start stop fun tokens => ∃ pairs, f.Written pairs tokens ∧
      ((f.IsOpen → 0 < pairs) ∨
        ∃ place body, (formula.read items place).outcome = .matched (body, stop)) := by
  rcases matched_binaryLhs.mp read with read | read | read | read | ⟨-, read⟩
  · obtain ⟨opening, closing, last, hopening, opens, hinner, hclosing, closes, rfl⟩ :=
      matched_parenthesized.mp read
    obtain ⟨inside, -⟩ := List.getElem?_eq_some_iff.mp hopening
    obtain ⟨tokens, stands, pairs, written⟩ := inner (Nat.lt_succ_self _) inside hinner
    exact ⟨_, .cons hopening (stands.append (.single hclosing)), pairs + 1,
      .enclosed opens written closes, Or.inl fun _ => Nat.succ_pos pairs⟩
  · obtain ⟨token, kind, bound, body, rfl, here, keyword, hbound, symbol, hbody⟩ :=
      matched_quantifier.mp read
    obtain ⟨inside, -⟩ := List.getElem?_eq_some_iff.mp hbound
    obtain ⟨tokens, stands, pairs, written⟩ := inner (by omega) inside hbody
    exact ⟨_, .cons here (.cons hbound stands), 0, .quantifier keyword symbol written,
      Or.inr ⟨_, _, hbody⟩⟩
  · obtain ⟨token, f, rfl, here, bang, hinner⟩ := matched_negation.mp read
    obtain ⟨inside, -⟩ := List.getElem?_eq_some_iff.mp here
    obtain ⟨tokens, stands, pairs, written⟩ := inner (Nat.lt_succ_self _) inside hinner
    exact ⟨_, .cons here stands, 0, .negation bang written, Or.inr ⟨_, _, hinner⟩⟩
  · obtain ⟨token, lhs, rhs, last, rfl, hlhs, here, equals, hrhs⟩ := matched_equality.mp read
    obtain ⟨before, hbefore, written⟩ := (spans_of_matched_terms items _).1 _ _ hlhs
    obtain ⟨behind, hbehind, written'⟩ := (spans_of_matched_terms items _).1 _ _ hrhs
    exact ⟨_, hbefore.append (.cons here hbehind), 0, .equal written equals written', Or.inl nofun⟩
  · obtain ⟨name, args, rfl, here, proper, hargs⟩ := matched_predicate.mp read
    obtain ⟨opening, closing, between, opens, written, closes, stands⟩ :=
      spans_of_matched_arguments (spans_of_matched_terms items _).2 hargs
    exact ⟨_, .cons here stands, 0, .predicate proper opens written closes, Or.inl nofun⟩

theorem spans_of_matched_formula {f : Formula}
    (read : (formula.read items start).outcome = .matched (f, stop)) :
    Spans items start stop fun tokens => ∃ pairs, f.Written pairs tokens := by
  generalize hahead : items.length - start = ahead
  induction ahead using Nat.strongRecOn generalizing start stop f with
  | ind ahead ih =>
    obtain ⟨left, middle, hleft, hfurther⟩ := matched_formula.mp read
    have inner {place stop f} (behind : start < place) (inside : place ≤ items.length)
        (read : (formula.read items place).outcome = .matched (f, stop)) :
        Spans items place stop fun tokens => ∃ pairs, f.Written pairs tokens :=
      ih (items.length - place) (by omega) read rfl
    obtain ⟨before, hbefore, pairs, written, enclosed⟩ :=
      spans_of_matched_binaryLhs inner hleft
    have forward := hbefore.start_le
    rcases hfurther with further | ⟨-, rfl, rfl⟩
    · obtain ⟨token, op, right, rfl, here, operator, hright⟩ := matched_connectiveAfter.mp further
      obtain ⟨inside, -⟩ := List.getElem?_eq_some_iff.mp here
      obtain ⟨behind, hbehind, pairs', written'⟩ := inner (by omega) inside hright
      rcases enclosed with enclosed | ⟨place, body, hbody⟩
      · exact ⟨_, hbefore.append (.cons here hbehind), 0,
          .connective written enclosed operator written'⟩
      · -- the left side went on as far as it could, and so there is no right side
        rw [noMatch_behind_formula hbody here operator] at hright
        cases hright
    · exact ⟨before, hbefore, pairs, written⟩

theorem spans_of_matched_definition {d : Definition}
    (read : (definition.read items start).outcome = .matched (d, stop)) :
    Spans items start stop d.Written := by
  obtain ⟨opening, closing, middle, here, keyword, hname, type, hopening, opens, hbody, hclosing,
    closes, rfl⟩ := matched_definition.mp read
  obtain ⟨inside, hinside, pairs, written⟩ := spans_of_matched_formula hbody
  exact ⟨_, .cons here (.cons hname (.cons hopening (hinside.append (.single hclosing)))),
    .intro keyword type opens written closes⟩

end Definiens
