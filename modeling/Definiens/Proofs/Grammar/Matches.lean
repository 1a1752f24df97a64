import Definiens.Proofs.Grammar.Equations
import Definiens.Proofs.Grammar.Written

/-!
# What each rule matches

For each rule, what it matches in terms of the rules that it mentions and the tokens between them;
and for the alternatives of a formula, a first token on which each of them gives up at once.
-/

namespace Definiens

namespace Rule

variable {items : List Item} {start stop : Nat}

/-! ## Definitions and formulas -/

theorem matched_definition {d : Definition} :
    (definition.read items start).outcome = .matched (d, stop) ↔
      ∃ opening closing middle, items[start]? = some (.token d.token) ∧ d.token.kind = .define ∧
        items[start + 1]? = some (.token d.name.token) ∧ d.name.token.kind = .type ∧
        items[start + 2]? = some (.token opening) ∧ opening.kind = .leftBrace ∧
        (formula.read items (start + 3)).outcome = .matched (d.body, middle) ∧
        items[middle]? = some (.token closing) ∧ closing.kind = .rightBrace ∧
        stop = middle + 1 := by
  simp only [read_definition, Reader.definition, Reader.matched_bind, Reader.matched_expect]
  constructor
  · rintro ⟨token, _, ⟨htoken, keyword, rfl⟩, name, _, ⟨hname, type, rfl⟩, opening, _,
      ⟨hopening, opens, rfl⟩, body, middle, hbody, closing, _, ⟨hclosing, closes, rfl⟩, made⟩
    cases made
    exact ⟨opening, closing, middle, htoken, keyword, hname, type, hopening, opens, hbody, hclosing,
      closes, rfl⟩
  · rintro ⟨opening, closing, middle, htoken, keyword, hname, type, hopening, opens, hbody,
      hclosing, closes, rfl⟩
    exact ⟨_, _, ⟨htoken, keyword, rfl⟩, _, _, ⟨hname, type, rfl⟩, opening, _,
      ⟨hopening, opens, rfl⟩, _, middle, hbody, closing, _, ⟨hclosing, closes, rfl⟩, rfl⟩

theorem matched_parenthesized {f : Formula} :
    (parenthesized.read items start).outcome = .matched (f, stop) ↔
      ∃ opening closing middle, items[start]? = some (.token opening) ∧ opening.kind = .leftParen ∧
        (formula.read items (start + 1)).outcome = .matched (f, middle) ∧
        items[middle]? = some (.token closing) ∧ closing.kind = .rightParen ∧
        stop = middle + 1 := by
  simp only [read_parenthesized, Reader.parenthesized, Reader.matched_bind, Reader.matched_expect]
  constructor
  · rintro ⟨opening, _, ⟨hopening, opens, rfl⟩, inner, middle, hinner, closing, _,
      ⟨hclosing, closes, rfl⟩, made⟩
    cases made
    exact ⟨opening, closing, middle, hopening, opens, hinner, hclosing, closes, rfl⟩
  · rintro ⟨opening, closing, middle, hopening, opens, hinner, hclosing, closes, rfl⟩
    exact ⟨opening, _, ⟨hopening, opens, rfl⟩, f, middle, hinner, closing, _,
      ⟨hclosing, closes, rfl⟩, rfl⟩

theorem matched_var {v : Variable} :
    (var.read items start).outcome = .matched (v, stop) ↔
      items[start]? = some (.token v.token) ∧ v.token.kind = .symbol ∧ stop = start + 1 := by
  simp only [read_var, Reader.var, Reader.matched_bind, Reader.matched_expect]
  constructor
  · rintro ⟨token, _, ⟨htoken, symbol, rfl⟩, made⟩
    cases made
    exact ⟨htoken, symbol, rfl⟩
  · rintro ⟨htoken, symbol, rfl⟩
    exact ⟨v.token, _, ⟨htoken, symbol, rfl⟩, rfl⟩

theorem matched_quantifier {f : Formula} :
    (quantifier.read items start).outcome = .matched (f, stop) ↔
      ∃ token kind bound body, f = .quantifier token kind bound body ∧
        items[start]? = some (.token token) ∧ token.kind = kind.kind ∧
        items[start + 1]? = some (.token bound.token) ∧ bound.token.kind = .symbol ∧
        (formula.read items (start + 2)).outcome = .matched (body, stop) := by
  simp only [read_quantifier, Reader.quantifier, Reader.matched_bind, Reader.matched_nextToken,
    Reader.matched_ofOption, Quantifier.ofKind?_eq_some]
  constructor
  · rintro ⟨token, _, ⟨htoken, rfl⟩, kind, _, ⟨keyword, rfl⟩, bound, middle, hvar, body, _, hbody,
      made⟩
    obtain ⟨hbound, symbol, rfl⟩ := matched_var.mp hvar
    cases made
    exact ⟨token, kind, bound, body, rfl, htoken, keyword, hbound, symbol, hbody⟩
  · rintro ⟨token, kind, bound, body, rfl, htoken, keyword, hbound, symbol, hbody⟩
    exact ⟨token, _, ⟨htoken, rfl⟩, kind, _, ⟨keyword, rfl⟩, bound, _,
      matched_var.mpr ⟨hbound, symbol, rfl⟩, body, _, hbody, rfl⟩

theorem matched_negation {f : Formula} :
    (negation.read items start).outcome = .matched (f, stop) ↔
      ∃ token inner, f = .negation token inner ∧ items[start]? = some (.token token) ∧
        token.kind = .bang ∧ (formula.read items (start + 1)).outcome = .matched (inner, stop) := by
  simp only [read_negation, Reader.negation, Reader.matched_bind, Reader.matched_expect]
  constructor
  · rintro ⟨token, _, ⟨htoken, bang, rfl⟩, inner, _, hinner, made⟩
    cases made
    exact ⟨token, inner, rfl, htoken, bang, hinner⟩
  · rintro ⟨token, inner, rfl, htoken, bang, hinner⟩
    exact ⟨token, _, ⟨htoken, bang, rfl⟩, inner, _, hinner, rfl⟩

theorem matched_equality {f : Formula} :
    (equality.read items start).outcome = .matched (f, stop) ↔
      ∃ token lhs rhs middle, f = .equal token lhs rhs ∧
        (term.read items start).outcome = .matched (lhs, middle) ∧
        items[middle]? = some (.token token) ∧ token.kind = .equals ∧
        (term.read items (middle + 1)).outcome = .matched (rhs, stop) := by
  simp only [read_equality, Reader.equality, Reader.matched_bind, Reader.matched_expect]
  constructor
  · rintro ⟨lhs, middle, hlhs, token, _, ⟨htoken, equals, rfl⟩, rhs, _, hrhs, made⟩
    cases made
    exact ⟨token, lhs, rhs, middle, rfl, hlhs, htoken, equals, hrhs⟩
  · rintro ⟨token, lhs, rhs, middle, rfl, hlhs, htoken, equals, hrhs⟩
    exact ⟨lhs, middle, hlhs, token, _, ⟨htoken, equals, rfl⟩, rhs, _, hrhs, rfl⟩

theorem matched_arguments {args : List Term} :
    (Reader.arguments termList.read items start).outcome = .matched (args, stop) ↔
      ∃ opening closing middle, items[start]? = some (.token opening) ∧ opening.kind = .leftParen ∧
        (termList.read items (start + 1)).outcome = .matched (args, middle) ∧
        items[middle]? = some (.token closing) ∧ closing.kind = .rightParen ∧
        stop = middle + 1 := by
  simp only [Reader.arguments, Reader.matched_bind, Reader.matched_expect]
  constructor
  · rintro ⟨opening, _, ⟨hopening, opens, rfl⟩, args, middle, hargs, closing, _,
      ⟨hclosing, closes, rfl⟩, made⟩
    cases made
    exact ⟨opening, closing, middle, hopening, opens, hargs, hclosing, closes, rfl⟩
  · rintro ⟨opening, closing, middle, hopening, opens, hargs, hclosing, closes, rfl⟩
    exact ⟨opening, _, ⟨hopening, opens, rfl⟩, args, middle, hargs, closing, _,
      ⟨hclosing, closes, rfl⟩, rfl⟩

theorem matched_predicate {f : Formula} :
    (predicate.read items start).outcome = .matched (f, stop) ↔
      ∃ name args, f = .predicate name args ∧ items[start]? = some (.token name.token) ∧
        name.Proper ∧
        (Reader.arguments termList.read items (start + 1)).outcome = .matched (args, stop) := by
  simp only [read_predicate, Reader.predicate, Reader.matched_bind, Reader.matched_nextToken,
    Reader.matched_ofOption, PredicateName.ofToken?_eq_some]
  constructor
  · rintro ⟨token, _, ⟨htoken, rfl⟩, name, _, ⟨⟨rfl, proper⟩, rfl⟩, args, _, hargs, made⟩
    cases made
    exact ⟨name, args, rfl, htoken, proper, hargs⟩
  · rintro ⟨name, args, rfl, htoken, proper, hargs⟩
    exact ⟨name.token, _, ⟨htoken, rfl⟩, name, _, ⟨⟨rfl, proper⟩, rfl⟩, args, _, hargs, rfl⟩

theorem matched_connectiveAfter {left f : Formula} :
    (connectiveAfter left items start).outcome = .matched (f, stop) ↔
      ∃ token op right, f = .connective token op left right ∧ items[start]? = some (.token token) ∧
        token.kind = op.kind ∧
        (formula.read items (start + 1)).outcome = .matched (right, stop) := by
  simp only [connectiveAfter, Reader.matched_bind, Reader.matched_nextToken,
    Reader.matched_ofOption, Connective.ofKind?_eq_some]
  constructor
  · rintro ⟨token, _, ⟨htoken, rfl⟩, op, _, ⟨operator, rfl⟩, right, _, hright, made⟩
    cases made
    exact ⟨token, op, right, rfl, htoken, operator, hright⟩
  · rintro ⟨token, op, right, rfl, htoken, operator, hright⟩
    exact ⟨token, _, ⟨htoken, rfl⟩, op, _, ⟨operator, rfl⟩, right, _, hright, rfl⟩

theorem noMatch_connectiveAfter {left : Formula} :
    (connectiveAfter left items start).outcome = .noMatch ↔
      ∀ item, items[start]? = some item → ∃ token, item = .token token ∧
        ∀ op : Connective, token.kind = op.kind →
          (formula.read items (start + 1)).outcome = .noMatch := by
  simp only [connectiveAfter, Reader.noMatch_bind, Reader.matched_nextToken,
    Reader.noMatch_nextToken]
  constructor
  · rintro (ended | ⟨token, _, ⟨htoken, rfl⟩, behind⟩) item hitem
    · rw [ended] at hitem
      cases hitem
    · rw [htoken] at hitem
      cases hitem
      refine ⟨token, rfl, fun op operator => ?_⟩
      rw [Connective.ofKind?_eq_some.mpr operator, Reader.ofOption_some] at behind
      rcases behind with impossible | ⟨_, _, made, noFormula | ⟨right, stop, -, impossible⟩⟩
      · cases impossible
      · cases made
        exact noFormula
      · cases impossible
  · intro behind
    cases hitem : items[start]? with
    | none => exact Or.inl rfl
    | some item =>
      obtain ⟨token, rfl, noFormula⟩ := behind item hitem
      refine Or.inr ⟨token, _, ⟨rfl, rfl⟩, ?_⟩
      cases hop : Connective.ofKind? token.kind with
      | none => exact Or.inl rfl
      | some op =>
        have operator := Connective.ofKind?_eq_some.mp hop
        exact Or.inr ⟨op, _, rfl, Or.inl (noFormula op operator)⟩

theorem matched_formula {f : Formula} :
    (formula.read items start).outcome = .matched (f, stop) ↔
      ∃ left middle, (binaryLhs.read items start).outcome = .matched (left, middle) ∧
        ((connectiveAfter left items middle).outcome = .matched (f, stop) ∨
          (connectiveAfter left items middle).outcome = .noMatch ∧ f = left ∧ stop = middle) := by
  simp only [read_formula, Reader.matched_bind, Reader.matched_orElse]
  refine exists_congr fun left => exists_congr fun middle => and_congr Iff.rfl ?_
  refine or_congr Iff.rfl (and_congr Iff.rfl ?_)
  constructor
  · intro made
    cases made
    exact ⟨rfl, rfl⟩
  · rintro ⟨rfl, rfl⟩
    rfl

/-! ## Terms -/

theorem matched_function {t : Term} :
    (function.read items start).outcome = .matched (t, stop) ↔
      ∃ token args, t = .function token args ∧ items[start]? = some (.token token) ∧
        token.kind = .symbol ∧
        (Reader.arguments termList.read items (start + 1)).outcome = .matched (args, stop) := by
  simp only [read_function, Reader.function, Reader.matched_bind, Reader.matched_expect]
  constructor
  · rintro ⟨token, _, ⟨htoken, symbol, rfl⟩, args, _, hargs, made⟩
    cases made
    exact ⟨token, args, rfl, htoken, symbol, hargs⟩
  · rintro ⟨token, args, rfl, htoken, symbol, hargs⟩
    exact ⟨token, _, ⟨htoken, symbol, rfl⟩, args, _, hargs, rfl⟩

theorem matched_term {t : Term} :
    (term.read items start).outcome = .matched (t, stop) ↔
      (function.read items start).outcome = .matched (t, stop) ∨
        (function.read items start).outcome = .noMatch ∧
          ∃ token, t = .var ⟨token⟩ ∧ items[start]? = some (.token token) ∧
            token.kind = .symbol ∧ stop = start + 1 := by
  rw [read_term, Reader.term, Reader.matched_orElse, Reader.matched_bind]
  refine or_congr Iff.rfl (and_congr Iff.rfl ?_)
  constructor
  · rintro ⟨v, middle, hvar, made⟩
    obtain ⟨htoken, symbol, rfl⟩ := matched_var.mp hvar
    cases made
    exact ⟨v.token, rfl, htoken, symbol, rfl⟩
  · rintro ⟨token, rfl, htoken, symbol, rfl⟩
    exact ⟨⟨token⟩, _, matched_var.mpr ⟨htoken, symbol, rfl⟩, rfl⟩

theorem matched_termList_nil :
    (termList.read items start).outcome = .matched ([], stop) ↔
      (term.read items start).outcome = .noMatch ∧ stop = start := by
  rw [read_termList, Reader.matched_bind]
  constructor
  · rintro ⟨first?, middle, hfirst, hothers⟩
    cases first? with
    | none =>
      cases hothers
      exact Reader.matched_optional_none.mp hfirst
    | some first =>
      obtain ⟨others, _, -, made⟩ := Reader.matched_bind.mp hothers
      cases made
  · rintro ⟨absent, rfl⟩
    exact ⟨none, stop, Reader.matched_optional_none.mpr ⟨absent, rfl⟩, rfl⟩

theorem matched_termList_cons {t : Term} {ts : List Term} :
    (termList.read items start).outcome = .matched (t :: ts, stop) ↔
      (someTerms items start).outcome = .matched (t :: ts, stop) := by
  rw [read_termList, someTerms, Reader.matched_bind, Reader.matched_bind]
  constructor
  · rintro ⟨first?, middle, hfirst, hothers⟩
    cases first? with
    | none => cases hothers
    | some first => exact ⟨first, middle, Reader.matched_optional_some.mp hfirst, hothers⟩
  · rintro ⟨first, middle, hfirst, hothers⟩
    exact ⟨some first, middle, Reader.matched_optional_some.mpr hfirst, hothers⟩

theorem matched_someTerms {terms : List Term} :
    (someTerms items start).outcome = .matched (terms, stop) ↔
      ∃ first others middle, terms = first :: others ∧
        (term.read items start).outcome = .matched (first, middle) ∧
        (furtherTerms items middle).outcome = .matched (others, stop) := by
  rw [someTerms, Reader.matched_bind]
  constructor
  · rintro ⟨first, middle, hfirst, hothers⟩
    obtain ⟨others, _, hothers, made⟩ := Reader.matched_bind.mp hothers
    cases made
    exact ⟨first, others, middle, rfl, hfirst, hothers⟩
  · rintro ⟨first, others, middle, rfl, hfirst, hothers⟩
    exact ⟨first, middle, hfirst, Reader.matched_bind.mpr ⟨others, stop, hothers, rfl⟩⟩

theorem matched_furtherTerms {terms : List Term} :
    (furtherTerms items start).outcome = .matched (terms, stop) ↔
      (∃ token, items[start]? = some (.token token) ∧ token.kind = .comma ∧
        (someTerms items (start + 1)).outcome = .matched (terms, stop)) ∨
      (Reader.expect .comma items start).outcome = .noMatch ∧ terms = [] ∧ stop = start := by
  rw [furtherTerms_eq, Reader.matched_ifNext]
  refine or_congr Iff.rfl (and_congr Iff.rfl ?_)
  rw [Reader.outcome_pure, Outcome.matched.injEq, Prod.mk.injEq]
  exact and_congr eq_comm eq_comm

/-! ## First tokens -/

section

variable {token : Token} (here : items[start]? = some (.token token))
include here

theorem noMatch_expect_of_kind {kind : Kind} (other : token.kind ≠ kind) :
    (Reader.expect kind items start).outcome = .noMatch := by
  rw [Reader.noMatch_expect, here]
  rintro item ⟨rfl⟩
  exact ⟨token, rfl, other⟩

theorem noMatch_parenthesized (other : token.kind ≠ .leftParen) :
    (parenthesized.read items start).outcome = .noMatch := by
  rw [read_parenthesized]
  exact Reader.noMatch_bind.mpr (Or.inl (noMatch_expect_of_kind here other))

theorem noMatch_quantifier (other : Quantifier.ofKind? token.kind = none) :
    (quantifier.read items start).outcome = .noMatch := by
  rw [read_quantifier]
  refine Reader.noMatch_bind.mpr (Or.inr ⟨token, _, Reader.matched_nextToken.mpr ⟨here, rfl⟩, ?_⟩)
  rw [other]
  exact Reader.noMatch_bind.mpr (Or.inl rfl)

theorem noMatch_negation (other : token.kind ≠ .bang) :
    (negation.read items start).outcome = .noMatch := by
  rw [read_negation]
  exact Reader.noMatch_bind.mpr (Or.inl (noMatch_expect_of_kind here other))

theorem noMatch_function (other : token.kind ≠ .symbol) :
    (function.read items start).outcome = .noMatch := by
  rw [read_function]
  exact Reader.noMatch_bind.mpr (Or.inl (noMatch_expect_of_kind here other))

theorem noMatch_term (other : token.kind ≠ .symbol) :
    (term.read items start).outcome = .noMatch := by
  rw [read_term, read_var]
  refine Reader.noMatch_orElse.mpr ⟨noMatch_function here other, ?_⟩
  exact Reader.noMatch_bind.mpr (Or.inl
    (Reader.noMatch_bind.mpr (Or.inl (noMatch_expect_of_kind here other))))

theorem noMatch_equality (other : token.kind ≠ .symbol) :
    (equality.read items start).outcome = .noMatch := by
  rw [read_equality]
  exact Reader.noMatch_bind.mpr (Or.inl (noMatch_term here other))

end

theorem kind_of_matched_term {result : Term × Nat}
    (read : (term.read items start).outcome = .matched result) :
    ∃ token, items[start]? = some (.token token) ∧ token.kind = .symbol := by
  rcases matched_term.mp read with function | ⟨-, token, -, here, symbol, -⟩
  · obtain ⟨token, -, -, here, symbol, -⟩ := matched_function.mp function
    exact ⟨token, here, symbol⟩
  · exact ⟨token, here, symbol⟩

/-- The alternatives to a connective exclude each other by their first token, but for an equality and a
predicate: both can begin with a symbol, and the equality comes first. -/
theorem matched_binaryLhs {result : Formula × Nat} :
    (binaryLhs.read items start).outcome = .matched result ↔
      (parenthesized.read items start).outcome = .matched result ∨
      (quantifier.read items start).outcome = .matched result ∨
      (negation.read items start).outcome = .matched result ∨
      (equality.read items start).outcome = .matched result ∨
      (equality.read items start).outcome = .noMatch ∧
        (predicate.read items start).outcome = .matched result := by
  have ordered : binaryLhs.read = parenthesized.read.orElse (quantifier.read.orElse
      (negation.read.orElse (equality.read.orElse (predicate.read.orElse .fail)))) := read_binaryLhs
  simp only [ordered, Reader.matched_orElse, Reader.outcome_fail, reduceCtorEq, and_false, or_false]
  constructor
  · rintro (read | ⟨-, read | ⟨-, read | ⟨-, read | read⟩⟩⟩)
    · exact Or.inl read
    · exact Or.inr (Or.inl read)
    · exact Or.inr (Or.inr (Or.inl read))
    · exact Or.inr (Or.inr (Or.inr (Or.inl read)))
    · exact Or.inr (Or.inr (Or.inr (Or.inr read)))
  · rintro (read | read | read | read | ⟨absent, read⟩)
    · exact Or.inl read
    · obtain ⟨token, kind, -, -, -, here, keyword, -⟩ := matched_quantifier.mp read
      have first : token.kind ≠ .leftParen := by rw [keyword]; cases kind <;> decide
      exact Or.inr ⟨noMatch_parenthesized here first, Or.inl read⟩
    · obtain ⟨token, -, -, here, bang, -⟩ := matched_negation.mp read
      exact Or.inr ⟨noMatch_parenthesized here (by simp [bang]), Or.inr
        ⟨noMatch_quantifier here (by rw [bang]; rfl), Or.inl read⟩⟩
    · obtain ⟨_, _, _, _, -, first, -⟩ := matched_equality.mp read
      obtain ⟨token, here, symbol⟩ := kind_of_matched_term first
      exact Or.inr ⟨noMatch_parenthesized here (by simp [symbol]), Or.inr
        ⟨noMatch_quantifier here (by rw [symbol]; rfl), Or.inr
          ⟨noMatch_negation here (by simp [symbol]), Or.inl read⟩⟩⟩
    · obtain ⟨name, -, -, here, proper, -⟩ := matched_predicate.mp read
      obtain ⟨noParen, noQuantifier, noBang⟩ : name.token.kind ≠ .leftParen ∧
          Quantifier.ofKind? name.token.kind = none ∧ name.token.kind ≠ .bang := by
        cases proper with
        | type type => simp [PredicateName.token, type, Quantifier.ofKind?]
        | membership symbol => simp [PredicateName.token, symbol, Quantifier.ofKind?]
      exact Or.inr ⟨noMatch_parenthesized here noParen, Or.inr
        ⟨noMatch_quantifier here noQuantifier, Or.inr
          ⟨noMatch_negation here noBang, Or.inr ⟨absent, read⟩⟩⟩⟩

end Rule

end Definiens
