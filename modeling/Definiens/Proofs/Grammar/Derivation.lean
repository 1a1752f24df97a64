import Definiens.Proofs.Grammar.Productions
import Definiens.Proofs.Grammar.Written

/-!
# What is derived is written

The grammar derives the same tokens in several ways, and not each of them has its tree: behind an open
formula a connective may be taken to the formula inside or to the whole.  The tokens are written by a
tree all the same, the one that takes it to the inside, as far in as there are no parentheses.
-/

namespace Definiens

/-- Behind what writes a formula, a connective and another formula make a formula of it all. -/
theorem Formula.Written.append {f g : Formula} {pairs pairs' : Nat} {before behind : List Token}
    (left : f.Written pairs before) {token : Token} {op : Connective}
    (operator : token.kind = op.kind) (right : g.Written pairs' behind) :
    ∃ h, Formula.Written h 0 (before ++ token :: behind) := by
  induction left with
  | equal lhs equals rhs =>
    exact ⟨_, .connective (.equal lhs equals rhs) nofun operator right⟩
  | predicate proper opens written closes =>
    exact ⟨_, .connective (.predicate proper opens written closes) nofun operator right⟩
  | negation bang written ih =>
    obtain ⟨inner, written⟩ := ih
    exact ⟨_, .negation bang written⟩
  | quantifier keyword symbol written ih =>
    obtain ⟨body, written⟩ := ih
    exact ⟨_, .quantifier keyword symbol written⟩
  | @connective token' op' lhs rhs pairs pairs' before' behind' left enclosed operator' right' _ ih =>
    obtain ⟨further, written⟩ := ih
    rw [List.append_assoc, List.cons_append]
    exact ⟨_, .connective left enclosed operator' written⟩
  | enclosed opens written closes ih =>
    exact ⟨_, .connective (.enclosed opens written closes) (fun _ => Nat.succ_pos _) operator right⟩

namespace Interpretation

/-- The tokens that write something of each category. -/
def written : Interpretation
  | .rule .definition => {tokens | ∃ d : Definition, d.Written tokens}
  | .rule .formula | .rule .binaryConnective | .rule .binaryLhs | .rule .parenthesized
  | .rule .quantifier | .rule .negation | .rule .equality | .rule .predicate =>
    {tokens | ∃ f pairs, Formula.Written f pairs tokens}
  | .rule .term | .rule .function => {tokens | ∃ t : Term, t.Written tokens}
  | .rule .var => {tokens | ∃ v : Variable, v.token.kind = .symbol ∧ tokens = [v.token]}
  | .rule .termList => {tokens | ∃ terms, Term.ListWritten terms tokens}
  | .rule .atEnd => {tokens | ∃ token : Token, token.kind = .finish ∧ tokens = [token]}
  | .operator => {tokens | ∃ (token : Token) (op : Connective),
      token.kind = op.kind ∧ tokens = [token]}
  | .keyword => {tokens | ∃ (token : Token) (kind : Quantifier),
      token.kind = kind.kind ∧ tokens = [token]}
  | .predicateName => {tokens | ∃ name : PredicateName, name.Proper ∧ tokens = [name.token]}
  | .moreTerms => {tokens | tokens = [] ∨ ∃ comma first others behind, comma.kind = .comma ∧
      Term.ListWritten (first :: others) behind ∧ tokens = comma :: behind}

theorem exists_listWritten {t : Term} {before behind : List Token} (first : t.Written before)
    (further : behind ∈ written .moreTerms) :
    ∃ others, Term.ListWritten (t :: others) (before ++ behind) := by
  rcases further with rfl | ⟨comma, next, others, tokens, separates, rest, rfl⟩
  · rw [List.append_nil]
    exact ⟨[], .single first⟩
  · exact ⟨next :: others, .cons first separates rest⟩

/-- The productions write nothing but trees. -/
theorem written_closed : written.Closed := by
  intro category symbols member tokens inside
  -- by the productions: what the symbols of a right side write is put together as the tree is
  cases category with
  | rule rule =>
    cases rule with
    | definition =>
      simp only [Category.productions, List.mem_singleton] at member
      subst member
      simp only [mem_form_terminal, mem_form_nonterminal, mem_form_nil] at inside
      obtain ⟨token, _, rfl, keyword, name, _, rfl, type, opening, _, rfl, opens, body, _, rfl,
        ⟨f, pairs, written⟩, closing, _, rfl, closes, rfl⟩ := inside
      exact ⟨_, .intro keyword type opens written closes⟩
    | formula =>
      simp only [Category.productions, List.mem_cons, List.not_mem_nil, or_false] at member
      rcases member with rfl | rfl | rfl | rfl | rfl | rfl <;>
        exact mem_form_singleton.mp inside
    | binaryConnective =>
      simp only [Category.productions, List.mem_singleton] at member
      subst member
      simp only [mem_form_nonterminal, mem_form_nil] at inside
      obtain ⟨before, _, rfl, ⟨lhs, pairs, left⟩, _, _, rfl, ⟨token, op, operator, rfl⟩, behind, _,
        rfl, ⟨rhs, pairs', right⟩, rfl⟩ := inside
      obtain ⟨f, written⟩ := left.append operator right
      rw [List.append_nil]
      exact ⟨f, 0, written⟩
    | binaryLhs =>
      simp only [Category.productions, List.mem_cons, List.not_mem_nil, or_false] at member
      rcases member with rfl | rfl | rfl | rfl | rfl <;> exact mem_form_singleton.mp inside
    | parenthesized =>
      simp only [Category.productions, List.mem_singleton] at member
      subst member
      simp only [mem_form_terminal, mem_form_nonterminal, mem_form_nil] at inside
      obtain ⟨opening, _, rfl, opens, inner, _, rfl, ⟨f, pairs, written⟩, closing, _, rfl, closes,
        rfl⟩ := inside
      exact ⟨f, _, .enclosed opens written closes⟩
    | quantifier =>
      simp only [Category.productions, List.mem_singleton] at member
      subst member
      simp only [mem_form_nonterminal, mem_form_nil] at inside
      obtain ⟨_, _, rfl, ⟨token, kind, keyword, rfl⟩, _, _, rfl, ⟨bound, symbol, rfl⟩, body, _, rfl,
        ⟨f, pairs, written⟩, rfl⟩ := inside
      rw [List.append_nil]
      exact ⟨_, _, .quantifier keyword symbol written⟩
    | negation =>
      simp only [Category.productions, List.mem_singleton] at member
      subst member
      simp only [mem_form_terminal, mem_form_nonterminal, mem_form_nil] at inside
      obtain ⟨token, _, rfl, bang, inner, _, rfl, ⟨f, pairs, written⟩, rfl⟩ := inside
      rw [List.append_nil]
      exact ⟨_, _, .negation bang written⟩
    | equality =>
      simp only [Category.productions, List.mem_singleton] at member
      subst member
      simp only [mem_form_terminal, mem_form_nonterminal, mem_form_nil] at inside
      obtain ⟨before, _, rfl, ⟨lhs, left⟩, token, _, rfl, equals, behind, _, rfl, ⟨rhs, right⟩,
        rfl⟩ := inside
      rw [List.append_nil]
      exact ⟨_, _, .equal left equals right⟩
    | predicate =>
      simp only [Category.productions, List.mem_singleton] at member
      subst member
      simp only [mem_form_terminal, mem_form_nonterminal, mem_form_nil] at inside
      obtain ⟨_, _, rfl, ⟨name, proper, rfl⟩, opening, _, rfl, opens, between, _, rfl,
        ⟨args, written⟩, closing, _, rfl, closes, rfl⟩ := inside
      exact ⟨_, _, .predicate proper opens written closes⟩
    | term =>
      simp only [Category.productions, List.mem_cons, List.not_mem_nil, or_false] at member
      rcases member with rfl | rfl
      · exact mem_form_singleton.mp inside
      · obtain ⟨v, symbol, rfl⟩ := mem_form_singleton.mp inside
        exact ⟨.var v, .var symbol⟩
    | function =>
      simp only [Category.productions, List.mem_singleton] at member
      subst member
      simp only [mem_form_terminal, mem_form_nonterminal, mem_form_nil] at inside
      obtain ⟨token, _, rfl, symbol, opening, _, rfl, opens, between, _, rfl, ⟨args, written⟩,
        closing, _, rfl, closes, rfl⟩ := inside
      exact ⟨_, .function symbol opens written closes⟩
    | var =>
      simp only [Category.productions, List.mem_singleton] at member
      subst member
      simp only [mem_form_terminal, mem_form_nil] at inside
      obtain ⟨token, _, rfl, symbol, rfl⟩ := inside
      exact ⟨⟨token⟩, symbol, rfl⟩
    | termList =>
      simp only [Category.productions, List.mem_cons, List.not_mem_nil, or_false] at member
      rcases member with rfl | rfl
      · cases mem_form_nil.mp inside
        exact ⟨[], .nil⟩
      · simp only [mem_form_nonterminal, mem_form_nil] at inside
        obtain ⟨before, _, rfl, ⟨t, first⟩, behind, _, rfl, further, rfl⟩ := inside
        obtain ⟨others, written⟩ := exists_listWritten first further
        rw [List.append_nil]
        exact ⟨_, written⟩
    | atEnd =>
      simp only [Category.productions, List.mem_singleton] at member
      subst member
      simp only [mem_form_terminal, mem_form_nil] at inside
      obtain ⟨token, _, rfl, finish, rfl⟩ := inside
      exact ⟨token, finish, rfl⟩
  | operator =>
    simp only [Category.productions, List.mem_cons, List.not_mem_nil, or_false] at member
    rcases member with rfl | rfl | rfl | rfl <;>
      simp only [mem_form_terminal, mem_form_nil] at inside <;>
      obtain ⟨token, _, rfl, operator, rfl⟩ := inside
    · exact ⟨token, .and, operator, rfl⟩
    · exact ⟨token, .or, operator, rfl⟩
    · exact ⟨token, .implies, operator, rfl⟩
    · exact ⟨token, .iff, operator, rfl⟩
  | keyword =>
    simp only [Category.productions, List.mem_cons, List.not_mem_nil, or_false] at member
    rcases member with rfl | rfl <;>
      simp only [mem_form_terminal, mem_form_nil] at inside <;>
      obtain ⟨token, _, rfl, keyword, rfl⟩ := inside
    · exact ⟨token, .universal, keyword, rfl⟩
    · exact ⟨token, .existential, keyword, rfl⟩
  | predicateName =>
    simp only [Category.productions, List.mem_cons, List.not_mem_nil, or_false] at member
    rcases member with rfl | rfl <;> simp only [mem_form_terminal, mem_form_nil] at inside
    · obtain ⟨token, _, rfl, type, rfl⟩ := inside
      exact ⟨.type ⟨token⟩, .type type, rfl⟩
    · obtain ⟨token, _, rfl, ⟨symbol, spelled⟩, rfl⟩ := inside
      exact ⟨.membership ⟨token⟩, .membership symbol spelled, rfl⟩
  | moreTerms =>
    simp only [Category.productions, List.mem_cons, List.not_mem_nil, or_false] at member
    rcases member with rfl | rfl
    · exact Or.inl (mem_form_nil.mp inside)
    · simp only [mem_form_terminal, mem_form_nonterminal, mem_form_nil] at inside
      obtain ⟨comma, _, rfl, separates, before, _, rfl, ⟨t, first⟩, behind, _, rfl, further, rfl⟩ :=
        inside
      obtain ⟨others, written⟩ := exists_listWritten first further
      rw [List.append_nil]
      exact Or.inr ⟨comma, t, others, _, separates, written, rfl⟩

end Interpretation

theorem Derivable.written {tokens : List Token} (derivable : Derivable tokens) :
    ∃ d : Definition, d.Written tokens :=
  Interpretation.written_closed.mem_of_derived (derivable_iff.mp derivable)

end Definiens
