import Definiens.Grammar.Rule
import Mathlib.Computability.ContextFreeGrammar

/-!
# The rules as a context-free grammar

Read without order and without commitment, the rules are a context-free grammar.  Its terminals are the
kinds of token, and `in`, which is a symbol as well; its nonterminals are the rules and the groups of
alternatives inside them, the repetition in a list of terms among these.  A list of tokens is derivable
if they fit the terminals of a word that the grammar generates.
-/

namespace Definiens

/-- What stands at the ends of a derivation: a kind of token, or the symbol for membership. -/
inductive Terminal where
  | kind (kind : Kind)
  | membership
  deriving DecidableEq, Repr

/-- Whether a token can stand for a terminal; a token that spells `in` is a symbol too. -/
def Terminal.Fits : Terminal → Token → Prop
  | .kind known, token => token.kind = known
  | .membership, token => token.kind = .symbol ∧ token.text = PredicateName.membershipSymbol

/-- What a production rewrites: a rule, or a group inside a rule. -/
inductive Category where
  | rule (rule : Rule)
  | operator
  | keyword
  | predicateName
  | moreTerms
  deriving DecidableEq, Repr

namespace Category

def all : List Category := [.operator, .keyword, .predicateName, .moreTerms] ++ Rule.all.map .rule

theorem mem_all (category : Category) : category ∈ all := by
  cases category with
  | rule rule => exact List.mem_append_right _ (List.mem_map_of_mem rule.mem_all)
  | operator => decide
  | keyword => decide
  | predicateName => decide
  | moreTerms => decide

abbrev Form : Type := List (Symbol Terminal Category)

abbrev token (kind : Kind) : Symbol Terminal Category := .terminal (.kind kind)

abbrev part (rule : Rule) : Symbol Terminal Category := .nonterminal (.rule rule)

def productions : Category → List Form
  | .rule .definition =>
    [[token .define, token .type, token .leftBrace, part .formula, token .rightBrace]]
  | .rule .formula =>
    [[part .binaryConnective], [part .parenthesized], [part .quantifier], [part .negation],
     [part .equality], [part .predicate]]
  | .rule .binaryConnective => [[part .binaryLhs, .nonterminal .operator, part .formula]]
  | .rule .binaryLhs =>
    [[part .parenthesized], [part .quantifier], [part .negation], [part .equality],
     [part .predicate]]
  | .rule .parenthesized => [[token .leftParen, part .formula, token .rightParen]]
  | .rule .quantifier => [[.nonterminal .keyword, part .var, part .formula]]
  | .rule .negation => [[token .bang, part .formula]]
  | .rule .equality => [[part .term, token .equals, part .term]]
  | .rule .predicate =>
    [[.nonterminal .predicateName, token .leftParen, part .termList, token .rightParen]]
  | .rule .term => [[part .function], [part .var]]
  | .rule .function => [[token .symbol, token .leftParen, part .termList, token .rightParen]]
  | .rule .var => [[token .symbol]]
  | .rule .termList => [[], [part .term, .nonterminal .moreTerms]]
  | .rule .atEnd => [[token .finish]]
  | .operator => [[token .and], [token .or], [token .implies], [token .iff]]
  | .keyword => [[token .universal], [token .existential]]
  | .predicateName => [[token .type], [.terminal .membership]]
  | .moreTerms => [[], [token .comma, part .term, .nonterminal .moreTerms]]

end Category

open Category

abbrev grammar : ContextFreeGrammar Terminal where
  NT := Category
  initial := .rule .definition
  rules :=
    (Category.all.flatMap fun category => category.productions.map (⟨category, ·⟩)).toFinset

theorem mem_rules {production : ContextFreeRule Terminal Category} :
    production ∈ grammar.rules ↔ production.output ∈ production.input.productions := by
  rcases production with ⟨category, symbols⟩
  rw [List.mem_toFinset, List.mem_flatMap]
  constructor
  · rintro ⟨category', -, member⟩
    obtain ⟨symbols', member, made⟩ := List.mem_map.mp member
    cases made
    exact member
  · intro member
    exact ⟨category, category.mem_all, List.mem_map.mpr ⟨symbols, member, rfl⟩⟩

/-- The tokens fit the terminals of a word that the grammar generates from a definition. -/
def Derivable (tokens : List Token) : Prop :=
  ∃ word ∈ grammar.language, List.Forall₂ Terminal.Fits word tokens

/-! ## Interpretations -/

/-- A language of tokens for each category. -/
def Interpretation : Type := Category → Language Token

namespace Interpretation

def symbol (sense : Interpretation) : Symbol Terminal Category → Language Token
  | .terminal terminal => {tokens | ∃ token, terminal.Fits token ∧ tokens = [token]}
  | .nonterminal category => sense category

def form (sense : Interpretation) (symbols : Form) : Language Token :=
  (symbols.map sense.symbol).prod

@[simp]
theorem form_nil (sense : Interpretation) : sense.form [] = 1 :=
  rfl

@[simp]
theorem form_cons (sense : Interpretation) (head : Symbol Terminal Category) (tail : Form) :
    sense.form (head :: tail) = sense.symbol head * sense.form tail :=
  List.prod_cons

theorem form_append (sense : Interpretation) (before behind : Form) :
    sense.form (before ++ behind) = sense.form before * sense.form behind := by
  simp [form]

section

variable {sense : Interpretation} {tokens : List Token} {symbols : Form}

theorem append_mem_form {symbols' : Form} {tokens' : List Token}
    (member : tokens ∈ sense.form symbols) (member' : tokens' ∈ sense.form symbols') :
    tokens ++ tokens' ∈ sense.form (symbols ++ symbols') := by
  rw [form_append]
  exact Language.append_mem_mul member member'

theorem mem_form_nil : tokens ∈ sense.form [] ↔ tokens = [] :=
  Iff.rfl

theorem mem_form_terminal {terminal : Terminal} :
    tokens ∈ sense.form (.terminal terminal :: symbols) ↔
      ∃ token behind, tokens = token :: behind ∧ terminal.Fits token ∧
        behind ∈ sense.form symbols := by
  rw [form_cons, Language.mem_mul]
  constructor
  · rintro ⟨_, ⟨token, fits, rfl⟩, behind, member, rfl⟩
    exact ⟨token, behind, rfl, fits, member⟩
  · rintro ⟨token, behind, rfl, fits, member⟩
    exact ⟨[token], ⟨token, fits, rfl⟩, behind, member, rfl⟩

theorem mem_form_nonterminal {category : Category} :
    tokens ∈ sense.form (.nonterminal category :: symbols) ↔
      ∃ before behind, tokens = before ++ behind ∧ before ∈ sense category ∧
        behind ∈ sense.form symbols := by
  rw [form_cons, Language.mem_mul]
  constructor
  · rintro ⟨before, member, behind, member', rfl⟩
    exact ⟨before, behind, rfl, member, member'⟩
  · rintro ⟨before, behind, rfl, member, member'⟩
    exact ⟨before, member, behind, member', rfl⟩

theorem mem_form_singleton {category : Category} :
    tokens ∈ sense.form [.nonterminal category] ↔ tokens ∈ sense category := by
  rw [form_cons, form_nil, mul_one, symbol]

end

/-- Whatever a production writes belongs to its category. -/
def Closed (sense : Interpretation) : Prop :=
  ∀ category, ∀ symbols ∈ category.productions, ∀ tokens ∈ sense.form symbols,
    tokens ∈ sense category

/-- In a closed interpretation, what is written by a form that another one rewrites to is written by
that one. -/
theorem Closed.mem_form_of_produces {sense : Interpretation} (closed : sense.Closed)
    {before behind : Form} (step : grammar.Produces before behind) {tokens : List Token}
    (member : tokens ∈ sense.form behind) : tokens ∈ sense.form before := by
  obtain ⟨production, known, rewrites⟩ := step
  obtain ⟨ahead, beyond, rfl, rfl⟩ := rewrites.exists_parts
  simp only [form_append, Language.mem_mul] at member ⊢
  obtain ⟨_, ⟨first, hfirst, middle, hmiddle, rfl⟩, last, hlast, rfl⟩ := member
  have inner := mem_form_singleton.mpr (closed _ _ (mem_rules.mp known) middle hmiddle)
  exact ⟨_, ⟨first, hfirst, middle, inner, rfl⟩, last, hlast, rfl⟩

theorem mem_form_terminals {sense : Interpretation} {word : List Terminal} {tokens : List Token}
    (fits : List.Forall₂ Terminal.Fits word tokens) :
    tokens ∈ sense.form (word.map .terminal) := by
  induction fits with
  | nil => exact mem_form_nil.mpr rfl
  | cons first others ih => exact mem_form_terminal.mpr ⟨_, _, rfl, first, ih⟩

def derived : Interpretation := fun category =>
  {tokens | ∃ word : List Terminal,
    grammar.Derives [.nonterminal category] (word.map .terminal) ∧
      List.Forall₂ Terminal.Fits word tokens}

/-- The derived tokens are in every closed interpretation. -/
theorem Closed.mem_of_derived {sense : Interpretation} (closed : sense.Closed) {category : Category}
    {tokens : List Token} (member : tokens ∈ derived category) : tokens ∈ sense category := by
  obtain ⟨word, derivation, fits⟩ := member
  have all : ∀ symbols, grammar.Derives symbols (word.map .terminal) →
      tokens ∈ sense.form symbols := by
    intro symbols derivation
    induction derivation using Relation.ReflTransGen.head_induction_on with
    | refl => exact mem_form_terminals fits
    | head step _ ih => exact closed.mem_form_of_produces step ih
  exact mem_form_singleton.mp (all [.nonterminal category] derivation)

theorem exists_word_of_mem_form {symbols : Form} {tokens : List Token}
    (member : tokens ∈ derived.form symbols) :
    ∃ word : List Terminal, grammar.Derives symbols (word.map .terminal) ∧
      List.Forall₂ Terminal.Fits word tokens := by
  induction symbols generalizing tokens with
  | nil =>
    cases mem_form_nil.mp member
    exact ⟨[], .refl [], .nil⟩
  | cons head tail ih =>
    cases head with
    | terminal terminal =>
      obtain ⟨token, behind, rfl, fits, member⟩ := mem_form_terminal.mp member
      obtain ⟨word', derivation', fits'⟩ := ih member
      exact ⟨terminal :: word', derivation'.append_left [.terminal terminal], .cons fits fits'⟩
    | nonterminal category =>
      obtain ⟨before, behind, rfl, ⟨word, derivation, fits⟩, member⟩ :=
        mem_form_nonterminal.mp member
      obtain ⟨word', derivation', fits'⟩ := ih member
      refine ⟨word ++ word', ?_, List.rel_append fits fits'⟩
      rw [List.map_append]
      exact (derivation.append_right tail).trans (derivation'.append_left _)

theorem derived_closed : derived.Closed := by
  intro category symbols member tokens inside
  obtain ⟨word, derivation, fits⟩ := exists_word_of_mem_form inside
  have step : grammar.Produces [.nonterminal category] symbols :=
    ⟨⟨category, symbols⟩, mem_rules.mpr member, ContextFreeRule.Rewrites.input_output⟩
  exact ⟨word, step.trans_derives derivation, fits⟩

theorem mem_form_of_production {category : Category} {expansion : Form} {tokens : List Token}
    (production : expansion ∈ category.productions) (member : tokens ∈ derived.form expansion) :
    tokens ∈ derived.form [.nonterminal category] :=
  mem_form_singleton.mpr (derived_closed category expansion production tokens member)

end Interpretation

theorem derivable_iff {tokens : List Token} :
    Derivable tokens ↔ tokens ∈ Interpretation.derived (.rule .definition) := by
  rfl

end Definiens
