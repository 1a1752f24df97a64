import Definiens.Proofs.Grammar.Anchors

/-!
# How far scopes reach

A quantifier, a negation and a connective end with a formula, and so does a formula itself; they go on to the
right as long as they can.  Where one of them has ended there is no connective with a formula behind it, also
if more text follows that makes no sense.  So what is on the left side of a connective has ended before: it is
an equality or a predicate, or somebody has written parentheses around it.
-/

namespace Definiens

/-! ## Formulas in formulas -/

/-- A formula is another one or a part of it. -/
inductive Formula.Inside (inner : Formula) : Formula → Prop where
  | refl : Inside inner inner
  | negation {token : Token} {f : Formula} (inside : Inside inner f) : Inside inner (.negation token f)
  | left {token : Token} {op : Connective} {lhs rhs : Formula} (inside : Inside inner lhs) :
      Inside inner (.connective token op lhs rhs)
  | right {token : Token} {op : Connective} {lhs rhs : Formula} (inside : Inside inner rhs) :
      Inside inner (.connective token op lhs rhs)
  | quantifier {token : Token} {kind : Quantifier} {bound : Variable} {body : Formula}
      (inside : Inside inner body) : Inside inner (.quantifier token kind bound body)

/-- Somewhere among the tokens the formula is written in parentheses, with the given token right behind. -/
inductive Formula.Parenthesized (f : Formula) (next : Token) : List Token → Prop where
  | intro (before behind : List Token) {inside : List Token} {opening closing : Token} {pairs : Nat}
      (opens : opening.kind = .leftParen) (written : f.Written pairs inside)
      (closes : closing.kind = .rightParen) :
      Parenthesized f next (before ++ opening :: (inside ++ closing :: next :: behind))

namespace Formula.Parenthesized

variable {f : Formula} {next : Token} {tokens : List Token}

theorem cons (token : Token) (parenthesized : Parenthesized f next tokens) :
    Parenthesized f next (token :: tokens) := by
  obtain ⟨before, behind, opens, written, closes⟩ := parenthesized
  exact .intro (token :: before) behind opens written closes

theorem append_left (ahead : List Token) (parenthesized : Parenthesized f next tokens) :
    Parenthesized f next (ahead ++ tokens) := by
  induction ahead with
  | nil => exact parenthesized
  | cons token ahead ih => exact ih.cons token

theorem append_right (parenthesized : Parenthesized f next tokens) (beyond : List Token) :
    Parenthesized f next (tokens ++ beyond) := by
  obtain ⟨before, behind, opens, written, closes⟩ := parenthesized
  have further : Parenthesized f next _ := .intro before (behind ++ beyond) opens written closes
  simpa using further

end Formula.Parenthesized

/-- On the left side of a connective there is what has to stand in parentheses only in parentheses. -/
theorem Formula.Written.parenthesized {f : Formula} {pairs : Nat} {tokens : List Token}
    (written : f.Written pairs tokens) {token : Token} {op : Connective} {lhs rhs : Formula}
    (inside : Inside (.connective token op lhs rhs) f) (isOpen : lhs.IsOpen) :
    lhs.Parenthesized token tokens := by
  induction written with
  | equal => cases inside
  | predicate => cases inside
  | negation bang written ih =>
    cases inside with
    | negation inside => exact (ih inside).cons _
  | quantifier keyword symbol written ih =>
    cases inside with
    | quantifier inside => exact ((ih inside).cons _).cons _
  | @connective _ _ _ _ _ _ _ behind left enclosed operator right ihl ihr =>
    cases inside with
    | refl =>
      have some := enclosed isOpen
      cases left with
      | enclosed opens written closes =>
        have first : lhs.Parenthesized token _ := .intro [] behind opens written closes
        simpa using first
      | _ => exact absurd some (Nat.lt_irrefl 0)
    | left inside => exact (ihl inside).append_right _
    | right inside => exact ((ihr inside).cons _).append_left _
  | enclosed opens written closes ih => exact ((ih inside).append_right _).cons _

namespace Rule

/-- The formula that a rule gives, or that is in what it gives. -/
def formula? : (rule : Rule) → rule.Result → Option Formula
  | .definition, d => some d.body
  | .formula, f | .binaryConnective, f | .binaryLhs, f | .parenthesized, f | .quantifier, f
  | .negation, f | .equality, f | .predicate, f => some f
  | .term, _ | .function, _ | .var, _ | .termList, _ | .atEnd, _ => none

theorem Writes.parenthesized {rule : Rule} {value : rule.Result} {tokens : List Token}
    (writes : rule.Writes value tokens) {f : Formula} (given : rule.formula? value = some f)
    {token : Token} {op : Connective} {lhs rhs : Formula}
    (inside : Formula.Inside (.connective token op lhs rhs) f) (isOpen : lhs.IsOpen) :
    lhs.Parenthesized token tokens := by
  cases rule with
  | definition =>
    cases given
    obtain ⟨keyword, type, opens, body, closes⟩ := writes
    exact ((((body.parenthesized inside isOpen).append_right _).cons _).cons _).cons _
  | formula | binaryConnective | binaryLhs | parenthesized | quantifier | negation | equality
  | predicate =>
    cases given
    obtain ⟨pairs, written⟩ := writes
    exact written.parenthesized inside isOpen
  | term | function | var | termList | atEnd => cases given

/-! ## Ends -/

variable {items : List Item} {start stop : Nat}

def scopes : List Rule := [.formula, .quantifier, .negation, .binaryConnective]

/-- Behind a formula, and behind what ends with one, there is no connective with a formula. -/
theorem noMatch_behind_scope {rule : Rule} (scope : rule ∈ scopes) {value : rule.Result}
    (read : (rule.read items start).outcome = .matched (value, stop)) {token : Token} {op : Connective}
    (here : items[stop]? = some (.token token)) (operator : token.kind = op.kind) :
    (formula.read items (stop + 1)).outcome = .noMatch := by
  simp only [scopes, List.mem_cons, List.not_mem_nil, or_false] at scope
  rcases scope with rfl | rfl | rfl | rfl
  · exact noMatch_behind_formula read here operator
  · obtain ⟨_, _, _, _, -, -, -, -, -, body⟩ := matched_quantifier.mp read
    exact noMatch_behind_formula body here operator
  · obtain ⟨_, _, -, -, -, inner⟩ := matched_negation.mp read
    exact noMatch_behind_formula inner here operator
  · -- it is the first alternative of a formula
    have first : (formula.read items start).outcome = .matched (value, stop) := by
      rw [read_formula_eq]
      exact Reader.matched_orElse.mpr (Or.inl read)
    exact noMatch_behind_formula first here operator

end Rule

/-! ## Calls -/

/-- Whatever a session has been through, where a rule has matched that ends with a formula there is no
connective at which a call for a formula right behind it would match, on any session of the source.  In what
any rule gives the left side of a connective is neither a quantifier nor a negation nor a connective, but for
those that the tokens passed have in parentheses, right in front of the token of the connective. -/
theorem scopes_reach_to_the_right {source : String} {moves : List Move} {journal : Option (List Entry)}
    {rule : Rule} {value : rule.Result}
    (matched : (Parser.call rule (Session.moment source moves journal)).1 = .matched value) :
    let items := (TokenStream.ofSource source).items
    let s := Session.moment source moves journal
    let stop := (Parser.call rule s).2.position
    (rule ∈ Rule.scopes → ∀ (token : Token) (op : Connective), items[stop]? = some (.token token) →
      token.kind = op.kind → ∀ moves' journal', (Session.moment source moves' journal').position = stop + 1 →
        ∀ f, (Parser.call .formula (Session.moment source moves' journal')).1 ≠ .matched f) ∧
    ∃ passed, Between items s.position stop passed ∧
      ∀ f, rule.formula? value = some f → ∀ token op lhs rhs,
        Formula.Inside (.connective token op lhs rhs) f → lhs.IsOpen → lhs.Parenthesized token passed := by
  intro items s stop
  have read : (rule.read items s.position).outcome = .matched (value, stop) :=
    (Parser.call_refines rule items s Session.over_moment).outcome_of_matched matched
  refine ⟨?_, ?_⟩
  · intro scope token op here operator moves' journal' behind f matched'
    have read' := (Parser.call_refines .formula items _ Session.over_moment).outcome_of_matched matched'
    rw [behind, Rule.noMatch_behind_scope scope read here operator] at read'
    cases read'
  · obtain ⟨passed, stands, writes⟩ := rule.spans_of_matched read
    exact ⟨passed, stands, fun f given token op lhs rhs inside isOpen =>
      writes.parenthesized given inside isOpen⟩

/-- The outer negation ends where a connective has nothing behind it, and reaches over the connective in front
of that one, the left side of which is a negation in parentheses. -/
theorem negation_reaches_over_connective :
    ∃ f, (Parser.call .negation (Session.moment "!(!x = y) and y = y and )" [] none)).1 = .matched f ∧
      (∀ f', (Parser.call .formula (Session.moment "!(!x = y) and y = y and )"
        (List.replicate 12 .next) none)).1 ≠ .matched f') ∧
      ∃ token lhs rhs passed, f = .negation ⟨.bang, "!", 0, 1⟩ (.connective token .and lhs rhs) ∧ lhs.IsOpen ∧
        lhs.Parenthesized token passed := by
  let source : String := "!(!x = y) and y = y and )"
  let y (offset : Nat) : Term := .var ⟨⟨.symbol, "y", offset, 1⟩⟩
  let lhs : Formula := .negation ⟨.bang, "!", 2, 1⟩
    (.equal ⟨.equals, "=", 5, 1⟩ (.var ⟨⟨.symbol, "x", 3, 1⟩⟩) (y 7))
  let f : Formula := .negation ⟨.bang, "!", 0, 1⟩
    (.connective ⟨.and, "and", 10, 3⟩ .and lhs (.equal ⟨.equals, "=", 16, 1⟩ (y 14) (y 18)))
  have matched : (Parser.call .negation (Session.moment source [] none)).1 = .matched f := by
    decide +kernel
  have here : (TokenStream.ofSource source).items[
      (Parser.call .negation (Session.moment source [] none)).2.position]? =
        some (.token ⟨.and, "and", 20, 3⟩) := by
    decide +kernel
  have behind : (Session.moment source (List.replicate 12 .next) none).position =
      (Parser.call .negation (Session.moment source [] none)).2.position + 1 := by
    decide +kernel
  obtain ⟨ends, passed, -, parenthesized⟩ := scopes_reach_to_the_right matched
  have noFormula := ends (by decide) _ .and here rfl (List.replicate 12 .next) none behind
  exact ⟨f, matched, noFormula, _, lhs, _, passed, rfl, trivial,
    parenthesized f rfl _ .and lhs _ (.negation .refl) trivial⟩

end Definiens
