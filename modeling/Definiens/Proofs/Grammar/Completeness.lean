import Definiens.Proofs.Grammar.Matches

/-!
# What is written is read

Where tokens stand that write a tree, and the token behind them is none that would carry the reading
on, a rule reads that tree and ends behind those tokens.  What would carry it on is `(` behind a
symbol, a comma behind a term in a list, `=` behind a term at the beginning of a formula, and a
connective behind a formula that is not the left side of one.
-/

namespace Definiens

open Rule

/-- The item at the place is a token, and its kind is none of those. -/
def Stops (items : List Item) (place : Nat) (kinds : List Kind) : Prop :=
  ∃ token, items[place]? = some (.token token) ∧ token.kind ∉ kinds

variable {items : List Item} {start place : Nat} {kinds kinds' : List Kind}

theorem Stops.mono (stops : Stops items place kinds) (fewer : kinds' ⊆ kinds) :
    Stops items place kinds' := by
  obtain ⟨token, here, other⟩ := stops
  exact ⟨token, here, fun member => other (fewer member)⟩

theorem Stops.of_kind {token : Token} {kind : Kind} (here : items[place]? = some (.token token))
    (known : token.kind = kind) (other : kind ∉ kinds) : Stops items place kinds :=
  ⟨token, here, known ▸ other⟩

/-! ## Terms -/

theorem noMatch_function_of_stops {token : Token} (here : items[start]? = some (.token token))
    (stops : Stops items (start + 1) [.leftParen]) :
    (function.read items start).outcome = .noMatch := by
  by_cases symbol : token.kind = .symbol
  · obtain ⟨next, hnext, other⟩ := stops
    rw [read_function]
    refine Reader.noMatch_bind.mpr (Or.inr
      ⟨token, _, Reader.matched_expect.mpr ⟨here, symbol, rfl⟩, ?_⟩)
    refine Reader.noMatch_bind.mpr (Or.inl (Reader.noMatch_bind.mpr (Or.inl ?_)))
    exact noMatch_expect_of_kind hnext fun opens => other (by simp [opens])
  · exact noMatch_function here symbol

theorem matched_arguments_of_between {opening closing : Token} {inside : List Token}
    {args : List Term} {stop : Nat} (opens : opening.kind = .leftParen)
    (closes : closing.kind = .rightParen)
    (stands : Between items start stop (opening :: (inside ++ [closing])))
    (read : ∀ {start stop}, Between items start stop inside →
      Stops items stop [.leftParen, .comma, .symbol] →
      (termList.read items start).outcome = .matched (args, stop)) :
    (Reader.arguments termList.read items start).outcome = .matched (args, stop) := by
  obtain ⟨hopening, behind⟩ := stands
  obtain ⟨middle, hinside, hclosing, rfl⟩ := behind.split
  have args := read hinside (.of_kind hclosing closes (by decide))
  exact matched_arguments.mpr ⟨opening, closing, middle, hopening, opens, args, hclosing, closes, rfl⟩

mutual

theorem Term.Written.read {t : Term} {tokens : List Token} (written : t.Written tokens)
    {start stop : Nat} (stands : Between items start stop tokens)
    (stops : Stops items stop [.leftParen]) :
    (term.read items start).outcome = .matched (t, stop) :=
  match written with
  | .var symbol => by
    obtain ⟨here, rfl⟩ := stands
    have absent := noMatch_function_of_stops here stops
    exact matched_term.mpr (Or.inr ⟨absent, _, rfl, here, symbol, rfl⟩)
  | .function symbol opens inside closes => by
    obtain ⟨here, behind⟩ := stands
    have args := matched_arguments_of_between opens closes behind
      fun stands stops => inside.read stands stops
    exact matched_term.mpr (Or.inl (matched_function.mpr ⟨_, _, rfl, here, symbol, args⟩))

theorem Term.ListWritten.read {terms : List Term} {tokens : List Token}
    (written : Term.ListWritten terms tokens) {start stop : Nat}
    (stands : Between items start stop tokens)
    (stops : Stops items stop [.leftParen, .comma, .symbol]) :
    (termList.read items start).outcome = .matched (terms, stop) :=
  match written with
  | .nil => by
    cases stands
    obtain ⟨token, here, other⟩ := stops
    have absent := noMatch_term here fun symbol => other (by simp [symbol])
    exact matched_termList_nil.mpr ⟨absent, rfl⟩
  | .single written => by
    have first := written.read stands (stops.mono (by simp))
    obtain ⟨token, here, other⟩ := stops
    have ends : (Reader.expect .comma items stop).outcome = .noMatch :=
      noMatch_expect_of_kind here fun comma => other (by simp [comma])
    have others := matched_furtherTerms.mpr (Or.inr ⟨ends, rfl, rfl⟩)
    exact matched_termList_cons.mpr (matched_someTerms.mpr ⟨_, _, _, rfl, first, others⟩)
  | @Term.ListWritten.cons _ _ _ before behind comma first separates rest => by
    obtain ⟨middle, hbefore, hcomma, hbehind⟩ := stands.split
    have first := first.read hbefore (.of_kind hcomma separates (by decide))
    have rest := matched_termList_cons.mp (rest.read hbehind stops)
    have others := matched_furtherTerms.mpr (Or.inl ⟨comma, hcomma, separates, rest⟩)
    exact matched_termList_cons.mpr (matched_someTerms.mpr ⟨_, _, _, rfl, first, others⟩)

end

/-! ## Formulas -/

/-- What carries a reading on behind a formula that is written in full. -/
def Formula.carriers : List Kind := [.leftParen, .equals]

/-- What carries a reading on behind a formula that may have a connective behind it. -/
def Formula.operators : List Kind := [.and, .or, .implies, .iff]

theorem Connective.kind_mem_operators (op : Connective) : op.kind ∈ Formula.operators := by
  cases op <;> decide

theorem Connective.kind_notMem_carriers (op : Connective) : op.kind ∉ Formula.carriers := by
  cases op <;> decide

/-- Where no connective follows, a formula is what can be the left side of one. -/
theorem matched_formula_of_binaryLhs {f : Formula} {stop : Nat}
    (left : (binaryLhs.read items start).outcome = .matched (f, stop))
    (stops : Stops items stop Formula.operators) :
    (formula.read items start).outcome = .matched (f, stop) := by
  obtain ⟨token, here, other⟩ := stops
  refine matched_formula.mpr ⟨f, stop, left, Or.inr ⟨?_, rfl, rfl⟩⟩
  rw [noMatch_connectiveAfter, here]
  rintro item ⟨rfl⟩
  exact ⟨token, rfl, fun op operator => absurd (operator ▸ op.kind_mem_operators) other⟩

/-- Where a predicate is written no equality is read: behind what may be a term there is no `=`. -/
theorem noMatch_equality_of_predicate {name : PredicateName} {opening closing : Token}
    {args : List Term} {inside : List Token} {stop : Nat} (proper : name.Proper)
    (opens : opening.kind = .leftParen) (written : Term.ListWritten args inside)
    (closes : closing.kind = .rightParen)
    (stands : Between items start stop (name.token :: opening :: (inside ++ [closing])))
    (stops : Stops items stop Formula.carriers) :
    (equality.read items start).outcome = .noMatch := by
  cases proper with
  | type type => exact noMatch_equality stands.1 (by simp [PredicateName.token, type])
  | @membership token symbol spelled =>
    have asTerm : (Term.function token args).Written (token :: opening :: (inside ++ [closing])) :=
      .function symbol opens written closes
    have first := asTerm.read stands (stops.mono (by decide))
    obtain ⟨next, hnext, other⟩ := stops
    rw [read_equality]
    refine Reader.noMatch_bind.mpr (Or.inr ⟨_, _, first, Reader.noMatch_bind.mpr (Or.inl ?_)⟩)
    exact noMatch_expect_of_kind hnext fun equals => other (by simp [equals, Formula.carriers])

/-- A formula is read from where it is written; as the left side of a connective it is too, unless it
is open and stands in no parentheses. -/
theorem Formula.Written.read {f : Formula} {pairs : Nat} {tokens : List Token}
    (written : f.Written pairs tokens) {start stop : Nat} (stands : Between items start stop tokens)
    (stops : Stops items stop Formula.carriers) :
    ((f.IsOpen → 0 < pairs) → (binaryLhs.read items start).outcome = .matched (f, stop)) ∧
    (Stops items stop Formula.operators →
      (formula.read items start).outcome = .matched (f, stop)) := by
  -- on what writes the formula; both ways of reading it are needed at once, as either calls the other
  induction written generalizing start stop with
  | @equal token lhs rhs before behind left equals right =>
    obtain ⟨middle, hbefore, hequals, hbehind⟩ := stands.split
    have hlhs := left.read hbefore (.of_kind hequals equals (by decide))
    have hrhs := right.read hbehind (stops.mono (by decide))
    have asLeft := matched_binaryLhs.mpr <| Or.inr <| Or.inr <| Or.inr <| Or.inl <|
      matched_equality.mpr ⟨token, lhs, rhs, middle, rfl, hlhs, hequals, equals, hrhs⟩
    exact ⟨fun _ => asLeft, matched_formula_of_binaryLhs asLeft⟩
  | @predicate name opening closing args inside proper opens written closes =>
    have absent := noMatch_equality_of_predicate proper opens written closes stands stops
    obtain ⟨here, behind⟩ := stands
    have hargs := matched_arguments_of_between opens closes behind
      fun stands stops => written.read stands stops
    have asLeft := matched_binaryLhs.mpr <| Or.inr <| Or.inr <| Or.inr <| Or.inr ⟨absent,
      matched_predicate.mpr ⟨name, args, rfl, here, proper, hargs⟩⟩
    exact ⟨fun _ => asLeft, matched_formula_of_binaryLhs asLeft⟩
  | @negation token inner pairs tokens bang written ih =>
    obtain ⟨here, behind⟩ := stands
    refine ⟨fun enclosed => absurd (enclosed trivial) (Nat.lt_irrefl 0), ?_⟩
    intro ends
    have hinner := (ih behind stops).2 ends
    refine matched_formula_of_binaryLhs (matched_binaryLhs.mpr ?_) ends
    exact Or.inr (Or.inr (Or.inl (matched_negation.mpr ⟨token, inner, rfl, here, bang, hinner⟩)))
  | @quantifier token kind bound body pairs tokens keyword symbol written ih =>
    obtain ⟨here, hbound, behind⟩ := stands
    refine ⟨fun enclosed => absurd (enclosed trivial) (Nat.lt_irrefl 0), ?_⟩
    intro ends
    have hbody := (ih behind stops).2 ends
    refine matched_formula_of_binaryLhs (matched_binaryLhs.mpr ?_) ends
    exact Or.inr (Or.inl (matched_quantifier.mpr
      ⟨token, kind, bound, body, rfl, here, keyword, hbound, symbol, hbody⟩))
  | @connective token op lhs rhs pairs pairs' before behind left enclosed operator right ihLeft ihRight =>
    obtain ⟨middle, hbefore, htoken, hbehind⟩ := stands.split
    refine ⟨fun enclosed => absurd (enclosed trivial) (Nat.lt_irrefl 0), ?_⟩
    intro ends
    have hleft := (ihLeft hbefore (.of_kind htoken operator op.kind_notMem_carriers)).1 enclosed
    have hright := (ihRight hbehind stops).2 ends
    exact matched_formula.mpr ⟨lhs, middle, hleft, Or.inl (matched_connectiveAfter.mpr
      ⟨token, op, rhs, rfl, htoken, operator, hright⟩)⟩
  | @enclosed formula pairs opening closing tokens opens written closes ih =>
    obtain ⟨hopening, behind⟩ := stands
    obtain ⟨middle, hinside, hclosing, rfl⟩ := behind.split
    have hinner := (ih hinside (.of_kind hclosing closes (by decide))).2
      (.of_kind hclosing closes (by decide))
    have asLeft := matched_binaryLhs.mpr <| Or.inl <| matched_parenthesized.mpr
      ⟨opening, closing, middle, hopening, opens, hinner, hclosing, closes, rfl⟩
    exact ⟨fun _ => asLeft, matched_formula_of_binaryLhs asLeft⟩

theorem Definition.Written.read {d : Definition} {tokens : List Token} (written : d.Written tokens)
    {start stop : Nat} (stands : Between items start stop tokens) :
    (definition.read items start).outcome = .matched (d, stop) := by
  obtain @⟨token, name, opening, closing, body, pairs, inside, keyword, type, opens, written, closes⟩ :=
    written
  obtain ⟨here, hname, hopening, behind⟩ := stands
  obtain ⟨middle, hinside, hclosing, rfl⟩ := behind.split
  have hbody := (written.read hinside (.of_kind hclosing closes (by decide))).2
    (.of_kind hclosing closes (by decide))
  exact matched_definition.mpr ⟨opening, closing, middle, here, keyword, hname, type, hopening, opens,
    hbody, hclosing, closes, rfl⟩

end Definiens
