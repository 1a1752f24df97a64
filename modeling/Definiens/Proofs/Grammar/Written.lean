import Definiens.Tree

/-!
# Trees in writing

`Written` says which token sequences write a tree, without saying how they are read: each node has its
tokens in their places, and a formula may stand in any number of pairs of parentheses wherever it
stands.  There is one obligation.  A connective, a quantifier or a negation goes on to the right as
far as it can, so as the left side of a connective it has to stand in parentheses.
-/

namespace Definiens

mutual

/-- The tokens that write a term: a symbol, and the arguments of a function in parentheses. -/
inductive Term.Written : Term → List Token → Prop where
  | var {token : Token} (symbol : token.kind = .symbol) : Term.Written (.var ⟨token⟩) [token]
  | function {token opening closing : Token} {args : List Term} {inside : List Token}
      (symbol : token.kind = .symbol) (opens : opening.kind = .leftParen)
      (written : Term.ListWritten args inside) (closes : closing.kind = .rightParen) :
      Term.Written (.function token args) (token :: opening :: (inside ++ [closing]))

/-- The tokens that write a list of terms: one comma between each two of them. -/
inductive Term.ListWritten : List Term → List Token → Prop where
  | nil : Term.ListWritten [] []
  | single {term : Term} {tokens : List Token} (written : Term.Written term tokens) :
      Term.ListWritten [term] tokens
  | cons {term next : Term} {others : List Term} {before behind : List Token} {comma : Token}
      (first : Term.Written term before) (separates : comma.kind = .comma)
      (rest : Term.ListWritten (next :: others) behind) :
      Term.ListWritten (term :: next :: others) (before ++ comma :: behind)

end

inductive PredicateName.Proper : PredicateName → Prop where
  | type {token : Token} (type : token.kind = .type) : Proper (.type ⟨token⟩)
  | membership {token : Token} (symbol : token.kind = .symbol) (spelled : token.text = PredicateName.membershipSymbol) :
      Proper (.membership ⟨token⟩)

theorem PredicateName.ofToken?_eq_some {token : Token} {name : PredicateName} :
    PredicateName.ofToken? token = some name ↔ name.token = token ∧ name.Proper := by
  constructor
  · intro found
    unfold PredicateName.ofToken? at found
    split at found
    next type =>
      cases found
      exact ⟨rfl, .type type⟩
    next symbol =>
      split at found
      next spelled =>
        cases found
        exact ⟨rfl, .membership symbol spelled⟩
      next => cases found
    next => cases found
  · rintro ⟨rfl, type | ⟨symbol, spelled⟩⟩
    · simp [PredicateName.ofToken?, PredicateName.token, type]
    · simp [PredicateName.ofToken?, PredicateName.token, symbol, spelled, membershipSymbol]

/-- A formula whose writing ends with a formula, and so goes on as long as that does. -/
def Formula.IsOpen : Formula → Prop
  | .negation _ _ => True
  | .connective _ _ _ _ => True
  | .quantifier _ _ _ _ => True
  | .equal _ _ _ => False
  | .predicate _ _ => False

/-- The tokens that write a formula inside so many pairs of parentheses. -/
inductive Formula.Written : Formula → Nat → List Token → Prop where
  | equal {token : Token} {lhs rhs : Term} {before behind : List Token}
      (left : lhs.Written before) (equals : token.kind = .equals) (right : rhs.Written behind) :
      Written (.equal token lhs rhs) 0 (before ++ token :: behind)
  | predicate {name : PredicateName} {opening closing : Token} {args : List Term}
      {inside : List Token} (proper : name.Proper) (opens : opening.kind = .leftParen)
      (written : Term.ListWritten args inside) (closes : closing.kind = .rightParen) :
      Written (.predicate name args) 0 (name.token :: opening :: (inside ++ [closing]))
  | negation {token : Token} {inner : Formula} {pairs : Nat} {tokens : List Token}
      (bang : token.kind = .bang) (written : Written inner pairs tokens) :
      Written (.negation token inner) 0 (token :: tokens)
  | quantifier {token : Token} {kind : Quantifier} {bound : Variable} {body : Formula} {pairs : Nat}
      {tokens : List Token} (keyword : token.kind = kind.kind) (symbol : bound.token.kind = .symbol)
      (written : Written body pairs tokens) :
      Written (.quantifier token kind bound body) 0 (token :: bound.token :: tokens)
  | connective {token : Token} {op : Connective} {lhs rhs : Formula} {pairs pairs' : Nat}
      {before behind : List Token} (left : Written lhs pairs before)
      (enclosed : lhs.IsOpen → 0 < pairs) (operator : token.kind = op.kind)
      (right : Written rhs pairs' behind) :
      Written (.connective token op lhs rhs) 0 (before ++ token :: behind)
  | enclosed {formula : Formula} {pairs : Nat} {opening closing : Token} {tokens : List Token}
      (opens : opening.kind = .leftParen) (written : Written formula pairs tokens)
      (closes : closing.kind = .rightParen) :
      Written formula (pairs + 1) (opening :: (tokens ++ [closing]))

/-- The tokens that write a definition: `def`, the type, and the body in braces. -/
inductive Definition.Written : Definition → List Token → Prop where
  | intro {token name opening closing : Token} {body : Formula} {pairs : Nat} {tokens : List Token}
      (keyword : token.kind = .define) (type : name.kind = .type) (opens : opening.kind = .leftBrace)
      (written : body.Written pairs tokens) (closes : closing.kind = .rightBrace) :
      Written ⟨token, ⟨name⟩, body⟩ (token :: name :: opening :: (tokens ++ [closing]))

/-! ## Places -/

/-- The tokens are what stands in the list from the first place up to the second. -/
def Between (items : List Item) : Nat → Nat → List Token → Prop
  | start, stop, [] => stop = start
  | start, stop, token :: tokens =>
    items[start]? = some (.token token) ∧ Between items (start + 1) stop tokens

namespace Between

variable {items : List Item} {start middle stop : Nat} {tokens before behind : List Token}

theorem nil : Between items start start [] :=
  rfl

theorem cons {token : Token} (here : items[start]? = some (.token token))
    (others : Between items (start + 1) stop tokens) :
    Between items start stop (token :: tokens) :=
  ⟨here, others⟩

theorem single {token : Token} (here : items[start]? = some (.token token)) :
    Between items start (start + 1) [token] :=
  cons here nil

theorem append (first : Between items start middle before)
    (second : Between items middle stop behind) : Between items start stop (before ++ behind) := by
  induction before generalizing start with
  | nil =>
    cases first
    exact second
  | cons token before ih => exact cons first.1 (ih first.2)

theorem split (both : Between items start stop (before ++ behind)) :
    ∃ middle, Between items start middle before ∧ Between items middle stop behind := by
  induction before generalizing start with
  | nil => exact ⟨start, nil, both⟩
  | cons token before ih =>
    obtain ⟨here, others⟩ := both
    obtain ⟨middle, hbefore, hbehind⟩ := ih others
    exact ⟨middle, cons here hbefore, hbehind⟩

theorem stop_eq (stands : Between items start stop tokens) : stop = start + tokens.length := by
  induction tokens generalizing start with
  | nil => exact stands
  | cons token tokens ih =>
    rw [ih stands.2, List.length_cons]
    omega

theorem start_le (stands : Between items start stop tokens) : start ≤ stop := by
  rw [stands.stop_eq]
  exact Nat.le_add_right start tokens.length

theorem unique {tokens' : List Token} (stands : Between items start stop tokens)
    (stands' : Between items start stop tokens') : tokens = tokens' := by
  have length := stands.stop_eq
  rw [stands'.stop_eq] at length
  induction tokens generalizing start tokens' with
  | nil => exact (List.length_eq_zero_iff.mp (Nat.add_left_cancel length)).symm
  | cons token tokens ih =>
    cases tokens' with
    | nil => simp at length
    | cons token' tokens' =>
      obtain ⟨here, others⟩ := stands
      obtain ⟨here', others'⟩ := stands'
      rw [here] at here'
      cases here'
      rw [ih others others' (by simp only [List.length_cons] at length; omega)]

theorem map (tokens : List Token) (ahead beyond : List Item) :
    Between (ahead ++ (tokens.map Item.token ++ beyond)) ahead.length
      (ahead.length + tokens.length) tokens := by
  induction tokens generalizing ahead with
  | nil => exact nil
  | cons token tokens ih =>
    have others := ih (ahead ++ [.token token])
    rw [List.append_assoc, List.length_append, List.length_singleton] at others
    refine cons (by simp) ?_
    rw [List.length_cons, Nat.add_comm tokens.length, ← Nat.add_assoc]
    exact others

theorem map_self (tokens : List Token) : Between (tokens.map Item.token) 0 tokens.length tokens := by
  simpa using map tokens [] []

end Between

/-- The tokens between two places are such that something holds of them. -/
def Spans (items : List Item) (start stop : Nat) (p : List Token → Prop) : Prop :=
  ∃ tokens, Between items start stop tokens ∧ p tokens

theorem Spans.mono {items : List Item} {start stop : Nat} {p q : List Token → Prop}
    (spans : Spans items start stop p) (weaker : ∀ tokens, p tokens → q tokens) :
    Spans items start stop q := by
  obtain ⟨tokens, stands, holds⟩ := spans
  exact ⟨tokens, stands, weaker tokens holds⟩

end Definiens
