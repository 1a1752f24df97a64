import Definiens.Proofs.Grammar.Anchors
import Definiens.Proofs.Grammar.Whole
import Mathlib.Data.List.Basic

/-!
# Variables in the text

Which symbols of a source are its variables shows in the tokens next to them: a symbol names a function or
a predicate if an opening parenthesis follows, unless a quantifier in front of it binds it.  A walk through
what has been read meets these symbols, each of them once and in the order of the text.
-/

namespace Definiens

/-! ## Symbols and their neighbours -/

def Token.isQuantifier (token : Token) : Bool := token.is .universal || token.is .existential

/-- Whether a token between two others stands for a variable: it is a symbol, directly behind a quantifier or
not directly in front of an opening parenthesis. -/
def Token.isVariable (before? next? : Option Token) (token : Token) : Bool :=
  token.is .symbol && (before?.any isQuantifier || !next?.any (·.is .leftParen))

/-- The tokens that stand for variables, in a list that itself stands between two tokens. -/
def variableTokens (before? next? : Option Token) : List Token → List Token
  | [] => []
  | token :: tokens =>
    if token.isVariable before? (tokens.head?.or next?) then
      token :: variableTokens (some token) next? tokens
    else
      variableTokens (some token) next? tokens

section

variable {before? next? : Option Token} {token : Token} {tokens : List Token}

theorem variableTokens_cons_other {kind : Kind} (known : token.kind = kind) (other : kind ≠ .symbol) :
    variableTokens before? next? (token :: tokens) = variableTokens (some token) next? tokens := by
  have none : token.isVariable before? (tokens.head?.or next?) = false := by
    simp [Token.isVariable, Token.is, known, other]
  rw [variableTokens, if_neg (by simp [none])]

/-- On both sides of a token that is no symbol, variables can be looked for apart. -/
theorem variableTokens_append_cons {kind : Kind} (known : token.kind = kind) (other : kind ≠ .symbol)
    (before : List Token) :
    variableTokens before? next? (before ++ token :: tokens) =
      variableTokens before? (some token) before ++ variableTokens (some token) next? tokens := by
  induction before generalizing before? with
  | nil => exact variableTokens_cons_other known other
  | cons first before ih =>
    have ahead : (before ++ token :: tokens).head?.or next? = before.head?.or (some token) := by
      cases before <;> rfl
    rw [List.cons_append, variableTokens, variableTokens, ahead, ih]
    split <;> rfl

theorem variableTokens_bound {keyword : Token} (quantifies : keyword.isQuantifier = true)
    (symbol : token.kind = .symbol) :
    variableTokens (some keyword) next? (token :: tokens) =
      token :: variableTokens (some token) next? tokens := by
  rw [variableTokens, if_pos]
  simp [Token.isVariable, quantifies, symbol]

theorem variableTokens_applied {opening closing : Token} (free : before?.any Token.isQuantifier = false)
    (opens : opening.kind = .leftParen) (closes : closing.kind = .rightParen) :
    variableTokens before? next? (token :: opening :: (tokens ++ [closing])) =
      variableTokens (some opening) (some closing) tokens := by
  have none : token.isVariable before? (some opening) = false := by
    simp [Token.isVariable, free, opens]
  rw [variableTokens, List.head?_cons, Option.some_or, if_neg (by simp [none]),
    variableTokens_cons_other opens (by decide), variableTokens_append_cons closes (by decide)]
  exact List.append_nil _

theorem variableTokens_sublist : (variableTokens before? next? tokens).Sublist tokens := by
  induction tokens generalizing before? with
  | nil => exact .slnil
  | cons token tokens ih =>
    rw [variableTokens]
    split
    · exact ih.cons_cons token
    · exact ih.cons token

end

/-! ## Variables of trees -/

namespace Outline

mutual

theorem filterMap_walk (depth : Nat) : (o : Outline) →
    (o.walk depth).filterMap (·.node.var?) = o.preorder.filterMap Node.var?
  | .node label children => by
    have aside : (label.aside (depth + 1)).filterMap (·.node.var?) = [] := by
      rcases label with _ | _ | _ | _ | _ | (_ | _) | _ | _ | _ | _ <;> rfl
    rw [walk, preorder, List.filterMap_cons, List.filterMap_cons, List.filterMap_append, aside,
      List.nil_append, filterMap_walks (depth + 1) children]

theorem filterMap_walks (depth : Nat) : (os : List Outline) →
    (walks depth os).filterMap (·.node.var?) = (preorders os).filterMap Node.var?
  | [] => rfl
  | o :: os => by
    rw [walks, preorders, List.filterMap_append, List.filterMap_append, filterMap_walk depth o,
      filterMap_walks depth os]

end

def variableTokens (o : Outline) : List Token := (o.preorder.filterMap Node.var?).map Variable.token

def variableTokensOf (os : List Outline) : List Token :=
  ((preorders os).filterMap Node.var?).map Variable.token

@[simp]
theorem variableTokensOf_nil : variableTokensOf [] = [] :=
  rfl

@[simp]
theorem variableTokensOf_cons (o : Outline) (os : List Outline) :
    variableTokensOf (o :: os) = o.variableTokens ++ variableTokensOf os := by
  simp [variableTokensOf, variableTokens, preorders]

theorem variableTokens_node {label : Node} (other : label.var? = none) (children : List Outline) :
    (node label children).variableTokens = variableTokensOf children := by
  simp [variableTokensOf, variableTokens, preorder, other]

theorem variableTokens_var (v : Variable) : (node (.var v) []).variableTokens = [v.token] :=
  rfl

end Outline

/-! ## Variables in writing -/

theorem unbound_of_kind {token : Token} {kind : Kind} (known : token.kind = kind)
    (other : kind ≠ .universal ∧ kind ≠ .existential) :
    (some token).any Token.isQuantifier = false := by
  simp [Token.isQuantifier, Token.is, known, other]

theorem unapplied_of_kind {token : Token} {kind : Kind} (known : token.kind = kind)
    (other : kind ≠ .leftParen) : (some token).any (·.is .leftParen) = false := by
  simp [Token.is, known, other]

mutual

/-- The variables of a term are the tokens that stand for variables where it is written, if no quantifier
is in front and no opening parenthesis behind. -/
theorem Term.Written.variableTokens_eq {t : Term} {tokens : List Token} (written : t.Written tokens)
    {before? next? : Option Token} (unbound : before?.any Token.isQuantifier = false)
    (unapplied : next?.any (·.is .leftParen) = false) :
    t.outline.variableTokens = variableTokens before? next? tokens :=
  match written with
  | .var symbol => by
    rw [Term.outline, Outline.variableTokens_var, variableTokens, List.head?_nil, Option.none_or, if_pos]
    · rfl
    · simp [Token.isVariable, symbol, unapplied]
  | .function symbol opens inside closes => by
    rw [variableTokens_applied unbound opens closes, Term.outline, Outline.variableTokens_node rfl]
    exact inside.variableTokens_eq (unbound_of_kind opens (by decide))
      (unapplied_of_kind closes (by decide))

theorem Term.ListWritten.variableTokens_eq {ts : List Term} {tokens : List Token}
    (written : Term.ListWritten ts tokens) {before? next? : Option Token}
    (unbound : before?.any Token.isQuantifier = false)
    (unapplied : next?.any (·.is .leftParen) = false) :
    Outline.variableTokensOf (Term.outlines ts) = variableTokens before? next? tokens :=
  match written with
  | .nil => rfl
  | .single written => by
    rw [Term.outlines, Term.outlines, Outline.variableTokensOf_cons,
      written.variableTokens_eq unbound unapplied]
    exact List.append_nil _
  | .cons first separates rest => by
    rw [Term.outlines, Outline.variableTokensOf_cons, variableTokens_append_cons separates (by decide),
      first.variableTokens_eq unbound (unapplied_of_kind separates (by decide)),
      rest.variableTokens_eq (unbound_of_kind separates (by decide)) unapplied]

end

theorem Connective.kind_ne (op : Connective) :
    op.kind ≠ .symbol ∧ op.kind ≠ .leftParen ∧ op.kind ≠ .universal ∧ op.kind ≠ .existential := by
  cases op <;> decide

theorem Quantifier.kind_ne_symbol (kind : Quantifier) : kind.kind ≠ .symbol := by
  cases kind <;> decide

theorem Quantifier.isQuantifier_of_kind {token : Token} {kind : Quantifier} (known : token.kind = kind.kind) :
    token.isQuantifier = true := by
  cases kind <;> simp [Token.isQuantifier, known, Quantifier.kind]

/-- So are the variables of a formula: behind the quantifiers in it stand the variables that they bind. -/
theorem Formula.Written.variableTokens_eq {f : Formula} {pairs : Nat} {tokens : List Token}
    (written : f.Written pairs tokens) {before? next? : Option Token}
    (unbound : before?.any Token.isQuantifier = false)
    (unapplied : next?.any (·.is .leftParen) = false) :
    f.outline.variableTokens = variableTokens before? next? tokens := by
  induction written generalizing before? next? with
  | equal left equals right =>
    rw [Formula.outline, Outline.variableTokens_node rfl, variableTokens_append_cons equals (by decide),
      ← left.variableTokens_eq unbound (unapplied_of_kind equals (by decide)),
      ← right.variableTokens_eq (unbound_of_kind equals (by decide)) unapplied]
    simp
  | predicate proper opens written closes =>
    rw [variableTokens_applied unbound opens closes, Formula.outline, Outline.variableTokens_node rfl]
    exact written.variableTokens_eq (unbound_of_kind opens (by decide))
      (unapplied_of_kind closes (by decide))
  | negation bang written ih =>
    rw [variableTokens_cons_other bang (by decide), Formula.outline, Outline.variableTokens_node rfl,
      ← ih (unbound_of_kind bang (by decide)) unapplied]
    simp
  | quantifier keyword symbol written ih =>
    rw [variableTokens_cons_other keyword (Quantifier.kind_ne_symbol _),
      variableTokens_bound (Quantifier.isQuantifier_of_kind keyword) symbol, Formula.outline,
      Outline.variableTokens_node rfl, ← ih (unbound_of_kind symbol (by decide)) unapplied]
    simp [Outline.variableTokens_var]
  | @connective token op lhs rhs _ _ before behind left enclosed operator right ihl ihr =>
    obtain ⟨noSymbol, noParen, noQuantifier⟩ := op.kind_ne
    rw [Formula.outline, Outline.variableTokens_node rfl, variableTokens_append_cons operator noSymbol,
      ← ihl unbound (unapplied_of_kind operator noParen),
      ← ihr (unbound_of_kind operator noQuantifier) unapplied]
    simp
  | enclosed opens written closes ih =>
    rw [variableTokens_cons_other opens (by decide), variableTokens_append_cons closes (by decide),
      ← ih (unbound_of_kind opens (by decide)) (unapplied_of_kind closes (by decide))]
    exact (List.append_nil _).symm

theorem Definition.Written.variableTokens_eq {d : Definition} {tokens : List Token}
    (written : d.Written tokens) (before? next? : Option Token) :
    d.outline.variableTokens = variableTokens before? next? tokens := by
  obtain ⟨keyword, type, opens, body, closes⟩ := written
  rw [variableTokens_cons_other keyword (by decide), variableTokens_cons_other type (by decide),
    variableTokens_cons_other opens (by decide), variableTokens_append_cons closes (by decide),
    ← body.variableTokens_eq (unbound_of_kind opens (by decide)) (unapplied_of_kind closes (by decide)),
    Definition.outline, Outline.variableTokens_node rfl, Outline.variableTokensOf_cons,
    Outline.variableTokensOf_cons, Outline.variableTokens_node rfl]
  rfl

/-! ## Variables of sources -/

/-- The variables that a walk through a definition meets are the ones in its tree, each met once; and they
are those symbols of the source that have a quantifier directly in front or no opening parenthesis directly
behind, each in its turn. -/
theorem variablesMet_in_text {source : String} {d : Definition} (read : parse source = .ok d) :
    ∃ tokens, tokenize source = .ok tokens ∧
      d.variablesMet.map Variable.token = variableTokens none none tokens ∧
      d.variablesMet = d.outline.preorder.filterMap Node.var? ∧
      d.variablesMet.Pairwise (fun first later => first.token.offset < later.token.offset) := by
  obtain ⟨stop, whole⟩ := parse_eq_ok.mp read
  rcases tokenize_cases source with
    ⟨before, place, lexed, hitems, ordinary⟩ | ⟨before, place, -, hitems, ordinary⟩
  · have written : d.Written before := (parse_eq_ok_iff_of_tokens hitems rfl ordinary).mp read
    have met : d.variablesMet = d.outline.preorder.filterMap Node.var? := d.outline.filterMap_walk 0
    have stands : d.variablesMet.map Variable.token = variableTokens none none (before ++ [.finish place]) := by
      have finish : (Token.finish place).kind = .finish := rfl
      rw [met, variableTokens_append_cons finish (by decide), ← written.variableTokens_eq]
      exact (List.append_nil _).symm
    refine ⟨before ++ [.finish place], lexed, stands, met, ?_⟩
    obtain ⟨ordered, -⟩ := yieldedTokens_ordered source
    rw [yieldedTokens, hitems, Item.filterMap_token?] at ordered
    have sorted := ordered.sublist (@variableTokens_sublist none none _)
    rw [← stands, List.pairwise_map] at sorted
    exact sorted
  · rw [wholeReading, hitems] at whole
    exact absurd whole (not_matched_whole ordinary)

/-- A bound variable may stand before a parenthesis, and `in` may be a variable, bound or not, the name of a
predicate and that of a function. -/
theorem variablesMet_spelled_in :
    ∃ d, parse "def type[g] \x7b forall x (exists in in(in(in, y), x)) \x7d" = .ok d ∧
      d.variablesMet.map Variable.token =
        [⟨.symbol, "x", 21, 1⟩, ⟨.symbol, "in", 31, 2⟩, ⟨.symbol, "in", 40, 2⟩, ⟨.symbol, "y", 44, 1⟩,
         ⟨.symbol, "x", 48, 1⟩] := by
  let symbol (spelling : String) (offset length : Nat) : Token := ⟨.symbol, spelling, offset, length⟩
  let d : Definition := ⟨⟨.define, "def", 0, 3⟩, ⟨⟨.type, "type[g]", 4, 7⟩⟩,
    .quantifier ⟨.universal, "forall", 14, 6⟩ .universal ⟨symbol "x" 21 1⟩
      (.quantifier ⟨.existential, "exists", 24, 6⟩ .existential ⟨symbol "in" 31 2⟩
        (.predicate (.membership ⟨symbol "in" 34 2⟩)
          [.function (symbol "in" 37 2) [.var ⟨symbol "in" 40 2⟩, .var ⟨symbol "y" 44 1⟩],
           .var ⟨symbol "x" 48 1⟩]))⟩
  have read : parse "def type[g] \x7b forall x (exists in in(in(in, y), x)) \x7d" = .ok d := by
    decide +kernel
  have lexed : tokenize "def type[g] \x7b forall x (exists in in(in(in, y), x)) \x7d" = .ok
      [⟨.define, "def", 0, 3⟩, ⟨.type, "type[g]", 4, 7⟩, ⟨.leftBrace, "\x7b", 12, 1⟩,
       ⟨.universal, "forall", 14, 6⟩, symbol "x" 21 1, ⟨.leftParen, "(", 23, 1⟩,
       ⟨.existential, "exists", 24, 6⟩, symbol "in" 31 2, symbol "in" 34 2, ⟨.leftParen, "(", 36, 1⟩,
       symbol "in" 37 2, ⟨.leftParen, "(", 39, 1⟩, symbol "in" 40 2, ⟨.comma, ",", 42, 1⟩,
       symbol "y" 44 1, ⟨.rightParen, ")", 45, 1⟩, ⟨.comma, ",", 46, 1⟩, symbol "x" 48 1,
       ⟨.rightParen, ")", 49, 1⟩, ⟨.rightParen, ")", 50, 1⟩, ⟨.rightBrace, "\x7d", 52, 1⟩,
       .finish 53] := by
    rfl
  obtain ⟨tokens, lexed', stands, -⟩ := variablesMet_in_text read
  cases lexed.symm.trans lexed'
  exact ⟨d, read, stands⟩

end Definiens
