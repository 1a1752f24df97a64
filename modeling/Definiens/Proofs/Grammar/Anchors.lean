import Definiens.Tree.Outline
import Definiens.Proofs.Grammar.Calls
import Definiens.Proofs.Grammar.Soundness
import Definiens.Proofs.Token.Tiling

/-!
# What becomes of the tokens

A tree keeps the tokens that it was read from, all but the punctuation: in the order in which its parts
are written, its anchors are the tokens that a rule has passed over without the parentheses, braces and
commas.  Each node stands on a token of the kind that writes it.  This is read off from how trees are
written, so it does not matter which alternatives have been tried and given up on the way.
-/

namespace Definiens

open Text

/-! ## Tokens in a tree -/

mutual

def Term.tokens : Term → List Token
  | .var v => [v.token]
  | .function token args => token :: Term.listTokens args

def Term.listTokens : List Term → List Token
  | [] => []
  | term :: terms => term.tokens ++ Term.listTokens terms

end

/-- The tokens that a formula keeps, as they are written: those of equalities and connectives stand
between the two sides. -/
def Formula.tokens : Formula → List Token
  | .equal token lhs rhs => lhs.tokens ++ token :: rhs.tokens
  | .negation token inner => token :: inner.tokens
  | .connective token _ lhs rhs => lhs.tokens ++ token :: rhs.tokens
  | .quantifier token _ bound body => token :: bound.token :: body.tokens
  | .predicate name args => name.token :: Term.listTokens args

def Definition.tokens (d : Definition) : List Token :=
  d.token :: d.name.token :: d.body.tokens

/-- The kinds of the tokens that no tree keeps. -/
def Kind.isPunctuation : Kind → Bool
  | .leftParen | .rightParen | .leftBrace | .rightBrace | .comma => true
  | _ => false

def unpunctuated (tokens : List Token) : List Token :=
  tokens.filter fun token => !token.kind.isPunctuation

/-- The token that a node stands on is one that writes it. -/
def Node.Anchored : Node → Prop
  | .definition token => token.kind = .define
  | .equal token => token.kind = .equals
  | .negation token => token.kind = .bang
  | .connective token op => token.kind = op.kind
  | .quantifier token kind => token.kind = kind.kind
  | .predicate name => name.Proper
  | .var v => v.token.kind = .symbol
  | .function token => token.kind = .symbol
  | .type literal => literal.token.kind = .type
  | .symbol literal =>
    literal.token.kind = .symbol ∧ literal.token.text = PredicateName.membershipSymbol

namespace Rule

def tokens : (rule : Rule) → rule.Result → List Token
  | .definition, d => d.tokens
  | .formula, f | .binaryConnective, f | .binaryLhs, f | .parenthesized, f | .quantifier, f
  | .negation, f | .equality, f | .predicate, f => f.tokens
  | .term, t | .function, t => t.tokens
  | .var, v => [v.token]
  | .termList, ts => Term.listTokens ts
  | .atEnd, token => [token]

def nodes : (rule : Rule) → rule.Result → List Node
  | .definition, d => d.outline.preorder
  | .formula, f | .binaryConnective, f | .binaryLhs, f | .parenthesized, f | .quantifier, f
  | .negation, f | .equality, f | .predicate, f => f.outline.preorder
  | .term, t | .function, t => t.outline.preorder
  | .var, v => [.var v]
  | .termList, ts => Outline.preorders (Term.outlines ts)
  | .atEnd, _ => []

/-- The tokens write what the rule gives. -/
def Writes : (rule : Rule) → rule.Result → List Token → Prop
  | .definition, d => d.Written
  | .formula, f | .binaryConnective, f | .binaryLhs, f | .parenthesized, f | .quantifier, f
  | .negation, f | .equality, f | .predicate, f => fun tokens => ∃ pairs, f.Written pairs tokens
  | .term, t | .function, t => t.Written
  | .var, v => Term.Written (.var v)
  | .termList, ts => Term.ListWritten ts
  | .atEnd, finish => fun tokens => tokens = [finish] ∧ finish.kind = .finish

/-- What the result of a rule has to do with the tokens that the rule has passed over. -/
structure Accounts (rule : Rule) (value : rule.Result) (passed : List Token) : Prop where
  tokens_eq : rule.tokens value = unpunctuated passed
  /-- At the end of the source there is one finish and nothing else. -/
  finish : rule = .atEnd → ∃ token, passed = [token] ∧ token.kind = .finish
  anchored : ∀ node ∈ rule.nodes value, node.Anchored

end Rule

/-! ## Trees in writing -/

section

variable {token opening closing : Token} {kind kind' : Kind} {tokens : List Token}

theorem unpunctuated_append (before behind : List Token) :
    unpunctuated (before ++ behind) = unpunctuated before ++ unpunctuated behind := by
  rw [unpunctuated, List.filter_append]
  rfl

theorem unpunctuated_cons_keep (known : token.kind = kind) (keeps : kind.isPunctuation = false) :
    unpunctuated (token :: tokens) = token :: unpunctuated tokens := by
  simp [unpunctuated, known, keeps]

theorem unpunctuated_cons_drop (known : token.kind = kind) (drops : kind.isPunctuation = true) :
    unpunctuated (token :: tokens) = unpunctuated tokens := by
  simp [unpunctuated, known, drops]

theorem unpunctuated_enclosed (opens : opening.kind = kind) (closes : closing.kind = kind')
    (drops : kind.isPunctuation = true) (drops' : kind'.isPunctuation = true) :
    unpunctuated (opening :: (tokens ++ [closing])) = unpunctuated tokens := by
  rw [unpunctuated_cons_drop opens drops, unpunctuated_append, unpunctuated_cons_drop closes drops']
  exact List.append_nil _

end

theorem Connective.isPunctuation_kind (op : Connective) : op.kind.isPunctuation = false := by
  cases op <;> rfl

theorem Quantifier.isPunctuation_kind (kind : Quantifier) : kind.kind.isPunctuation = false := by
  cases kind <;> rfl

theorem PredicateName.Proper.isPunctuation {name : PredicateName} (proper : name.Proper) :
    name.token.kind.isPunctuation = false := by
  cases proper with
  | type type => rw [PredicateName.token, type]; rfl
  | membership symbol => rw [PredicateName.token, symbol]; rfl

mutual

theorem Term.Written.tokens_eq {t : Term} {tokens : List Token} (written : t.Written tokens) :
    t.tokens = unpunctuated tokens :=
  match written with
  | .var symbol => by
    rw [unpunctuated_cons_keep symbol rfl]
    rfl
  | .function symbol opens inside closes => by
    rw [unpunctuated_cons_keep symbol rfl,
      unpunctuated_enclosed opens closes rfl rfl, ← inside.tokens_eq]
    rfl

theorem Term.ListWritten.tokens_eq {ts : List Term} {tokens : List Token}
    (written : Term.ListWritten ts tokens) : Term.listTokens ts = unpunctuated tokens :=
  match written with
  | .nil => rfl
  | .single written => by
    rw [← written.tokens_eq]
    exact List.append_nil _
  | .cons first separates rest => by
    rw [unpunctuated_append, unpunctuated_cons_drop separates rfl, ← first.tokens_eq,
      ← rest.tokens_eq]
    rfl

end

mutual

theorem Term.Written.anchored {t : Term} {tokens : List Token} (written : t.Written tokens) :
    ∀ node ∈ t.outline.preorder, node.Anchored :=
  match written with
  | .var symbol => by
    simpa [Term.outline, Outline.preorder, Outline.preorders, Node.Anchored] using symbol
  | .function symbol _ inside _ => by
    simpa [Term.outline, Outline.preorder, Node.Anchored] using ⟨symbol, inside.anchored⟩

theorem Term.ListWritten.anchored {ts : List Term} {tokens : List Token}
    (written : Term.ListWritten ts tokens) :
    ∀ node ∈ Outline.preorders (Term.outlines ts), node.Anchored :=
  match written with
  | .nil => nofun
  | .single written => by
    simpa [Term.outlines, Outline.preorders] using written.anchored
  | .cons first _ rest => by
    rw [Term.outlines, Outline.preorders, List.forall_mem_append]
    exact ⟨first.anchored, rest.anchored⟩

end

/-- A formula keeps the tokens that write it, and no parentheses. -/
theorem Formula.Written.tokens_eq {f : Formula} {pairs : Nat} {tokens : List Token}
    (written : f.Written pairs tokens) : f.tokens = unpunctuated tokens := by
  induction written with
  | equal left equals right =>
    rw [unpunctuated_append, unpunctuated_cons_keep equals rfl, ← left.tokens_eq,
      ← right.tokens_eq, Formula.tokens]
  | predicate proper opens inside closes =>
    rw [unpunctuated_cons_keep rfl proper.isPunctuation,
      unpunctuated_enclosed opens closes rfl rfl, ← inside.tokens_eq,
      Formula.tokens]
  | negation bang written ih =>
    rw [unpunctuated_cons_keep bang rfl, ← ih, Formula.tokens]
  | quantifier keyword symbol written ih =>
    rw [unpunctuated_cons_keep keyword (Quantifier.isPunctuation_kind _), unpunctuated_cons_keep symbol rfl, ← ih,
      Formula.tokens]
  | connective left enclosed operator right ihl ihr =>
    rw [unpunctuated_append, unpunctuated_cons_keep operator (Connective.isPunctuation_kind _), ← ihl, ← ihr, Formula.tokens]
  | enclosed opens written closes ih =>
    rw [unpunctuated_enclosed opens closes rfl rfl, ih]

theorem Formula.Written.anchored {f : Formula} {pairs : Nat} {tokens : List Token}
    (written : f.Written pairs tokens) : ∀ node ∈ f.outline.preorder, node.Anchored := by
  induction written with
  | equal left equals right =>
    simp only [Formula.outline, Outline.preorder, Outline.preorders, List.forall_mem_cons,
      List.forall_mem_append, List.append_nil]
    exact ⟨equals, left.anchored, right.anchored⟩
  | predicate proper opens inside closes =>
    rw [Formula.outline, Outline.preorder, List.forall_mem_cons]
    exact ⟨proper, inside.anchored⟩
  | negation bang written ih =>
    simp only [Formula.outline, Outline.preorder, Outline.preorders, List.forall_mem_cons,
      List.append_nil]
    exact ⟨bang, ih⟩
  | quantifier keyword symbol written ih =>
    simp only [Formula.outline, Outline.preorder, Outline.preorders, List.forall_mem_cons,
      List.append_nil, List.singleton_append]
    exact ⟨keyword, symbol, ih⟩
  | connective left enclosed operator right ihl ihr =>
    simp only [Formula.outline, Outline.preorder, Outline.preorders, List.forall_mem_cons,
      List.forall_mem_append, List.append_nil]
    exact ⟨operator, ihl, ihr⟩
  | enclosed opens written closes ih => exact ih

theorem Definition.Written.tokens_eq {d : Definition} {tokens : List Token}
    (written : d.Written tokens) : d.tokens = unpunctuated tokens := by
  obtain ⟨keyword, type, opens, body, closes⟩ := written
  rw [unpunctuated_cons_keep keyword rfl, unpunctuated_cons_keep type rfl,
    unpunctuated_enclosed opens closes rfl rfl, ← body.tokens_eq,
    Definition.tokens]

theorem Definition.Written.anchored {d : Definition} {tokens : List Token}
    (written : d.Written tokens) : ∀ node ∈ d.outline.preorder, node.Anchored := by
  obtain ⟨keyword, type, -, body, -⟩ := written
  simp only [Definition.outline, Outline.preorder, Outline.preorders, List.forall_mem_cons,
    List.append_nil, List.singleton_append]
  exact ⟨keyword, type, body.anchored⟩

/-! ## Rules -/

namespace Rule

theorem Writes.accounts {rule : Rule} {value : rule.Result} {tokens : List Token}
    (writes : rule.Writes value tokens) : rule.Accounts value tokens := by
  cases rule with
  | definition => exact ⟨writes.tokens_eq, nofun, writes.anchored⟩
  | formula | binaryConnective | binaryLhs | parenthesized | quantifier | negation | equality
  | predicate =>
    obtain ⟨pairs, written⟩ := writes
    exact ⟨written.tokens_eq, nofun, written.anchored⟩
  | term | function => exact ⟨writes.tokens_eq, nofun, writes.anchored⟩
  | var => exact ⟨writes.tokens_eq, nofun, writes.anchored⟩
  | termList => exact ⟨writes.tokens_eq, nofun, writes.anchored⟩
  | atEnd =>
    obtain ⟨rfl, finish⟩ := writes
    have kept : unpunctuated [value] = [value] := unpunctuated_cons_keep finish rfl
    exact ⟨kept.symm, fun _ => ⟨value, rfl, finish⟩, nofun⟩

variable {items : List Item} {start stop : Nat}

theorem spans_of_alternative {f : Formula}
    (read : (binaryLhs.read items start).outcome = .matched (f, stop)) :
    Spans items start stop fun tokens => ∃ pairs, f.Written pairs tokens := by
  have inner {place stop : Nat} {f : Formula} (_ : start < place) (_ : place ≤ items.length)
      (read : (formula.read items place).outcome = .matched (f, stop)) :
      Spans items place stop fun tokens => ∃ pairs, f.Written pairs tokens :=
    spans_of_matched_formula read
  refine (spans_of_matched_binaryLhs inner read).mono ?_
  rintro tokens ⟨pairs, written, -⟩
  exact ⟨pairs, written⟩

/-- What a rule matches is written by the tokens that it passes over. -/
theorem spans_of_matched (rule : Rule) {value : rule.Result}
    (read : (rule.read items start).outcome = .matched (value, stop)) :
    Spans items start stop (rule.Writes value) := by
  cases rule with
  | definition => exact spans_of_matched_definition read
  | formula => exact spans_of_matched_formula read
  | binaryConnective =>
    -- it is the first alternative of a formula
    have first : (formula.read items start).outcome = .matched (value, stop) := by
      rw [read_formula_eq]
      exact Reader.matched_orElse.mpr (Or.inl read)
    exact spans_of_matched_formula first
  | binaryLhs => exact spans_of_alternative read
  | parenthesized => exact spans_of_alternative (matched_binaryLhs.mpr (Or.inl read))
  | quantifier => exact spans_of_alternative (matched_binaryLhs.mpr (Or.inr (Or.inl read)))
  | negation =>
    exact spans_of_alternative (matched_binaryLhs.mpr (Or.inr (Or.inr (Or.inl read))))
  | equality =>
    exact spans_of_alternative (matched_binaryLhs.mpr (Or.inr (Or.inr (Or.inr (Or.inl read)))))
  | predicate =>
    obtain ⟨name, args, rfl, here, proper, hargs⟩ := matched_predicate.mp read
    obtain ⟨opening, closing, inside, opens, written, closes, stands⟩ :=
      spans_of_matched_arguments (spans_of_matched_terms items _).2 hargs
    exact ⟨_, .cons here stands, 0, .predicate proper opens written closes⟩
  | term => exact (spans_of_matched_terms items start).1 _ _ read
  | function =>
    exact (spans_of_matched_terms items start).1 _ _ (matched_term.mpr (Or.inl read))
  | var =>
    obtain ⟨here, symbol, rfl⟩ := matched_var.mp read
    exact ⟨_, .single here, .var symbol⟩
  | termList =>
    cases value with
    | nil =>
      obtain ⟨-, rfl⟩ := matched_termList_nil.mp read
      exact ⟨[], .nil, .nil⟩
    | cons t ts => exact (spans_of_matched_terms items start).2 _ _ (matched_termList_cons.mp read)
  | atEnd =>
    rw [read_atEnd] at read
    obtain ⟨here, finish, rfl⟩ := Reader.matched_expect.mp read
    exact ⟨_, .single here, rfl, finish⟩

end Rule

/-! ## Places -/

/-- What stands between two places is a part of the items. -/
theorem Between.sublist {items : List Item} {start stop : Nat} {tokens : List Token}
    (stands : Between items start stop tokens) :
    tokens.Sublist (items.filterMap Item.token?) := by
  have begins : tokens.map Item.token <+: items.drop start := by
    induction tokens generalizing start with
    | nil => exact List.nil_prefix
    | cons token tokens ih =>
      obtain ⟨here, others⟩ := stands
      obtain ⟨inside, same⟩ := List.getElem?_eq_some_iff.mp here
      rw [List.drop_eq_getElem_cons inside, same]
      exact List.cons_prefix_cons.mpr ⟨rfl, ih others⟩
  have part := (begins.sublist.trans (List.drop_sublist start items)).filterMap Item.token?
  rwa [Item.filterMap_token?] at part

/-- The tokens of a text lie in it one behind the other. -/
theorem Item.Lexed.ordered {start : Nat} {text : List Char} {items : List Item}
    (lexed : Lexed start text items) :
    (items.filterMap Item.token?).Pairwise (fun first later => first.offset < later.offset) ∧
      ∀ token ∈ items.filterMap Item.token?,
        start ≤ token.offset ∧ token.offset + token.length ≤ start + byteLength text := by
  induction lexed with
  | @finish start gap blank =>
    refine ⟨List.pairwise_singleton _ _, ?_⟩
    intro token member
    cases List.mem_singleton.mp member
    exact ⟨Nat.le_add_right _ _, Nat.le_refl _⟩
  | failure => exact ⟨.nil, nofun⟩
  | @token start gap lexeme behind kind items blank solid found others ih =>
    obtain ⟨pairwise, inside⟩ := ih
    have some := List.length_pos_iff.mpr (Lexeme.first?_proper found).1
    have size := length_le_byteLength lexeme
    simp only [List.filterMap_cons, Item.token?, List.pairwise_cons, List.forall_mem_cons,
      byteLength_append]
    refine ⟨⟨?_, pairwise⟩, by omega, ?_⟩
    · intro later member
      have behind := inside later member
      omega
    · intro later member
      have behind := inside later member
      omega

theorem yieldedTokens_ordered (source : String) :
    (yieldedTokens source).Pairwise (fun first later => first.offset < later.offset) ∧
      ∀ token ∈ yieldedTokens source, token.offset + token.length ≤ byteLength source.toList := by
  obtain ⟨pairwise, inside⟩ := (lexed_items source).ordered
  refine ⟨pairwise, fun token member => ?_⟩
  obtain ⟨back, trimmed⟩ := trimmed_trim source.toList
  have split := congrArg byteLength trimmed.split
  have last := (inside token member).2
  simp only [byteLength_append, trimmedOffset] at split last
  omega

/-! ## Calls -/

/-- Whatever a session has been through, a rule that matches accounts for each token from where it has
begun to where it has ended; and the tokens that it keeps lie in the source one behind the other. -/
theorem match_accounts_for_tokens {source : String} {moves : List Move}
    {journal : Option (List Entry)} {rule : Rule} {value : rule.Result}
    (matched : (Parser.call rule (Session.moment source moves journal)).1 = .matched value) :
    let s := Session.moment source moves journal
    ∃ passed, Between (TokenStream.ofSource source).items s.position
        (Parser.call rule s).2.position passed ∧
      rule.Accounts value passed ∧
      (rule.tokens value).Pairwise (fun first later => first.offset < later.offset) ∧
      ∀ token ∈ rule.tokens value, token.offset + token.length ≤ byteLength source.toList := by
  intro s
  have along : s.cursor.Over (TokenStream.ofSource source).items := Session.over_moment
  have told := Parser.call_refines rule _ s along
  obtain ⟨passed, stands, writes⟩ := rule.spans_of_matched (told.outcome_of_matched matched)
  have accounts := writes.accounts
  have kept : (rule.tokens value).Sublist (yieldedTokens source) := by
    rw [accounts.tokens_eq]
    exact List.filter_sublist.trans stands.sublist
  obtain ⟨pairwise, inside⟩ := yieldedTokens_ordered source
  exact ⟨passed, stands, accounts, pairwise.sublist kept,
    fun token member => inside token (kept.subset member)⟩

/-- In the midst of a source a connective is read up to a brace; its left side could have been a
predicate, had there been no equals sign behind it. -/
theorem connective_accounts_for_tokens :
    ∃ f, (Parser.call .formula (Session.moment "!(in(x) = y) => type[a](z, x) \x7d"
        [.next, .checkpoint, .next, .rollback] none)).1 = .matched f ∧
      f.tokens.map Token.text = ["in", "x", "=", "y", "=>", "type[a]", "z", "x"] ∧
      ∃ passed stop, Between (TokenStream.ofSource "!(in(x) = y) => type[a](z, x) \x7d").items 1 stop
        passed ∧ Rule.formula.Accounts f passed := by
  let f : Formula := .connective ⟨.implies, "=>", 13, 2⟩ .implies
    (.equal ⟨.equals, "=", 8, 1⟩
      (.function ⟨.symbol, "in", 2, 2⟩ [.var ⟨⟨.symbol, "x", 5, 1⟩⟩])
      (.var ⟨⟨.symbol, "y", 10, 1⟩⟩))
    (.predicate (.type ⟨⟨.type, "type[a]", 16, 7⟩⟩)
      [.var ⟨⟨.symbol, "z", 24, 1⟩⟩, .var ⟨⟨.symbol, "x", 27, 1⟩⟩])
  have matched : (Parser.call .formula (Session.moment "!(in(x) = y) => type[a](z, x) \x7d"
      [.next, .checkpoint, .next, .rollback] none)).1 = .matched f := by
    decide +kernel
  obtain ⟨passed, stands, accounts, -⟩ := match_accounts_for_tokens matched
  exact ⟨f, matched, rfl, passed, _, stands, accounts⟩

end Definiens
