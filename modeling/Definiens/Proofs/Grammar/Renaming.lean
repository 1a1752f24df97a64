import Definiens.Proofs.Grammar.Anchors
import Definiens.Proofs.Grammar.Offence

/-!
# What a parse does not depend on

Of a token the parser looks at its kind, and at its text only to know the symbol for membership.  So tokens
may be exchanged for others of that sort, one by one, and nothing becomes of it but the exchange: what they
write is the tree with its tokens exchanged, and what they begin is begun as before.
-/

namespace Definiens

/-! ## Exchanging tokens -/

/-- The tokens are of one kind, and both or neither are the symbol for membership. -/
@[mk_iff alike_iff]
structure Token.Alike (token token' : Token) : Prop where
  kind_eq : token'.kind = token.kind
  membership : token'.kind = .symbol ∧ token'.text = PredicateName.membershipSymbol ↔
    token.kind = .symbol ∧ token.text = PredicateName.membershipSymbol

instance (token token' : Token) : Decidable (token.Alike token') :=
  decidable_of_iff (_ ∧ _) (Token.alike_iff token token').symm

/-- The token that stands in the second list where the given one stands in the first. -/
def Token.counterpart (tokens tokens' : List Token) (token : Token) : Token :=
  tokens'[tokens.idxOf token]?.getD token

section

variable (exchange : Token → Token)

def PredicateName.mapToken : PredicateName → PredicateName
  | .type literal => .type ⟨exchange literal.token⟩
  | .membership literal => .membership ⟨exchange literal.token⟩

mutual

def Term.mapTokens : Term → Term
  | .var v => .var ⟨exchange v.token⟩
  | .function token args => .function (exchange token) (Term.listMapTokens args)

def Term.listMapTokens : List Term → List Term
  | [] => []
  | term :: terms => term.mapTokens :: Term.listMapTokens terms

end

def Formula.mapTokens : Formula → Formula
  | .equal token lhs rhs =>
    .equal (exchange token) (lhs.mapTokens exchange) (rhs.mapTokens exchange)
  | .negation token inner => .negation (exchange token) inner.mapTokens
  | .connective token op lhs rhs =>
    .connective (exchange token) op lhs.mapTokens rhs.mapTokens
  | .quantifier token kind bound body =>
    .quantifier (exchange token) kind ⟨exchange bound.token⟩ body.mapTokens
  | .predicate name args =>
    .predicate (name.mapToken exchange) (Term.listMapTokens exchange args)

def Definition.mapTokens (d : Definition) : Definition :=
  ⟨exchange d.token, ⟨exchange d.name.token⟩, d.body.mapTokens exchange⟩

end

namespace Token

theorem Alike.refl (token : Token) : token.Alike token :=
  ⟨rfl, Iff.rfl⟩

theorem Alike.symm {token token' : Token} (alike : token.Alike token') : token'.Alike token :=
  ⟨alike.kind_eq.symm, alike.membership.symm⟩

variable {tokens tokens' : List Token}

theorem counterpart_eq (once : tokens.Nodup) (same : tokens.length = tokens'.length) {place : Nat}
    {token : Token} (here : tokens[place]? = some token) :
    tokens'[place]? = some (counterpart tokens tokens' token) := by
  obtain ⟨inside, rfl⟩ := List.getElem?_eq_some_iff.mp here
  rw [counterpart, once.idxOf_getElem place inside, List.getElem?_eq_getElem (same ▸ inside)]
  rfl

theorem map_counterpart (once : tokens.Nodup) (same : tokens.length = tokens'.length) :
    tokens.map (counterpart tokens tokens') = tokens' := by
  apply List.ext_getElem?
  intro place
  rw [List.getElem?_map]
  rcases here : tokens[place]? with _ | token
  · have outside := List.getElem?_eq_none_iff.mp here
    exact (List.getElem?_eq_none (same ▸ outside)).symm
  · exact (counterpart_eq once same here).symm

theorem alike_counterpart (alike : List.Forall₂ Alike tokens tokens') (token : Token) :
    token.Alike (counterpart tokens tokens' token) := by
  by_cases member : token ∈ tokens
  · have inside := List.idxOf_lt_length_of_mem member
    have inside' : tokens.idxOf token < tokens'.length := alike.length_eq ▸ inside
    have here := alike.get inside inside'
    rw [List.get_eq_getElem, List.getElem_idxOf inside] at here
    rw [counterpart, List.getElem?_eq_getElem inside']
    exact here
  · rw [counterpart, List.idxOf_eq_length member, List.getElem?_eq_none (Nat.le_of_eq alike.length_eq.symm)]
    exact .refl token

end Token

/-! ## Trees in writing -/

section

variable {exchange : Token → Token} (alike : ∀ token : Token, token.Alike (exchange token))
include alike

theorem PredicateName.Proper.mapToken {name : PredicateName} (proper : name.Proper) :
    (name.mapToken exchange).Proper := by
  cases proper with
  | type type => exact .type ((alike _).kind_eq.trans type)
  | membership symbol spelled =>
    obtain ⟨symbol', spelled'⟩ := (alike _).membership.mpr ⟨symbol, spelled⟩
    exact .membership symbol' spelled'

mutual

theorem Term.Written.mapTokens {t : Term} {tokens : List Token} (written : t.Written tokens) :
    (t.mapTokens exchange).Written (tokens.map exchange) :=
  match written with
  | .var symbol => .var ((alike _).kind_eq.trans symbol)
  | .function symbol opens inside closes => by
    rw [List.map_cons, List.map_cons, List.map_append]
    exact .function ((alike _).kind_eq.trans symbol) ((alike _).kind_eq.trans opens) inside.mapTokens
      ((alike _).kind_eq.trans closes)

theorem Term.ListWritten.mapTokens {ts : List Term} {tokens : List Token}
    (written : Term.ListWritten ts tokens) :
    Term.ListWritten (Term.listMapTokens exchange ts) (tokens.map exchange) :=
  match written with
  | .nil => .nil
  | .single written => .single written.mapTokens
  | .cons first separates rest => by
    rw [List.map_append, List.map_cons]
    exact .cons first.mapTokens ((alike _).kind_eq.trans separates) rest.mapTokens

end

omit alike in
theorem Formula.IsOpen.of_mapTokens {f : Formula} (isOpen : (f.mapTokens exchange).IsOpen) : f.IsOpen := by
  cases f <;> exact isOpen

/-- Tokens that are exchanged for others like them write the formula on the others. -/
theorem Formula.Written.mapTokens {f : Formula} {pairs : Nat} {tokens : List Token}
    (written : f.Written pairs tokens) :
    (f.mapTokens exchange).Written pairs (tokens.map exchange) := by
  induction written with
  | equal left equals right =>
    rw [List.map_append, List.map_cons]
    exact .equal (left.mapTokens alike) ((alike _).kind_eq.trans equals) (right.mapTokens alike)
  | @predicate name opening closing args inside proper opens written closes =>
    have named : exchange name.token = (name.mapToken exchange).token := by cases name <;> rfl
    rw [List.map_cons, List.map_cons, List.map_append, named]
    exact .predicate (proper.mapToken alike) ((alike _).kind_eq.trans opens) (written.mapTokens alike)
      ((alike _).kind_eq.trans closes)
  | negation bang written ih => exact .negation ((alike _).kind_eq.trans bang) ih
  | quantifier keyword symbol written ih =>
    exact .quantifier ((alike _).kind_eq.trans keyword) ((alike _).kind_eq.trans symbol) ih
  | connective left enclosed operator right ihl ihr =>
    rw [List.map_append, List.map_cons]
    exact .connective ihl (fun isOpen => enclosed isOpen.of_mapTokens)
      ((alike _).kind_eq.trans operator) ihr
  | enclosed opens written closes ih =>
    rw [List.map_cons, List.map_append]
    exact .enclosed ((alike _).kind_eq.trans opens) ih ((alike _).kind_eq.trans closes)

theorem Definition.Written.mapTokens {d : Definition} {tokens : List Token} (written : d.Written tokens) :
    (d.mapTokens exchange).Written (tokens.map exchange) := by
  obtain ⟨keyword, type, opens, body, closes⟩ := written
  simp only [List.map_cons, List.map_append]
  exact .intro ((alike _).kind_eq.trans keyword) ((alike _).kind_eq.trans type)
    ((alike _).kind_eq.trans opens) (body.mapTokens alike) ((alike _).kind_eq.trans closes)

theorem Sentence.map {tokens : List Token} (sentence : Sentence tokens) :
    Sentence (tokens.map exchange) := by
  obtain ⟨before, finish, rfl, derivable, ends⟩ := sentence
  obtain ⟨d, written⟩ := derivable.written
  refine ⟨before.map exchange, exchange finish, by simp, ?_, (alike _).kind_eq.trans ends⟩
  exact (written.mapTokens alike).derivable

end

/-! ## Two sources -/

/-- A source that is lexed to its end and is no definition is refused at a token before which its tokens
can be completed to a sentence, and with which they cannot. -/
theorem exists_offence {source : String} {tokens : List Token} (lexed : tokenize source = .ok tokens)
    (refused : ∀ d, parse source ≠ .ok d) :
    ∃ place token, tokens[place]? = some token ∧ parse source = .error (.unmatched token.offset) ∧
      (∃ more, Sentence (tokens.take place ++ more)) ∧
      ∀ more, ¬ Sentence (tokens.take (place + 1) ++ more) := by
  obtain ⟨hitems, before, last, rfl, -⟩ := items_of_tokenize lexed
  have noMatch : (wholeReading source).outcome = .noMatch := by
    rcases ended : (wholeReading source).outcome with ⟨d, stop⟩ | _ | offset
    · exact absurd (parse_eq_ok.mpr ⟨stop, ended⟩) (refused d)
    · rfl
    · obtain ⟨place, here⟩ := Reader.steady_whole.failed ended
      have member := List.mem_of_getElem? here
      simp [hitems] at member
  obtain ⟨place, token, looked, here, -, parsed⟩ := parse_of_noMatch_of_tokens hitems noMatch
  rw [wholeReading, hitems] at noMatch looked
  have inside : place ≤ (before ++ [Token.finish last]).length := by
    simp only [List.length_append, List.length_singleton]
    omega
  obtain ⟨more, -, sentence⟩ := exists_sentence_of_lt_reach (by omega) inside
  exact ⟨place, token, here, parsed, ⟨more, sentence⟩,
    fun more => not_sentence_of_noMatch rfl noMatch looked⟩

/-- Where tokens cannot be completed, others like them can be completed no further. -/
theorem offence_le {tokens tokens' : List Token} {exchange : Token → Token}
    (alike : ∀ token : Token, token.Alike (exchange token)) (exchanged : tokens'.map exchange = tokens)
    {place place' : Nat} (hopeless : ∀ more, ¬ Sentence (tokens.take (place + 1) ++ more))
    (completion : ∃ more, Sentence (tokens'.take place' ++ more)) : place' ≤ place := by
  obtain ⟨more, sentence⟩ := completion
  apply Nat.le_of_not_lt
  intro sooner
  have sentence' := sentence.map alike
  rw [List.map_append, List.map_take, exchanged, take_eq_append_drop sooner, List.append_assoc]
    at sentence'
  exact hopeless _ sentence'

theorem nodup_of_tokenize {source : String} {tokens : List Token} (lexed : tokenize source = .ok tokens) :
    tokens.Nodup := by
  obtain ⟨hitems, -⟩ := items_of_tokenize lexed
  obtain ⟨ordered, -⟩ := yieldedTokens_ordered source
  rw [yieldedTokens, hitems, Item.filterMap_token?] at ordered
  refine ordered.imp fun sooner same => ?_
  rw [same] at sooner
  exact Nat.lt_irrefl _ sooner

theorem parse_mapTokens {source source' : String} {tokens tokens' : List Token} {exchange : Token → Token}
    (lexed : tokenize source = .ok tokens) (lexed' : tokenize source' = .ok tokens')
    (alike : ∀ token : Token, token.Alike (exchange token)) (exchanged : tokens.map exchange = tokens')
    {d : Definition} (read : parse source = .ok d) :
    parse source' = .ok (d.mapTokens exchange) := by
  obtain ⟨hitems, before, last, rfl, ordinary⟩ := items_of_tokenize lexed
  obtain ⟨hitems', before', last', rfl, ordinary'⟩ := items_of_tokenize lexed'
  have written : d.Written before := (parse_eq_ok_iff_of_tokens hitems rfl ordinary).mp read
  rw [List.map_append, List.map_singleton] at exchanged
  have same : before.map exchange = before' := List.append_inj_left' exchanged rfl
  rw [parse_eq_ok_iff_of_tokens hitems' rfl ordinary', ← same]
  exact written.mapTokens alike

theorem mem_of_parse {source : String} {tokens : List Token} (lexed : tokenize source = .ok tokens)
    {d : Definition} (read : parse source = .ok d) : ∀ token ∈ d.tokens, token ∈ tokens := by
  intro token member
  obtain ⟨hitems, before, last, rfl, ordinary⟩ := items_of_tokenize lexed
  have written : d.Written before := (parse_eq_ok_iff_of_tokens hitems rfl ordinary).mp read
  rw [written.tokens_eq] at member
  exact List.mem_append_left _ (List.mem_of_mem_filter member)

/-- Two sources with tokens that are alike, one by one, are both definitions, and their trees differ by the
tokens in them alone, each of which stands in the other source at the same place; or both are refused, and
at the same place. -/
theorem parse_exchanged {source source' : String} {tokens tokens' : List Token}
    (lexed : tokenize source = .ok tokens) (lexed' : tokenize source' = .ok tokens')
    (alike : List.Forall₂ Token.Alike tokens tokens') :
    (∃ d, parse source = .ok d ∧
        parse source' = .ok (d.mapTokens (Token.counterpart tokens tokens')) ∧
        ∀ token ∈ d.tokens, ∃ place : Nat, tokens[place]? = some token ∧
          tokens'[place]? = some (Token.counterpart tokens tokens' token)) ∨
      ∃ (place : Nat) (token token' : Token), tokens[place]? = some token ∧
        tokens'[place]? = some token' ∧ parse source = .error (.unmatched token.offset) ∧
        parse source' = .error (.unmatched token'.offset) := by
  have once := nodup_of_tokenize lexed
  have alike' : List.Forall₂ Token.Alike tokens' tokens :=
    (alike.imp fun _ _ => Token.Alike.symm).flip
  have exchanged := Token.map_counterpart once alike.length_eq
  have exchanged' := Token.map_counterpart (nodup_of_tokenize lexed') alike'.length_eq
  by_cases accepted : ∃ d, parse source = .ok d
  · obtain ⟨d, read⟩ := accepted
    refine Or.inl ⟨d, read, ?_, fun token member => ?_⟩
    · exact parse_mapTokens lexed lexed' (Token.alike_counterpart alike) exchanged read
    · obtain ⟨place, here⟩ := List.mem_iff_getElem?.mp (mem_of_parse lexed read token member)
      exact ⟨place, here, Token.counterpart_eq once alike.length_eq here⟩
  · have accepted' : ∀ d, parse source' ≠ .ok d := fun d read =>
      accepted ⟨_, parse_mapTokens lexed' lexed (Token.alike_counterpart alike') exchanged' read⟩
    obtain ⟨place, token, here, refused, completion, hopeless⟩ :=
      exists_offence lexed fun d read => accepted ⟨d, read⟩
    obtain ⟨place', token', here', refused', completion', hopeless'⟩ := exists_offence lexed' accepted'
    -- neither source can be completed any further than the other one
    have same : place = place' := Nat.le_antisymm
      (offence_le (Token.alike_counterpart alike) exchanged hopeless' completion)
      (offence_le (Token.alike_counterpart alike') exchanged' hopeless completion')
    subst same
    exact Or.inr ⟨place, token, token', here, here', refused, refused'⟩

/-- Both formulas end with `in` without arguments.  It could still be the left side of an equality, so what
both are refused for is the brace behind it. -/
theorem membership_alone_refused :
    ∃ tokens tokens', tokenize "def type[a]\x7bin(f(x)) => in\x7d" = .ok tokens ∧
      tokenize " def type[b c] \x7b\n in (g9(z-1) ) => in \x7d" = .ok tokens' ∧
      List.Forall₂ Token.Alike tokens tokens' ∧
      ∃ (place : Nat) (token token' : Token), tokens[place]? = some token ∧
        tokens'[place]? = some token' ∧
        parse "def type[a]\x7bin(f(x)) => in\x7d" = .error (.unmatched token.offset) ∧
        parse " def type[b c] \x7b\n in (g9(z-1) ) => in \x7d" =
          .error (.unmatched token'.offset) := by
  have refused : parse "def type[a]\x7bin(f(x)) => in\x7d" = .error (.unmatched 26) := by
    decide +kernel
  have lexed : tokenize "def type[a]\x7bin(f(x)) => in\x7d" = .ok
      [⟨.define, "def", 0, 3⟩, ⟨.type, "type[a]", 4, 7⟩, ⟨.leftBrace, "\x7b", 11, 1⟩,
       ⟨.symbol, "in", 12, 2⟩, ⟨.leftParen, "(", 14, 1⟩, ⟨.symbol, "f", 15, 1⟩,
       ⟨.leftParen, "(", 16, 1⟩, ⟨.symbol, "x", 17, 1⟩, ⟨.rightParen, ")", 18, 1⟩,
       ⟨.rightParen, ")", 19, 1⟩, ⟨.implies, "=>", 21, 2⟩, ⟨.symbol, "in", 24, 2⟩,
       ⟨.rightBrace, "\x7d", 26, 1⟩, .finish 27] := by
    rfl
  have lexed' : tokenize " def type[b c] \x7b\n in (g9(z-1) ) => in \x7d" = .ok
      [⟨.define, "def", 1, 3⟩, ⟨.type, "type[b c]", 5, 9⟩, ⟨.leftBrace, "\x7b", 15, 1⟩,
       ⟨.symbol, "in", 18, 2⟩, ⟨.leftParen, "(", 21, 1⟩, ⟨.symbol, "g9", 22, 2⟩,
       ⟨.leftParen, "(", 24, 1⟩, ⟨.symbol, "z-1", 25, 3⟩, ⟨.rightParen, ")", 28, 1⟩,
       ⟨.rightParen, ")", 30, 1⟩, ⟨.implies, "=>", 32, 2⟩, ⟨.symbol, "in", 35, 2⟩,
       ⟨.rightBrace, "\x7d", 38, 1⟩, .finish 39] := by
    rfl
  refine ⟨_, _, lexed, lexed', by decide, ?_⟩
  rcases parse_exchanged lexed lexed' (by decide) with ⟨d, read, -⟩ | both
  · rw [refused] at read
    cases read
  · exact both

end Definiens
