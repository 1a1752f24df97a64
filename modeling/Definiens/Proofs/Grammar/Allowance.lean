import Definiens.Proofs.Grammar.Extent

/-!
# The allowance is never used up

How deep rules nest at a place is bounded by the rule and by the number of items ahead: a rule calls
another one at the same place only if that one ranks lower, and anywhere else it has passed an item.
So an allowance that meets the bound is as good as any larger one, and `Rule.read`, which always has
such an allowance, obeys the grammar without mentioning it.
-/

namespace Definiens

namespace Rule

/-- How many rules can nest at one place, the rule itself included. -/
def rank : Rule → Nat
  | .formula => 6
  | .binaryConnective => 5
  | .binaryLhs => 4
  | .parenthesized => 3
  | .quantifier => 3
  | .negation => 3
  | .equality => 3
  | .predicate => 3
  | .termList => 3
  | .term => 2
  | .function => 1
  | .var => 1
  | .definition => 1
  | .atEnd => 1

def need (rule : Rule) (ahead : Nat) : Nat := 4 * ahead + rule.rank

theorem need_pos (rule : Rule) (ahead : Nat) : 0 < rule.need ahead := by
  cases rule <;> simp [need, rank]

theorem need_le (rule : Rule) (ahead : Nat) : rule.need ahead ≤ 4 * ahead + 6 := by
  cases rule <;> simp [need, rank]

end Rule

namespace Reader

variable {α β : Type} {items : List Item} {start : Nat}

/-! ## Equal readings of equal parts -/

theorem bind_congr {q q' : Reader α} {f g : α → Reader β}
    (first : q items start = q' items start)
    (second : ∀ value stop, (q items start).outcome = .matched (value, stop) →
      f value items stop = g value items stop) :
    (q >>= f) items start = (q' >>= g) items start := by
  simp only [Bind.bind, andThen, ← first]
  rcases hq : q items start with ⟨⟨value, stop⟩ | _ | offset, reach⟩
  · dsimp only
    rw [second value stop (congrArg Reading.outcome hq)]
  · rfl
  · rfl

theorem orElse_congr {p p' q q' : Reader α} (first : p items start = p' items start)
    (second : q items start = q' items start) :
    (p.orElse q) items start = (p'.orElse q') items start := by
  simp only [orElse, first, second]

theorem ifNext_congr {kind : Kind} {yes yes' no no' : Reader α}
    (found : start < items.length → yes items (start + 1) = yes' items (start + 1))
    (absent : no items start = no' items start) :
    ifNext kind yes no items start = ifNext kind yes' no' items start := by
  simp only [ifNext, absent]
  rcases here : items[start]? with _ | token | offset
  · rfl
  · obtain ⟨inside, -⟩ := List.getElem?_eq_some_iff.mp here
    dsimp only
    rw [found inside]
  · rfl

theorem of_matched_nextToken {token : Token} {stop : Nat}
    (ended : (nextToken items start).outcome = .matched (token, stop)) :
    start < items.length ∧ stop = start + 1 := by
  obtain ⟨here, rfl⟩ := matched_nextToken.mp ended
  obtain ⟨inside, -⟩ := List.getElem?_eq_some_iff.mp here
  exact ⟨inside, rfl⟩

theorem of_matched_expect {kind : Kind} {token : Token} {stop : Nat}
    (ended : (expect kind items start).outcome = .matched (token, stop)) :
    start < items.length ∧ stop = start + 1 := by
  obtain ⟨here, -, rfl⟩ := matched_expect.mp ended
  obtain ⟨inside, -⟩ := List.getElem?_eq_some_iff.mp here
  exact ⟨inside, rfl⟩

theorem of_matched_ofOption {value? : Option α} {value : α} {stop : Nat}
    (ended : (ofOption value? items start).outcome = .matched (value, stop)) : stop = start := by
  cases value? with
  | none => cases ended
  | some value => cases ended; rfl

theorem arguments_congr {termList termList' : Reader (List Term)}
    (same : start < items.length → termList items (start + 1) = termList' items (start + 1)) :
    arguments termList items start = arguments termList' items start := by
  refine bind_congr rfl fun token stop ended => ?_
  obtain ⟨inside, rfl⟩ := of_matched_expect ended
  exact bind_congr (same inside) fun _ _ _ => rfl

theorem moreTerms_congr {term term' : Reader Term} (steady : Steady term) {rounds rounds' : Nat}
    (enough : items.length - start < rounds) (enough' : items.length - start < rounds')
    (same : ∀ place, start < place → place ≤ items.length → term items place = term' items place) :
    moreTerms term rounds items start = moreTerms term' rounds' items start := by
  induction rounds generalizing rounds' start with
  | zero => omega
  | succ rounds ih =>
    cases rounds' with
    | zero => omega
    | succ rounds' =>
      refine ifNext_congr (fun inside => ?_) rfl
      refine bind_congr (same _ (Nat.lt_succ_self _) inside) fun next stop ended => ?_
      obtain ⟨forward, -⟩ := steady.matched ended
      refine bind_congr ?_ fun _ _ _ => rfl
      exact ih (by omega) (by omega) fun place behind bound => same place (by omega) bound

end Reader

/-- A rule is read alike by calls that agree wherever the rule can call. -/
theorem Rule.reader_congr {look look' : (rule : Rule) → Reader rule.Result} {rounds rounds' : Nat}
    {rule : Rule} {items : List Item} {start : Nat} (steady : ∀ rule, (look rule).Steady)
    (same : ∀ (other : Rule) place, other.need (items.length - place) <
      rule.need (items.length - start) → look other items place = look' other items place)
    (enough : rule = .termList → items.length - start < rounds)
    (enough' : rule = .termList → items.length - start < rounds') :
    rule.reader look rounds items start = rule.reader look' rounds' items start := by
  simp only [Rule.need] at same
  -- a rule calls one that ranks lower, or has read a token before, which outweighs any rank
  cases rule with
  | definition =>
    refine Reader.bind_congr rfl fun token stop ended => ?_
    obtain ⟨inside, rfl⟩ := Reader.of_matched_expect ended
    refine Reader.bind_congr rfl fun name stop ended => ?_
    obtain ⟨inside, rfl⟩ := Reader.of_matched_expect ended
    refine Reader.bind_congr rfl fun brace stop ended => ?_
    obtain ⟨inside, rfl⟩ := Reader.of_matched_expect ended
    exact Reader.bind_congr (same .formula _ (by simp only [Rule.rank]; omega)) fun _ _ _ => rfl
  | formula =>
    have lower (other : Rule) (rank : other.rank < 6) : look other items start = look' other items start :=
      same other start (Nat.add_lt_add_left rank _)
    exact Reader.orElse_congr (lower .binaryConnective (by decide)) <|
      Reader.orElse_congr (lower .parenthesized (by decide)) <|
      Reader.orElse_congr (lower .quantifier (by decide)) <|
      Reader.orElse_congr (lower .negation (by decide)) <|
      Reader.orElse_congr (lower .equality (by decide)) <|
      Reader.orElse_congr (lower .predicate (by decide)) rfl
  | binaryConnective =>
    refine Reader.bind_congr (same .binaryLhs _ (by simp only [Rule.rank]; omega))
      fun left stop ended => ?_
    obtain ⟨forward, -⟩ := (steady .binaryLhs).matched ended
    refine Reader.bind_congr rfl fun token stop ended => ?_
    obtain ⟨inside, rfl⟩ := Reader.of_matched_nextToken ended
    refine Reader.bind_congr rfl fun op stop ended => ?_
    cases Reader.of_matched_ofOption ended
    exact Reader.bind_congr (same .formula _ (by simp only [Rule.rank]; omega)) fun _ _ _ => rfl
  | binaryLhs =>
    have lower (other : Rule) (rank : other.rank < 4) : look other items start = look' other items start :=
      same other start (Nat.add_lt_add_left rank _)
    exact Reader.orElse_congr (lower .parenthesized (by decide)) <|
      Reader.orElse_congr (lower .quantifier (by decide)) <|
      Reader.orElse_congr (lower .negation (by decide)) <|
      Reader.orElse_congr (lower .equality (by decide)) <|
      Reader.orElse_congr (lower .predicate (by decide)) rfl
  | parenthesized =>
    refine Reader.bind_congr rfl fun token stop ended => ?_
    obtain ⟨inside, rfl⟩ := Reader.of_matched_expect ended
    exact Reader.bind_congr (same .formula _ (by simp only [Rule.rank]; omega)) fun _ _ _ => rfl
  | quantifier =>
    refine Reader.bind_congr rfl fun token stop ended => ?_
    obtain ⟨inside, rfl⟩ := Reader.of_matched_nextToken ended
    refine Reader.bind_congr rfl fun kind stop ended => ?_
    cases Reader.of_matched_ofOption ended
    refine Reader.bind_congr (same .var _ (by simp only [Rule.rank]; omega)) fun bound stop ended => ?_
    obtain ⟨forward, -⟩ := (steady .var).matched ended
    exact Reader.bind_congr (same .formula _ (by simp only [Rule.rank]; omega)) fun _ _ _ => rfl
  | negation =>
    refine Reader.bind_congr rfl fun token stop ended => ?_
    obtain ⟨inside, rfl⟩ := Reader.of_matched_expect ended
    exact Reader.bind_congr (same .formula _ (by simp only [Rule.rank]; omega)) fun _ _ _ => rfl
  | equality =>
    refine Reader.bind_congr (same .term _ (by simp only [Rule.rank]; omega)) fun lhs stop ended => ?_
    obtain ⟨forward, -⟩ := (steady .term).matched ended
    refine Reader.bind_congr rfl fun token stop ended => ?_
    obtain ⟨inside, rfl⟩ := Reader.of_matched_expect ended
    exact Reader.bind_congr (same .term _ (by simp only [Rule.rank]; omega)) fun _ _ _ => rfl
  | predicate =>
    refine Reader.bind_congr rfl fun token stop ended => ?_
    obtain ⟨inside, rfl⟩ := Reader.of_matched_nextToken ended
    refine Reader.bind_congr rfl fun name stop ended => ?_
    cases Reader.of_matched_ofOption ended
    refine Reader.bind_congr ?_ fun _ _ _ => rfl
    exact Reader.arguments_congr fun inside' =>
      same .termList _ (by simp only [Rule.rank]; omega)
  | term =>
    exact Reader.orElse_congr (same .function _ (by simp only [Rule.rank]; omega))
      (Reader.bind_congr (same .var _ (by simp only [Rule.rank]; omega)) fun _ _ _ => rfl)
  | function =>
    refine Reader.bind_congr rfl fun token stop ended => ?_
    obtain ⟨inside, rfl⟩ := Reader.of_matched_expect ended
    refine Reader.bind_congr ?_ fun _ _ _ => rfl
    exact Reader.arguments_congr fun inside' =>
      same .termList _ (by simp only [Rule.rank]; omega)
  | var => rfl
  | termList =>
    have first := same .term start (by simp only [Rule.rank]; omega)
    refine Reader.bind_congr (by simp only [Reader.optional, first]) fun first? stop ended => ?_
    cases first? with
    | none => rfl
    | some first =>
      have forward : start ≤ stop := ((steady .term).optional.matched ended).1
      refine Reader.bind_congr ?_ fun _ _ _ => rfl
      have enough := enough rfl
      have enough' := enough' rfl
      refine Reader.moreTerms_congr (steady .term) (by omega) (by omega) fun place behind bound => ?_
      exact same .term place (by simp only [Rule.rank]; omega)
  | atEnd => rfl

/-! ## Reading without an allowance -/

/-- With an allowance that meets the need, a rule is read as with any other such allowance. -/
theorem Reader.run_congr {allowance allowance' : Nat} {rule : Rule} {items : List Item} {start : Nat}
    (enough : rule.need (items.length - start) ≤ allowance)
    (enough' : rule.need (items.length - start) ≤ allowance') :
    run allowance rule items start = run allowance' rule items start := by
  induction allowance generalizing allowance' rule start with
  | zero =>
    have positive := rule.need_pos (items.length - start)
    omega
  | succ allowance ih =>
    cases allowance' with
    | zero =>
      have positive := rule.need_pos (items.length - start)
      omega
    | succ allowance' =>
      refine Rule.reader_congr (Steady.run allowance) (fun other place lower => ?_) ?_ ?_
      · exact ih (by omega) (by omega)
      · rintro rfl
        simp only [Rule.need, Rule.rank] at enough
        omega
      · rintro rfl
        simp only [Rule.need, Rule.rank] at enough'
        omega

namespace Rule

variable {rule : Rule} {items : List Item} {start : Nat}

theorem run_eq_read {allowance : Nat} (enough : 4 * (items.length - start) + 6 ≤ allowance) :
    Reader.run allowance rule items start = rule.read items start := by
  have need := rule.need_le (items.length - start)
  exact Reader.run_congr (by omega) need

/-- A rule is read by reading the rules that it mentions. -/
theorem read_eq {rounds : Nat} (enough : rule = .termList → items.length - start < rounds) :
    rule.read items start = rule.reader Rule.read rounds items start := by
  have need := rule.need_le (items.length - start)
  have once : rule.read items start = Reader.run (4 * (items.length - start) + 6 + 1) rule items start :=
    Reader.run_congr need (by omega)
  rw [once]
  refine reader_congr (Reader.Steady.run _) (fun other place lower => ?_) (by omega) enough
  exact Reader.run_congr (by omega) (other.need_le _)

/-- In particular, by allowing as many commas in a list as there are items. -/
theorem read_eq' : rule.read items start = rule.reader Rule.read (items.length - start + 1) items start :=
  read_eq fun _ => Nat.lt_succ_self _

theorem steady_read (rule : Rule) : rule.read.Steady where
  matched := (Reader.Steady.run _ rule).matched
  failed := (Reader.Steady.run _ rule).failed

/-- A reading by a rule is determined by the items within its reach. -/
theorem local_read (rule : Rule) : rule.read.Local := by
  intro items items' start same
  obtain ⟨allowance, enough, enough'⟩ : ∃ allowance, 4 * (items.length - start) + 6 ≤ allowance ∧
      4 * (items'.length - start) + 6 ≤ allowance :=
    ⟨_, Nat.le_max_left _ _, Nat.le_max_right _ _⟩
  rw [← run_eq_read enough] at same ⊢
  rw [← run_eq_read enough']
  exact Reader.Local.run allowance rule items items' start same

end Rule

end Definiens
