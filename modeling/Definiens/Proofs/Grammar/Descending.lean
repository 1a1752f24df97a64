import Definiens.Proofs.Grammar.Course

/-!
# Rules within rules

A rule calls another one where it stands only if that one ranks lower, and any other call comes behind
tokens that the rule has passed.  So calls get less deep from each to those inside it, by a measure that the
rule and the items ahead give, and reading ends.  The allowance that the calls carry is never used up: what
would be done without one is of no account.
-/

namespace Definiens

namespace Parser

/-- What follows the first term of a list, as long as there are rounds; and something else then. -/
def moreTermsOr (spent : Parser (List Term)) (term : Parser Term) : Nat → Parser (List Term)
  | 0 => spent
  | rounds + 1 =>
    ifNext .comma
      (do
        let next ← term
        let others ← moreTermsOr spent term rounds
        pure (next :: others))
      (pure [])

def termListOr (spent : Parser (List Term)) (term : Parser Term) (rounds : Nat) :
    Parser (List Term) := do
  match ← optional term with
  | none => pure []
  | some first =>
    let others ← moreTermsOr spent term rounds
    pure (first :: others)

end Parser

def Rule.bodyOr (spent : Parser (List Term)) (call : (rule : Rule) → Parser rule.Result) (rounds : Nat) :
    (rule : Rule) → Parser rule.Result
  | .termList => .termListOr spent (call .term) rounds
  | rule => rule.body call rounds

/-- Reads by a rule with an allowance, and does something else where that is used up. -/
def Parser.runOr (spent : Parser (List Term)) (exhausted : (rule : Rule) → Parser rule.Result) :
    Nat → (rule : Rule) → Parser rule.Result
  | 0, rule => exhausted rule
  | allowance + 1, rule =>
    attempt rule (rule.bodyOr spent (runOr spent exhausted allowance) allowance)

/-! ## Calls inside a rule -/

/-- Two parsers that are made in the same way from the calls of rules, each of them a part of the rule
`outer` behind so many passed tokens, and behind at least `stop` of them if it matches.  A call ranks lower
than the rule, or comes behind tokens that outweigh its rank.  Behind more tokens than there can be, anything
may follow. -/
inductive Descends (call call' : (rule : Rule) → Parser rule.Result) (outer : Rule) (limit : Nat) :
    (α : Type) → (passed : Nat) → Parser α → Parser α → (stop : Nat) → Prop where
  | pure {α : Type} {passed stop : Nat} (value : α) (le : stop ≤ passed) :
      Descends call call' outer limit α passed (Pure.pure value) (Pure.pure value) stop
  | fail {α : Type} {passed stop : Nat} : Descends call call' outer limit α passed .fail .fail stop
  | nextToken {passed : Nat} :
      Descends call call' outer limit Token passed .nextToken .nextToken (passed + 1)
  | call {passed : Nat} (rule : Rule) (lower : rule.rank < outer.rank + 4 * passed) :
      Descends call call' outer limit rule.Result passed (call rule) (call' rule) passed
  | optional {passed : Nat} (rule : Rule) (lower : rule.rank < outer.rank + 4 * passed) :
      Descends call call' outer limit (Option rule.Result) passed (.optional (call rule))
        (.optional (call' rule)) passed
  | orElse {passed : Nat} (rule : Rule) (lower : rule.rank < outer.rank + 4 * passed)
      {p p' : Parser rule.Result} (others : Descends call call' outer limit rule.Result passed p p' passed) :
      Descends call call' outer limit rule.Result passed (.orElse (call rule) p)
        (.orElse (call' rule) p') passed
  | bind {α β : Type} {passed middle stop : Nat} {p p' : Parser α} {f f' : α → Parser β}
      (first : Descends call call' outer limit α passed p p' middle)
      (second : ∀ value, Descends call call' outer limit β middle (f value) (f' value) stop) :
      Descends call call' outer limit β passed (p >>= f) (p' >>= f') stop
  | ifNext {α : Type} {passed stop : Nat} (kind : Kind) {yes yes' no no' : Parser α}
      (found : Descends call call' outer limit α (passed + 1) yes yes' stop)
      (absent : Descends call call' outer limit α passed no no' stop) :
      Descends call call' outer limit α passed (.ifNext kind yes no) (.ifNext kind yes' no') stop
  | beyond {α : Type} {passed stop : Nat} (p p' : Parser α) (far : limit ≤ passed) :
      Descends call call' outer limit α passed p p' stop

namespace Descends

variable {call call' : (rule : Rule) → Parser rule.Result} {outer : Rule} {limit passed : Nat}

theorem expect_le (kind : Kind) {stop : Nat} (le : stop ≤ passed + 1) :
    Descends call call' outer limit Token passed (.expect kind) (.expect kind) stop := by
  apply bind nextToken
  intro token
  split
  · exact pure token le
  · exact fail

theorem expect (kind : Kind) :
    Descends call call' outer limit Token passed (.expect kind) (.expect kind) (passed + 1) :=
  expect_le kind (Nat.le_refl _)

theorem ofOption {α : Type} (value : Option α) :
    Descends call call' outer limit α passed (.ofOption value) (.ofOption value) passed := by
  cases value with
  | none => exact fail
  | some value => exact pure value (Nat.le_refl _)

theorem arguments (lower : 3 < outer.rank + 4 * (passed + 1)) :
    Descends call call' outer limit (List Term) passed (.arguments (call .termList))
      (.arguments (call' .termList)) passed :=
  bind (expect _) fun _ => bind (.call .termList lower) fun args => bind (expect _) fun _ =>
    pure args (by omega)

theorem moreTerms (spent : Parser (List Term)) {rounds rounds' : Nat} (enough : limit ≤ passed + rounds)
    (enough' : limit ≤ passed + rounds') :
    Descends call call' outer limit (List Term) passed (.moreTerms (call .term) rounds)
      (.moreTermsOr spent (call' .term) rounds') passed := by
  induction rounds generalizing passed rounds' with
  | zero => exact beyond _ _ enough
  | succ rounds ih =>
    cases rounds' with
    | zero => exact beyond _ _ enough'
    | succ rounds' =>
      refine ifNext .comma (bind (.call .term ?_) fun next => bind (ih ?_ ?_) fun others => ?_) ?_
      · simp only [Rule.rank]
        omega
      · omega
      · omega
      · exact pure (next :: others) (Nat.le_succ _)
      · exact pure [] (Nat.le_refl _)

end Descends

/-- Inside every rule calls descend; a list of terms goes on as long as its rounds allow. -/
theorem Rule.descends (call call' : (rule : Rule) → Parser rule.Result) (spent : Parser (List Term))
    {limit rounds rounds' : Nat} (rule : Rule) (enough : rule = .termList → limit ≤ rounds)
    (enough' : rule = .termList → limit ≤ rounds') :
    Descends call call' rule limit rule.Result 0 (rule.body call rounds) (rule.bodyOr spent call' rounds')
      0 := by
  cases rule with
  | definition =>
    exact .bind (.expect _) fun _ => .bind (.expect _) fun _ => .bind (.expect _) fun _ =>
      .bind (.call .formula (by decide)) fun _ => .bind (.expect _) fun _ => .pure _ (Nat.zero_le _)
  | formula =>
    exact .orElse .binaryConnective (by decide) <| .orElse .parenthesized (by decide) <|
      .orElse .quantifier (by decide) <| .orElse .negation (by decide) <|
      .orElse .equality (by decide) <| .orElse .predicate (by decide) .fail
  | binaryConnective =>
    exact .bind (.call .binaryLhs (by decide)) fun _ => .bind .nextToken fun _ =>
      .bind (.ofOption _) fun _ => .bind (.call .formula (by decide)) fun _ => .pure _ (Nat.zero_le _)
  | binaryLhs =>
    exact .orElse .parenthesized (by decide) <| .orElse .quantifier (by decide) <|
      .orElse .negation (by decide) <| .orElse .equality (by decide) <|
      .orElse .predicate (by decide) .fail
  | parenthesized =>
    exact .bind (.expect _) fun _ => .bind (.call .formula (by decide)) fun _ =>
      .bind (.expect _) fun _ => .pure _ (Nat.zero_le _)
  | quantifier =>
    exact .bind .nextToken fun _ => .bind (.ofOption _) fun _ => .bind (.call .var (by decide)) fun _ =>
      .bind (.call .formula (by decide)) fun _ => .pure _ (Nat.zero_le _)
  | negation =>
    exact .bind (.expect _) fun _ => .bind (.call .formula (by decide)) fun _ => .pure _ (Nat.zero_le _)
  | equality =>
    exact .bind (.call .term (by decide)) fun _ => .bind (.expect _) fun _ =>
      .bind (.call .term (by decide)) fun _ => .pure _ (Nat.zero_le _)
  | predicate =>
    exact .bind .nextToken fun _ => .bind (.ofOption _) fun _ => .bind (.arguments (by decide)) fun _ =>
      .pure _ (Nat.zero_le _)
  | term =>
    exact .orElse .function (by decide)
      (.bind (.call .var (by decide)) fun _ => .pure _ (Nat.le_refl _))
  | function =>
    exact .bind (.expect _) fun _ => .bind (.arguments (by decide)) fun _ => .pure _ (Nat.zero_le _)
  | var => exact .bind (.expect _) fun _ => .pure _ (Nat.zero_le _)
  | termList =>
    apply Descends.bind (.optional .term (by decide))
    intro first?
    cases first? with
    | none => exact .pure [] (Nat.le_refl _)
    | some first =>
      have enough := enough rfl
      have enough' := enough' rfl
      exact .bind (.moreTerms spent (by omega) (by omega)) fun _ => .pure _ (Nat.le_refl _)
  | atEnd => exact .expect_le _ (Nat.zero_le _)

/-! ## What is made of calls -/

namespace Descends

variable {call call' : (rule : Rule) → Parser rule.Result} {outer : Rule} {items : List Item}
  {start limit passed stop : Nat} {α : Type} {p p' : Parser α} {s : Session}

/-- A call that ranks lower, or stands behind tokens that outweigh its rank, needs less than the rule. -/
theorem need_lt {rule : Rule} (lower : rule.rank < outer.rank + 4 * passed)
    (behind : start + passed ≤ s.position) (along : s.cursor.Over items) :
    rule.need (items.length - s.position) < outer.need (items.length - start) := by
  have within : s.position ≤ items.length := Nat.le_trans along.position_le along.size_le
  simp only [Rule.need]
  omega

theorem not_beyond (near : items.length - start < limit) (far : limit ≤ passed)
    (behind : start + passed ≤ s.position) (along : s.cursor.Over items) : False := by
  have within : s.position ≤ items.length := Nat.le_trans along.position_le along.size_le
  omega

section

variable (near : items.length - start < limit)
  (calls : ∀ (rule : Rule) (t : Session), t.cursor.Over items →
    rule.need (items.length - t.position) < outer.need (items.length - start) →
    rule.Traced items (outer.need (items.length - start)) t (call rule t))
include near calls

/-- What a parser does that is made of calls is a course in which every rule needs less than the one
around it; and a match has passed the tokens that it should have. -/
theorem leads (made : Descends call call' outer limit α passed p p' stop) (along : s.cursor.Over items)
    (behind : start + passed ≤ s.position) :
    (∃ course : Course, course.Leads items (outer.need (items.length - start)) s (p s).2) ∧
      ((p s).1.isMatch = true → start + stop ≤ (p s).2.position) := by
  -- by the ways of making; what the first of two parsers passes, the second one has behind it
  induction made generalizing s with
  | pure value le => exact ⟨⟨.done, .refl along⟩, fun _ => by simp only [Pure.pure]; omega⟩
  | fail => exact ⟨⟨.done, .refl along⟩, by simp [Parser.fail, Outcome.isMatch]⟩
  | nextToken =>
    obtain ⟨lexed, reads⟩ := Parser.nextToken_leads along
    refine ⟨⟨_, reads⟩, fun matched => ?_⟩
    obtain ⟨s', ended, -, -, -, position⟩ := Parser.nextToken_over along
    rw [ended] at matched ⊢
    rcases here : items[s.position]? with _ | token | offset
    · rw [here] at matched
      cases matched
    · obtain ⟨inside, -⟩ := List.getElem?_eq_some_iff.mp here
      rw [if_pos inside] at position
      dsimp only
      omega
    · rw [here] at matched
      cases matched
  | call rule lower =>
    obtain ⟨inside, tried⟩ := calls rule s along (need_lt lower behind along)
    exact ⟨⟨_, tried⟩, fun _ => Nat.le_trans behind tried.runs.start_le⟩
  | optional rule lower =>
    obtain ⟨inside, tried⟩ := calls rule s along (need_lt lower behind along)
    have forward := Nat.le_trans behind tried.runs.start_le
    simp only [Parser.optional]
    generalize call rule s = ended at *
    rcases ended with ⟨value | _ | offset, s'⟩ <;> exact ⟨⟨_, tried⟩, fun _ => forward⟩
  | orElse rule lower others ih =>
    obtain ⟨inside, tried⟩ := calls rule s along (need_lt lower behind along)
    have forward := Nat.le_trans behind tried.runs.start_le
    simp only [Parser.orElse]
    generalize call rule s = ended at *
    rcases ended with ⟨value | _ | offset, s'⟩
    · exact ⟨⟨_, tried⟩, fun _ => forward⟩
    · obtain ⟨⟨course, goes⟩, passes⟩ := ih tried.along forward
      exact ⟨⟨_, tried.trans goes⟩, passes⟩
    · exact ⟨⟨_, tried⟩, by simp [Outcome.isMatch]⟩
  | @bind α β passed middle stop p p' f f' first second ih ih' =>
    obtain ⟨⟨course, goes⟩, passes⟩ := ih along behind
    simp only [Bind.bind, Parser.andThen]
    generalize p s = ended at *
    rcases ended with ⟨value | _ | offset, s'⟩
    · obtain ⟨⟨course', goes'⟩, passes'⟩ := ih' value goes.along (passes rfl)
      exact ⟨⟨_, goes.trans goes'⟩, passes'⟩
    · exact ⟨⟨_, goes⟩, by simp [Outcome.isMatch]⟩
    · exact ⟨⟨_, goes⟩, by simp [Outcome.isMatch]⟩
  | @ifNext α passed stop kind yes yes' no no' found absent ih ih' =>
    obtain ⟨course, s', goes, ⟨position, next⟩ | next | ⟨offset, next⟩⟩ :=
      Parser.ifNext_cases α kind (outer.need (items.length - start)) along
    · obtain ⟨⟨course', goes'⟩, passes⟩ := ih goes.along (by omega)
      rw [next yes no]
      exact ⟨⟨_, goes.trans goes'⟩, passes⟩
    · obtain ⟨⟨course', goes'⟩, passes⟩ := ih' goes.along (Nat.le_trans behind goes.runs.start_le)
      rw [next yes no]
      exact ⟨⟨_, goes.trans goes'⟩, passes⟩
    · rw [next yes no]
      exact ⟨⟨_, goes⟩, by simp [Outcome.isMatch]⟩
  | beyond p p' far => exact (not_beyond near far behind along).elim

/-- Parsers that are made alike do the same, if the calls agree wherever they need less than the rule. -/
theorem same (agree : ∀ (rule : Rule) (t : Session), t.cursor.Over items →
      rule.need (items.length - t.position) < outer.need (items.length - start) →
      call' rule t = call rule t)
    (made : Descends call call' outer limit α passed p p' stop) (along : s.cursor.Over items)
    (behind : start + passed ≤ s.position) : p' s = p s := by
  induction made generalizing s with
  | pure value le => rfl
  | fail => rfl
  | nextToken => rfl
  | call rule lower => exact agree rule s along (need_lt lower behind along)
  | optional rule lower =>
    simp only [Parser.optional, agree rule s along (need_lt lower behind along)]
  | orElse rule lower others ih =>
    obtain ⟨inside, tried⟩ := calls rule s along (need_lt lower behind along)
    have others := ih tried.along (Nat.le_trans behind tried.runs.start_le)
    simp only [Parser.orElse, agree rule s along (need_lt lower behind along)]
    generalize call rule s = ended at *
    rcases ended with ⟨value | _ | offset, s'⟩
    · rfl
    · exact others
    · rfl
  | @bind α β passed middle stop p p' f f' first second ih ih' =>
    obtain ⟨⟨course, goes⟩, passes⟩ := first.leads near calls along behind
    simp only [Bind.bind, Parser.andThen, ih along behind]
    generalize p s = ended at *
    rcases ended with ⟨value | _ | offset, s'⟩
    · exact ih' value goes.along (passes rfl)
    · rfl
    · rfl
  | @ifNext α passed stop kind yes yes' no no' found absent ih ih' =>
    obtain ⟨course, s', goes, ⟨position, next⟩ | next | ⟨offset, next⟩⟩ :=
      Parser.ifNext_cases α kind (outer.need (items.length - start)) along
    · rw [next yes no, next yes' no']
      exact ih goes.along (by omega)
    · rw [next yes no, next yes' no']
      exact ih' goes.along (Nat.le_trans behind goes.runs.start_le)
    · rw [next yes no, next yes' no']
  | beyond p p' far => exact (not_beyond near far behind along).elim

end

end Descends

/-! ## Rules with enough allowance -/

/-- Where a rule has the allowance that it needs, a list of terms has enough rounds. -/
theorem Rule.rounds_of_need_le {rule : Rule} {ahead allowance : Nat}
    (enough : rule.need ahead ≤ allowance + 1) : rule = .termList → ahead + 1 ≤ allowance := by
  rintro rfl
  simp only [Rule.need, Rule.rank] at enough
  omega

namespace Parser

theorem moreTermsOr_eq (term : Parser Term) (rounds : Nat) :
    moreTermsOr (pure []) term rounds = moreTerms term rounds := by
  induction rounds with
  | zero => rfl
  | succ rounds ih =>
    rw [moreTermsOr, ih]
    rfl

/-- Reading by a rule is reading that stops where the allowance or the rounds are over. -/
theorem run_eq_runOr (allowance : Nat) (rule : Rule) :
    run allowance rule = runOr (pure []) (fun _ => fail) allowance rule := by
  induction allowance generalizing rule with
  | zero => rfl
  | succ allowance ih =>
    have calls : runOr (pure []) (fun _ => fail) allowance = run allowance :=
      funext fun other => (ih other).symm
    rw [run, runOr, calls]
    cases rule with
    | termList =>
      simp only [Rule.bodyOr, termListOr, moreTermsOr_eq]
      rfl
    | _ => rfl

variable {items : List Item} {s begun : Session} {rule : Rule} {allowance : Nat}

theorem over_opened (along : s.cursor.Over items) (opened : begun.cursor = s.cursor.checkpoint) :
    begun.cursor.Over items ∧ s.position + 0 ≤ begun.position := by
  rw [position_opened opened, opened]
  exact ⟨along.elsewhere (Nat.le_refl _), Nat.le_refl _⟩

/-- With an allowance that meets the need of a rule, reading by it is a course. -/
theorem run_traced {bound : Nat} (along : s.cursor.Over items)
    (enough : rule.need (items.length - s.position) ≤ allowance)
    (lower : rule.need (items.length - s.position) < bound) :
    rule.Traced items bound s (run allowance rule s) := by
  induction allowance generalizing s rule bound with
  | zero =>
    have positive := rule.need_pos (items.length - s.position)
    omega
  | succ allowance ih =>
    refine attempt_leads rule lower fun begun opened => ?_
    obtain ⟨along', behind⟩ := over_opened along opened
    have rounds := Rule.rounds_of_need_le enough
    have made := rule.descends (run allowance) (run allowance) (pure []) rounds rounds
    have calls (other : Rule) (t : Session) (along : t.cursor.Over items)
        (less : other.need (items.length - t.position) < rule.need (items.length - s.position)) :=
      ih along (by omega) less
    exact (made.leads (Nat.lt_succ_self _) calls along' behind).1

/-- With an allowance that meets the need of a rule, nothing depends on what would be done without. -/
theorem runOr_eq_run (spent : Parser (List Term)) (exhausted : (rule : Rule) → Parser rule.Result)
    {allowance' : Nat} (along : s.cursor.Over items)
    (enough : rule.need (items.length - s.position) ≤ allowance)
    (enough' : rule.need (items.length - s.position) ≤ allowance') :
    runOr spent exhausted allowance' rule s = run allowance rule s := by
  induction allowance generalizing s rule allowance' with
  | zero =>
    have positive := rule.need_pos (items.length - s.position)
    omega
  | succ allowance ih =>
    cases allowance' with
    | zero =>
      have positive := rule.need_pos (items.length - s.position)
      omega
    | succ allowance' =>
      refine attempt_congr rule fun begun opened => ?_
      obtain ⟨along', behind⟩ := over_opened along opened
      have made := rule.descends (run allowance) (runOr spent exhausted allowance') spent
        (Rule.rounds_of_need_le enough) (Rule.rounds_of_need_le enough')
      exact made.same (Nat.lt_succ_self _) (fun other t along less => run_traced along (by omega) less)
        (fun other t along less => ih along (by omega) (by omega)) along' behind

theorem need_le_allowance (along : s.cursor.Over items) (rule : Rule) :
    rule.need (items.length - s.position) ≤ s.allowance :=
  Nat.le_trans (rule.need_le _) (le_allowance along)

theorem call_traced {bound : Nat} (along : s.cursor.Over items)
    (lower : rule.need (items.length - s.position) < bound) :
    rule.Traced items bound s (call rule s) :=
  run_traced along (need_le_allowance along rule) lower

end Parser

end Definiens
