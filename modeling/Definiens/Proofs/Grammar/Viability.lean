import Definiens.Proofs.Grammar.Allowance
import Definiens.Proofs.Grammar.Productivity
import Definiens.Proofs.Grammar.Written

/-!
# Reading looks no further than the grammar allows

A reader adheres to a form if what it matches is derived from the form and if, wherever it has looked,
what stands before that place can be completed to something that is derived from the form.  So no
reading, not even one that is given up later, looks beyond a token that spoils every completion.
-/

namespace Definiens

open Interpretation

namespace Reader

variable {α β : Type}

/-! ## Readings in two ways -/

/-- The next token and what it has been chosen for. -/
def pick {γ : Type} (g : Token → Option γ) : Reader (Token × γ) := do
  let token ← nextToken
  let value ← ofOption (g token)
  Pure.pure (token, value)

section

variable {γ : Type} {g : Token → Option γ} {items : List Item} {start : Nat}

theorem matched_pick {chosen : Token × γ} {stop : Nat} :
    (pick g items start).outcome = .matched (chosen, stop) ↔
      items[start]? = some (.token chosen.1) ∧ g chosen.1 = some chosen.2 ∧ stop = start + 1 := by
  simp only [pick, matched_bind, matched_nextToken, matched_ofOption]
  constructor
  · rintro ⟨token, _, ⟨here, rfl⟩, value, _, ⟨known, rfl⟩, made⟩
    cases made
    exact ⟨here, known, rfl⟩
  · rintro ⟨here, known, rfl⟩
    exact ⟨chosen.1, _, ⟨here, rfl⟩, chosen.2, _, ⟨known, rfl⟩, rfl⟩

theorem reach_pick : (pick g items start).reach = start + 1 := by
  simp only [pick, Bind.bind, andThen, nextToken]
  rcases items[start]? with _ | token | offset
  · rfl
  · dsimp only
    cases g token with
    | none => exact Nat.max_eq_left (Nat.zero_le _)
    | some value => exact Nat.max_eq_left (Nat.zero_le _)
  · rfl

theorem nextToken_bind_eq_pick {f : Token → γ → Reader β} :
    (nextToken >>= fun token => ofOption (g token) >>= f token) =
      pick g >>= fun chosen => f chosen.1 chosen.2 := by
  funext items start
  simp only [pick, Bind.bind, andThen, nextToken]
  rcases items[start]? with _ | token | offset
  · rfl
  · dsimp only
    cases g token with
    | none => rfl
    | some value =>
      have seen (reach : Nat) : max (start + 1) (max 0 reach) = max (max (start + 1) (max 0 0)) reach := by
        omega
      exact congrArg (Reading.mk _) (seen _)
  · rfl

theorem ifNext_eq_or (kind : Kind) (yes no : Reader α) (items : List Item) (start : Nat) :
    ifNext kind yes no items start = (expect kind >>= fun _ => yes) items start ∨
      ifNext kind yes no items start = (no items start).also (start + 1) := by
  simp only [ifNext, expect, Bind.bind, andThen, nextToken]
  rcases items[start]? with _ | token | offset
  · exact Or.inr rfl
  · dsimp only
    by_cases known : token.is kind = true
    · refine Or.inl ?_
      rw [if_pos known, if_pos known]
      rfl
    · refine Or.inr ?_
      rw [if_neg known]
  · exact Or.inl rfl

theorem optional_bind_eq_or (p : Reader α) (f : Option α → Reader β) (items : List Item) (start : Nat) :
    (optional p >>= f) items start = (p >>= fun value => f (some value)) items start ∨
      (optional p >>= f) items start = (f none items start).also (p items start).reach := by
  simp only [Bind.bind, andThen, optional]
  rcases p items start with ⟨⟨value, stop⟩ | _ | offset, reach⟩
  · exact Or.inl rfl
  · exact Or.inr rfl
  · exact Or.inl rfl

end

/-! ## Adherence -/

/-- What the reader matches is derived from the form, and what it looks at stands behind something that
can be completed. -/
structure Adheres (q : Reader α) (symbols : Category.Form) : Prop where
  matched {items : List Item} {start stop : Nat} {value : α}
    (ended : (q items start).outcome = .matched (value, stop)) :
    stop ≤ max start (q items start).reach ∧
      Spans items start stop fun tokens => tokens ∈ derived.form symbols
  viable {items : List Item} {start place : Nat} (low : start ≤ place)
    (high : place < (q items start).reach) :
    Spans items start place (Completable symbols)

namespace Adheres

variable {symbols : Category.Form}

theorem spans_nil (items : List Item) (start : Nat) (symbols : Category.Form) :
    Spans items start start (Completable symbols) :=
  ⟨[], .nil, completable_form symbols⟩

theorem pure (value : α) : Adheres (Pure.pure value : Reader α) [] where
  matched := by
    rintro items start stop value' ended
    cases ended
    exact ⟨Nat.le_max_left _ _, [], .nil, rfl⟩
  viable := by
    intro items start place low high
    exact absurd high (Nat.not_lt_zero place)

theorem fail : Adheres (fail : Reader α) symbols where
  matched := nofun
  viable := by
    intro items start place low high
    exact absurd high (Nat.not_lt_zero place)

/-- A production carries adherence from its right side to its category. -/
theorem of_production {q : Reader α} {category : Category} (h : Adheres q symbols)
    (production : symbols ∈ category.productions) : Adheres q [.nonterminal category] where
  matched := by
    intro items start stop value ended
    obtain ⟨within, spans⟩ := h.matched ended
    exact ⟨within, spans.mono fun _ member => mem_form_of_production production member⟩
  viable := by
    intro items start place low high
    exact (h.viable low high).mono fun _ => completable_of_production production

theorem of_either {p p' q : Reader α} (first : Adheres p symbols) (second : Adheres p' symbols)
    (either : ∀ items start, q items start = p items start ∨
      ∃ seen ≤ (p items start).reach, q items start = (p' items start).also seen) :
    Adheres q symbols where
  matched := by
    intro items start stop value ended
    rcases either items start with same | ⟨seen, -, same⟩ <;> rw [same] at ended ⊢
    · exact first.matched ended
    · obtain ⟨within, spans⟩ := second.matched ended
      refine ⟨?_, spans⟩
      rw [Reading.reach_also]
      omega
  viable := by
    intro items start place low high
    rcases either items start with same | ⟨seen, bound, same⟩ <;> rw [same] at high
    · exact first.viable low high
    · rw [Reading.reach_also] at high
      rcases Nat.lt_or_ge place seen with near | far
      · exact first.viable low (Nat.lt_of_lt_of_le near bound)
      · exact second.viable low (by omega)

theorem orElse {p q : Reader α} (first : Adheres p symbols) (second : Adheres q symbols) :
    Adheres (p.orElse q) symbols := by
  apply first.of_either second
  intro items start
  simp only [Reader.orElse]
  rcases p items start with ⟨result | _ | offset, reach⟩
  · exact Or.inl rfl
  · exact Or.inr ⟨reach, Nat.le_refl reach, rfl⟩
  · exact Or.inl rfl

theorem firstOf {ps : List (Reader α)} (each : ∀ p ∈ ps, Adheres p symbols) :
    Adheres (firstOf ps) symbols := by
  induction ps with
  | nil => exact fail
  | cons p ps ih =>
    obtain ⟨first, others⟩ := List.forall_mem_cons.mp each
    exact first.orElse (ih others)

theorem sequence {p : Reader α} {f : α → Reader β} {ahead : Category.Form}
    (first : Adheres p ahead) (second : ∀ value, Adheres (f value) symbols) :
    Adheres (p >>= f) (ahead ++ symbols) where
  matched := by
    intro items start stop value ended
    simp only [Bind.bind, andThen] at ended ⊢
    rcases hp : p items start with ⟨⟨value', middle⟩ | _ | offset, reach⟩ <;> rw [hp] at ended
    · obtain ⟨within, before, hbefore, member⟩ := first.matched (congrArg Reading.outcome hp)
      obtain ⟨within', behind, hbehind, member'⟩ := (second value').matched ended
      rw [hp] at within
      refine ⟨?_, before ++ behind, hbefore.append hbehind, append_mem_form member member'⟩
      rw [Reading.reach_also]
      dsimp only at within
      omega
    · cases ended
    · cases ended
  viable := by
    intro items start place low high
    simp only [Bind.bind, andThen] at high
    have before (seen : place < (p items start).reach) :
        Spans items start place (Completable (ahead ++ symbols)) :=
      (first.viable low seen).mono fun _ completable =>
        completable.append (completable_form symbols)
    rcases hp : p items start with ⟨⟨value, middle⟩ | _ | offset, reach⟩ <;> rw [hp] at high before
    · rcases Nat.lt_or_ge place reach with near | far
      · exact before near
      · -- the first reader has been passed, and has looked at all that it has matched
        obtain ⟨within, tokens, hbefore, member⟩ := first.matched (congrArg Reading.outcome hp)
        rw [hp] at within
        dsimp only at within high
        rw [Reading.reach_also] at high
        have low' : middle ≤ place := by omega
        have beyond : place < (f value items middle).reach := by omega
        obtain ⟨seen, hseen, completable⟩ := (second value).viable low' beyond
        exact ⟨tokens ++ seen, hbefore.append hseen, completable.prepend member⟩
    · exact before high
    · exact before high

theorem bind {p : Reader α} {f : α → Reader β} {symbol : Symbol Terminal Category}
    (first : Adheres p [symbol]) (second : ∀ value, Adheres (f value) symbols) :
    Adheres (p >>= f) (symbol :: symbols) :=
  first.sequence second

/-! ## Tokens -/

theorem of_token {q : Reader α} {symbol : Symbol Terminal Category}
    (reach : ∀ items start, (q items start).reach = start + 1)
    (matched : ∀ {items start stop value}, (q items start).outcome = .matched (value, stop) →
      ∃ token, items[start]? = some (.token token) ∧ stop = start + 1 ∧
        [token] ∈ derived.form [symbol]) :
    Adheres q [symbol] where
  matched := by
    intro items start stop value ended
    obtain ⟨token, here, rfl, member⟩ := matched ended
    refine ⟨?_, [token], .single here, member⟩
    rw [reach]
    exact Nat.le_max_right _ _
  viable := by
    intro items start place low high
    rw [reach] at high
    cases Nat.le_antisymm low (Nat.le_of_lt_succ high)
    exact spans_nil items start _

theorem expect (kind : Kind) : Adheres (expect kind) [Category.token kind] := by
  apply of_token (fun items start => reach_expect)
  intro items start stop token ended
  obtain ⟨here, known, rfl⟩ := matched_expect.mp ended
  exact ⟨token, here, rfl, mem_form_terminal.mpr ⟨token, [], rfl, known, rfl⟩⟩

theorem pick {γ : Type} {g : Token → Option γ} {symbol : Symbol Terminal Category}
    (stands : ∀ token value, g token = some value → [token] ∈ derived.form [symbol]) :
    Adheres (pick g) [symbol] := by
  apply of_token (fun items start => reach_pick)
  intro items start stop value ended
  obtain ⟨here, known, rfl⟩ := matched_pick.mp ended
  exact ⟨value.1, here, rfl, stands _ _ known⟩

theorem choose {γ : Type} {g : Token → Option γ} {f : Token → γ → Reader β}
    {symbol : Symbol Terminal Category}
    (stands : ∀ token value, g token = some value → [token] ∈ derived.form [symbol])
    (behind : ∀ token value, Adheres (f token value) symbols) :
    Adheres (nextToken >>= fun token => ofOption (g token) >>= f token) (symbol :: symbols) := by
  rw [nextToken_bind_eq_pick]
  exact (pick stands).bind fun chosen => behind chosen.1 chosen.2

/-- A token that is only taken if it is the right one; both ways have to lead to the same category. -/
theorem ifNext {kind : Kind} {yes no : Reader α} {category : Category}
    (production : Category.token kind :: symbols ∈ category.productions)
    (found : Adheres yes symbols) (absent : Adheres no [.nonterminal category]) :
    Adheres (ifNext kind yes no) [.nonterminal category] := by
  have taken : Adheres (Reader.expect kind >>= fun _ => yes) [.nonterminal category] :=
    ((expect kind).bind fun _ => found).of_production production
  apply taken.of_either absent
  intro items start
  have seen : (Reader.expect kind items start).reach ≤
      ((Reader.expect kind >>= fun _ => yes) items start).reach := reach_le_bind
  rw [reach_expect] at seen
  rcases ifNext_eq_or kind yes no items start with same | same
  · exact Or.inl same
  · exact Or.inr ⟨start + 1, seen, same⟩

theorem optional {p : Reader α} {f : Option α → Reader β} {symbol : Symbol Terminal Category}
    {category : Category} (production : symbol :: symbols ∈ category.productions)
    (first : Adheres p [symbol]) (present : ∀ value, Adheres (f (some value)) symbols)
    (absent : Adheres (f none) [.nonterminal category]) :
    Adheres (Reader.optional p >>= f) [.nonterminal category] := by
  have taken : Adheres (p >>= fun value => f (some value)) [.nonterminal category] :=
    (first.bind present).of_production production
  apply taken.of_either absent
  intro items start
  rcases optional_bind_eq_or p f items start with same | same
  · exact Or.inl same
  · exact Or.inr ⟨_, reach_le_bind, same⟩

/-! ## The rules -/

section

variable {look : (rule : Rule) → Reader rule.Result}

theorem moreTerms (term : Adheres (look .term) [Category.part .term]) (rounds : Nat) :
    Adheres (moreTerms (look .term) rounds) [.nonterminal .moreTerms] := by
  have ends : Adheres (Pure.pure [] : Reader (List Term)) [.nonterminal .moreTerms] :=
    (pure []).of_production List.mem_cons_self
  induction rounds with
  | zero => exact ends
  | succ rounds ih =>
    exact ifNext (List.mem_cons_of_mem _ List.mem_cons_self)
      (bind term fun next => bind ih fun others => pure (next :: others)) ends

theorem arguments (termList : Adheres (look .termList) [Category.part .termList])
    (f : List Term → α) :
    Adheres (Reader.arguments (look .termList) >>= fun args => Pure.pure (f args))
      [Category.token .leftParen, Category.part .termList, Category.token .rightParen] := by
  have args : Adheres (Reader.arguments (look .termList))
      [Category.token .leftParen, Category.part .termList, Category.token .rightParen] :=
    bind (expect _) fun _ => bind termList fun args => bind (expect _) fun _ => pure args
  exact args.sequence fun args => pure (f args)

theorem stands_operator {token : Token} {op : Connective}
    (known : Connective.ofKind? token.kind = some op) :
    [token] ∈ derived.form [.nonterminal .operator] := by
  have member : [Category.token op.kind] ∈ Category.productions .operator := by
    cases op <;> decide
  apply mem_form_of_production member
  exact mem_form_terminal.mpr ⟨token, [], rfl, Connective.ofKind?_eq_some.mp known, rfl⟩

theorem stands_keyword {token : Token} {kind : Quantifier}
    (known : Quantifier.ofKind? token.kind = some kind) :
    [token] ∈ derived.form [.nonterminal .keyword] := by
  have member : [Category.token kind.kind] ∈ Category.productions .keyword := by
    cases kind <;> decide
  apply mem_form_of_production member
  exact mem_form_terminal.mpr ⟨token, [], rfl, Quantifier.ofKind?_eq_some.mp known, rfl⟩

theorem stands_predicateName {token : Token} {name : PredicateName}
    (known : PredicateName.ofToken? token = some name) :
    [token] ∈ derived.form [.nonterminal .predicateName] := by
  obtain ⟨rfl, proper⟩ := PredicateName.ofToken?_eq_some.mp known
  cases proper with
  | type type =>
    apply mem_form_of_production List.mem_cons_self
    exact mem_form_terminal.mpr ⟨_, [], rfl, type, rfl⟩
  | membership symbol spelled =>
    apply mem_form_of_production (List.mem_cons_of_mem _ List.mem_cons_self)
    exact mem_form_terminal.mpr ⟨_, [], rfl, ⟨symbol, spelled⟩, rfl⟩

/-- Every rule adheres to its category if the rules that it mentions do. -/
theorem reader (calls : ∀ rule, Adheres (look rule) [Category.part rule]) (rounds : Nat)
    (rule : Rule) : Adheres (rule.reader look rounds) [Category.part rule] := by
  cases rule with
  | definition =>
    refine of_production ?_ List.mem_cons_self
    exact bind (expect _) fun _ => bind (expect _) fun _ => bind (expect _) fun _ =>
      bind (calls .formula) fun _ => bind (expect _) fun _ => pure _
  | formula =>
    apply firstOf
    intro p member
    simp only [List.mem_cons, List.not_mem_nil, or_false] at member
    rcases member with rfl | rfl | rfl | rfl | rfl | rfl <;>
      exact (calls _).of_production (by simp [Category.productions])
  | binaryConnective =>
    refine of_production ?_ List.mem_cons_self
    exact bind (calls .binaryLhs) fun left => choose (fun _ _ => stands_operator) fun token op =>
      bind (calls .formula) fun right => pure _
  | binaryLhs =>
    apply firstOf
    intro p member
    simp only [List.mem_cons, List.not_mem_nil, or_false] at member
    rcases member with rfl | rfl | rfl | rfl | rfl <;>
      exact (calls _).of_production (by simp [Category.productions])
  | parenthesized =>
    refine of_production ?_ List.mem_cons_self
    exact bind (expect _) fun _ => bind (calls .formula) fun _ => bind (expect _) fun _ => pure _
  | quantifier =>
    refine of_production ?_ List.mem_cons_self
    exact choose (fun _ _ => stands_keyword) fun token kind => bind (calls .var) fun bound =>
      bind (calls .formula) fun body => pure _
  | negation =>
    refine of_production ?_ List.mem_cons_self
    exact bind (expect _) fun _ => bind (calls .formula) fun _ => pure _
  | equality =>
    refine of_production ?_ List.mem_cons_self
    exact bind (calls .term) fun _ => bind (expect _) fun _ => bind (calls .term) fun _ => pure _
  | predicate =>
    refine of_production ?_ List.mem_cons_self
    exact choose (fun _ _ => stands_predicateName) fun token name => arguments (calls .termList) _
  | term =>
    refine orElse ((calls .function).of_production List.mem_cons_self) ?_
    refine of_production ?_ (List.mem_cons_of_mem _ List.mem_cons_self)
    exact bind (calls .var) fun v => pure _
  | function =>
    refine of_production ?_ List.mem_cons_self
    exact bind (expect _) fun token => arguments (calls .termList) _
  | var =>
    refine of_production ?_ List.mem_cons_self
    exact bind (expect _) fun _ => pure _
  | termList =>
    refine optional (List.mem_cons_of_mem _ List.mem_cons_self) (calls .term) (fun first => ?_) ?_
    · exact bind (moreTerms (calls .term) rounds) fun others => pure _
    · exact (pure []).of_production List.mem_cons_self
  | atEnd => exact (expect .finish).of_production List.mem_cons_self

end

theorem run (allowance : Nat) (rule : Rule) : Adheres (run allowance rule) [Category.part rule] := by
  induction allowance generalizing rule with
  | zero => exact fail
  | succ allowance ih => exact reader ih allowance rule

end Adheres

end Reader

theorem Rule.adheres_read (rule : Rule) : rule.read.Adheres [Category.part rule] where
  matched := (Reader.Adheres.run _ rule).matched
  viable := (Reader.Adheres.run _ rule).viable

end Definiens
