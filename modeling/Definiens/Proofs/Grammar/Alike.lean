import Definiens.Proofs.Grammar.Reader

/-!
# Parsers and readers of one make

The parser and the reader of a rule are made in the same way from the calls of other rules.  `Alike`
lists the ways, and `Rule.alike` goes through the rules, once; whatever holds of each way of making
then holds of every rule.
-/

namespace Definiens

/-- Goes on behind a token of the given kind, and otherwise gives the token back. -/
def Parser.ifNext {α : Type} (kind : Kind) (yes no : Parser α) : Parser α := do
  match ← optional nextToken with
  | none => no
  | some token =>
    if token.is kind then
      yes
    else
      stepBack
      no

/-- A parser and a reader that are made in the same way from the calls of rules. -/
inductive Alike (call : (rule : Rule) → Parser rule.Result)
    (look : (rule : Rule) → Reader rule.Result) : (α : Type) → Parser α → Reader α → Prop where
  | pure {α : Type} (value : α) : Alike call look α (Pure.pure value) (Pure.pure value)
  | fail {α : Type} : Alike call look α .fail .fail
  | nextToken : Alike call look Token .nextToken .nextToken
  | call (rule : Rule) : Alike call look rule.Result (call rule) (look rule)
  | optional (rule : Rule) :
      Alike call look (Option rule.Result) (.optional (call rule)) (.optional (look rule))
  | orElse (rule : Rule) {p : Parser rule.Result} {q : Reader rule.Result}
      (others : Alike call look rule.Result p q) :
      Alike call look rule.Result (.orElse (call rule) p) (.orElse (look rule) q)
  | bind {α β : Type} {p : Parser α} {q : Reader α} {f : α → Parser β} {g : α → Reader β}
      (first : Alike call look α p q) (second : ∀ value, Alike call look β (f value) (g value)) :
      Alike call look β (p >>= f) (q >>= g)
  | ifNext {α : Type} (kind : Kind) {yes no : Parser α} {yes' no' : Reader α}
      (found : Alike call look α yes yes') (absent : Alike call look α no no') :
      Alike call look α (.ifNext kind yes no) (.ifNext kind yes' no')

namespace Alike

variable {call : (rule : Rule) → Parser rule.Result} {look : (rule : Rule) → Reader rule.Result}

theorem expect (kind : Kind) : Alike call look Token (.expect kind) (.expect kind) := by
  apply bind nextToken
  intro token
  split
  · exact pure token
  · exact fail

theorem ofOption {α : Type} (value : Option α) :
    Alike call look α (.ofOption value) (.ofOption value) := by
  cases value with
  | none => exact fail
  | some value => exact pure value

theorem arguments :
    Alike call look (List Term) (.arguments (call .termList)) (.arguments (look .termList)) :=
  bind (expect _) fun _ => bind (.call .termList) fun args => bind (expect _) fun _ => pure args

theorem moreTerms (rounds : Nat) :
    Alike call look (List Term) (.moreTerms (call .term) rounds)
      (.moreTerms (look .term) rounds) := by
  induction rounds with
  | zero => exact pure []
  | succ rounds ih =>
    exact ifNext .comma
      (bind (.call .term) fun next => bind ih fun others => pure (next :: others)) (pure [])

end Alike

theorem Rule.alike (call : (rule : Rule) → Parser rule.Result)
    (look : (rule : Rule) → Reader rule.Result) (rounds : Nat) (rule : Rule) :
    Alike call look rule.Result (rule.body call rounds) (rule.reader look rounds) := by
  cases rule with
  | definition =>
    exact .bind (.expect _) fun _ => .bind (.expect _) fun _ => .bind (.expect _) fun _ =>
      .bind (.call .formula) fun _ => .bind (.expect _) fun _ => .pure _
  | formula =>
    exact .orElse .binaryConnective <| .orElse .parenthesized <| .orElse .quantifier <|
      .orElse .negation <| .orElse .equality <| .orElse .predicate .fail
  | binaryConnective =>
    exact .bind (.call .binaryLhs) fun _ => .bind .nextToken fun _ => .bind (.ofOption _) fun _ =>
      .bind (.call .formula) fun _ => .pure _
  | binaryLhs =>
    exact .orElse .parenthesized <| .orElse .quantifier <| .orElse .negation <|
      .orElse .equality <| .orElse .predicate .fail
  | parenthesized =>
    exact .bind (.expect _) fun _ => .bind (.call .formula) fun _ => .bind (.expect _) fun _ =>
      .pure _
  | quantifier =>
    exact .bind .nextToken fun _ => .bind (.ofOption _) fun _ => .bind (.call .var) fun _ =>
      .bind (.call .formula) fun _ => .pure _
  | negation => exact .bind (.expect _) fun _ => .bind (.call .formula) fun _ => .pure _
  | equality =>
    exact .bind (.call .term) fun _ => .bind (.expect _) fun _ => .bind (.call .term) fun _ =>
      .pure _
  | predicate =>
    exact .bind .nextToken fun _ => .bind (.ofOption _) fun _ => .bind .arguments fun _ => .pure _
  | term => exact .orElse .function (.bind (.call .var) fun _ => .pure _)
  | function => exact .bind (.expect _) fun _ => .bind .arguments fun _ => .pure _
  | var => exact .bind (.expect _) fun _ => .pure _
  | termList =>
    apply Alike.bind (.optional .term)
    intro first?
    cases first? with
    | none => exact .pure []
    | some first => exact .bind (.moreTerms rounds) fun _ => .pure _
  | atEnd => exact .expect _

end Definiens
