import Definiens.Proofs.Grammar.Moments
import Definiens.Proofs.Grammar.Offence

/-!
# What a rule leaves behind

A rule may be tried at any moment, inside any other rules and with anything logged and saved.  It gives
the places that were saved back as they were and only adds to the log.  Without a match the cursor is
where it was; with a match it has gone over tokens, over at least one unless they are a list of terms,
and over the finish of the source only if that was what the rule looked for.
-/

namespace Definiens

open Category

/-! ## Words that are not empty -/

namespace Interpretation

/-- The tokens that are not empty, for every category but the two that may write nothing. -/
def inhabited : Interpretation := fun category =>
  {tokens | category ≠ .rule .termList → category ≠ .moreTerms → tokens ≠ []}

theorem inhabited_of_mem_form {symbols : Form} {tokens : List Token}
    (head : ∃ symbol ∈ symbols.head?, symbol ≠ part .termList ∧ symbol ≠ .nonterminal .moreTerms)
    (member : tokens ∈ inhabited.form symbols) : tokens ≠ [] := by
  cases symbols with
  | nil => simp at head
  | cons symbol symbols =>
    simp only [List.head?_cons, Option.mem_def, Option.some.injEq, exists_eq_left'] at head
    obtain ⟨notTermList, notMoreTerms⟩ := head
    cases symbol with
    | terminal terminal =>
      obtain ⟨token, behind, rfl, -, -⟩ := mem_form_terminal.mp member
      exact List.cons_ne_nil token behind
    | nonterminal category =>
      -- the first part of the word is not empty, whatever the others are
      obtain ⟨before, behind, rfl, hbefore, -⟩ := mem_form_nonterminal.mp member
      have first : before ≠ [] := hbefore (fun same => notTermList (congrArg _ same))
        (fun same => notMoreTerms (congrArg _ same))
      exact List.append_ne_nil_of_left_ne_nil first behind

theorem inhabited_closed : inhabited.Closed := by
  -- no production begins with one of the two categories that may write nothing, but theirs
  have heads : ∀ category ∈ Category.all, category ≠ .rule .termList → category ≠ .moreTerms →
      ∀ symbols ∈ category.productions, ∃ symbol ∈ symbols.head?,
        symbol ≠ part .termList ∧ symbol ≠ .nonterminal .moreTerms := by
    decide
  intro category symbols member tokens inside notTermList notMoreTerms
  exact inhabited_of_mem_form (heads category category.mem_all notTermList notMoreTerms symbols member)
    inside

end Interpretation

open Interpretation

theorem Between.exists_mem {items : List Item} {start stop place : Nat} {tokens : List Token}
    (stands : Between items start stop tokens) (low : start ≤ place) (high : place < stop) :
    ∃ token ∈ tokens, items[place]? = some (.token token) := by
  induction tokens generalizing start with
  | nil =>
    cases stands
    omega
  | cons token tokens ih =>
    obtain ⟨here, others⟩ := stands
    by_cases first : start = place
    · rw [first] at here
      exact ⟨token, List.mem_cons_self, here⟩
    · obtain ⟨token', member, here'⟩ := ih others (by omega)
      exact ⟨token', List.mem_cons_of_mem _ member, here'⟩

/-! ## Rules at any moment -/

/-- What a reading by a rule leaves behind that began in session `s`. -/
structure Rule.Leaves (rule : Rule) (s : Session) (ended : Outcome rule.Result × Session) : Prop where
  checkpoints : ended.2.cursor.checkpoints = s.cursor.checkpoints
  log : s.cursor.log.toList <+: ended.2.cursor.log.toList
  restored : ended.1.isMatch = false → ended.2.position = s.position
  /-- A match goes forward, if it is no list of terms. -/
  forward : ended.1.isMatch = true →
    s.position ≤ ended.2.position ∧ (rule ≠ .termList → s.position < ended.2.position)
  /-- A match goes over tokens, and none but the end of the source is at the finish. -/
  passed : ended.1.isMatch = true → ∀ place, s.position ≤ place → place < ended.2.position →
    ∃ token, ended.2.cursor.log[place]? = some (.token token) ∧
      (token.kind = .finish → rule = .atEnd)

/-- What a rule matches is not empty and holds no finish, but for the two rules that may. -/
theorem Reader.Adheres.words {rule : Rule} {q : Reader rule.Result}
    (adheres : q.Adheres [part rule]) {items : List Item} {start stop : Nat} {value : rule.Result}
    (ended : (q items start).outcome = .matched (value, stop)) :
    ∃ tokens, Between items start stop tokens ∧ (rule ≠ .termList → tokens ≠ []) ∧
      (rule ≠ .atEnd → ∀ token ∈ tokens, token.kind ≠ .finish) := by
  obtain ⟨-, tokens, stands, member⟩ := adheres.matched ended
  have derivable := mem_form_singleton.mp member
  refine ⟨tokens, stands, fun single => ?_, fun inner => ?_⟩
  · exact inhabited_closed.mem_of_derived derivable (fun same => single (Category.rule.inj same)) nofun
  · exact ordinary_closed.mem_of_derived derivable fun same => inner (Category.rule.inj same)

namespace Parser

/-- With any allowance, a rule in a session over some items leaves behind what it should. -/
theorem run_leaves {items : List Item} {s : Session} (along : s.cursor.Over items)
    (allowance : Nat) (rule : Rule) : rule.Leaves s (run allowance rule s) := by
  have told := (run_refines allowance rule).1 items s along
  have back := (run_refines allowance rule).2 items s along
  have words (value stop) :=
    @Reader.Adheres.words rule _ (Reader.Adheres.run allowance rule) items s.position stop value
  generalize run allowance rule s = ended at *
  generalize Reader.run allowance rule items s.position = reading at *
  rcases ended with ⟨ended, s'⟩
  have log : s.cursor.log.toList <+: s'.cursor.log.toList := by
    apply along.log_isPrefix told.along
    rw [told.size]
    exact Nat.le_max_left _ _
  rcases reading with ⟨⟨value, stop⟩ | _ | offset, reach⟩
  · obtain ⟨along', checkpoints, -, rfl, rfl⟩ := told
    obtain ⟨tokens, stands, single, inner⟩ := words value _ rfl
    refine ⟨checkpoints, log, nofun, fun _ => ⟨stands.start_le, fun other => ?_⟩, ?_⟩
    · have some := List.length_pos_iff.mpr (single other)
      rw [stands.stop_eq]
      exact Nat.lt_add_of_pos_right some
    · intro _ place low high
      obtain ⟨token, member, here⟩ := stands.exists_mem low high
      refine ⟨token, ?_, fun finish => ?_⟩
      · rw [along'.getElem?_log (Nat.lt_of_lt_of_le high along'.position_le), here]
      · exact Decidable.of_not_not fun other => inner other token member finish
  · obtain ⟨-, checkpoints, -, rfl⟩ := told
    exact ⟨checkpoints, log, back, nofun, nofun⟩
  · obtain ⟨-, checkpoints, -, rfl⟩ := told
    exact ⟨checkpoints, log, back, nofun, nofun⟩

end Parser

/-- At every moment of a source a rule leaves the session tidy behind, whether it is called or comes to
be tried inside other rules, and the session has come to another moment then. -/
theorem leaves_at_every_moment (source : String) (moves : List Move) (journal : Option (List Entry))
    (rule : Rule) :
    let s := Session.moment source moves journal
    rule.Leaves s (Parser.call rule s) ∧
      ∀ allowance, rule.Leaves s (Parser.run allowance rule s) ∧
        ∃ more journal', (Parser.run allowance rule s).2 =
          Session.moment source (moves ++ more) journal' := by
  intro s
  have along : s.cursor.Over (TokenStream.ofSource source).items := Session.over_moment
  refine ⟨Parser.run_leaves along s.allowance rule, fun allowance =>
    ⟨Parser.run_leaves along allowance rule, ?_⟩⟩
  have here : s = Session.moment source (moves ++ []) journal := by
    rw [List.append_nil]
  exact Parser.Keeps.run (Session.kept_moment source moves) allowance rule s ⟨[], journal, here⟩

end Definiens
