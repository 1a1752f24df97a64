import Definiens.Proofs.Grammar.Calls
import Definiens.Proofs.Grammar.Descending
import Definiens.Proofs.Grammar.Matches

/-!
# Lists of terms

A list of terms is read one item too far and gives that item back, and a term that begins like a function may
turn out to be a variable.  Still a list is never cut short: what the rule matches are all the terms that are
found by looking for one term after another, as long as there is a comma between them, and where a comma is
left over it matches nothing.
-/

namespace Definiens

/-! ## One term after another -/

namespace Session

/-- By looking for a term, passing over a comma and looking for a term again, terms are found between two
sessions; the second one is right behind the last of them. -/
inductive Terms : Session → List Term → Session → Prop where
  | one {s s' : Session} {first : Term} (found : Parser.call .term s = (.matched first, s')) :
      Terms s [first] s'
  | cons {s s' s'' last : Session} {first : Term} {others : List Term} {comma : Token}
      (found : Parser.call .term s = (.matched first, s'))
      (passed : Parser.nextToken s' = (.matched comma, s'')) (isComma : comma.kind = .comma)
      (behind : Terms s'' others last) : Terms s (first :: others) last

def NoComma (s : Session) : Prop :=
  ∀ comma s', Parser.nextToken s = (.matched comma, s') → comma.kind ≠ .comma

/-- There is a comma next, and no term behind it. -/
def DanglingComma (s : Session) : Prop :=
  ∃ comma s', Parser.nextToken s = (.matched comma, s') ∧ comma.kind = .comma ∧
    (Parser.call .term s').1 = .noMatch

variable {s last last' : Session} {terms others : List Term}

theorem Terms.found (run : s.Terms terms last) : ∃ first, (Parser.call .term s).1 = .matched first := by
  cases run with
  | one found => exact ⟨_, congrArg Prod.fst found⟩
  | cons found => exact ⟨_, congrArg Prod.fst found⟩

/-- Where no comma with a term follows, all terms have been found: any others that are found from the same
session on are some of them. -/
theorem Terms.isPrefix_of_ends (whole : s.Terms terms last) (ends : last.NoComma ∨ last.DanglingComma)
    (part : s.Terms others last') : others <+: terms := by
  induction whole generalizing others last' with
  | one found =>
    cases part with
    | one found' =>
      rw [found] at found'
      cases found'
      exact List.prefix_refl _
    | cons found' passed isComma behind =>
      rw [found] at found'
      cases found'
      rcases ends with none | ⟨comma, s'', passed', -, absent⟩
      · exact absurd isComma (none _ _ passed)
      · rw [passed] at passed'
        cases passed'
        obtain ⟨next, found'⟩ := behind.found
        rw [absent] at found'
        cases found'
  | cons found passed isComma behind ih =>
    cases part with
    | one found' =>
      rw [found] at found'
      cases found'
      exact List.cons_prefix_cons.mpr ⟨rfl, List.nil_prefix⟩
    | cons found' passed' isComma' behind' =>
      rw [found] at found'
      cases found'
      rw [passed] at passed'
      cases passed'
      exact List.cons_prefix_cons.mpr ⟨rfl, ih ends behind'⟩

end Session

/-! ## Readings of lists -/

namespace Rule

variable {items : List Item} {start middle : Nat} {first : Term}

theorem term_ne_noMatch {token : Token} (here : items[start]? = some (.token token))
    (symbol : token.kind = .symbol) : (term.read items start).outcome ≠ .noMatch := by
  intro absent
  rw [read_term] at absent
  have noVariable := (Reader.noMatch_orElse.mp absent).2
  have found : (var.read items start).outcome = .matched (⟨token⟩, start + 1) :=
    matched_var.mpr ⟨here, symbol, rfl⟩
  rw [Reader.outcome_bind_of_matched found] at noVariable
  cases noVariable

theorem outcome_termList_of_term (found : (term.read items start).outcome = .matched (first, middle)) :
    (termList.read items start).outcome = (someTerms items start).outcome := by
  rw [read_termList, Reader.outcome_bind_of_matched (Reader.matched_optional_some.mpr found), someTerms,
    Reader.outcome_bind_of_matched found]

theorem failed_termList_of_term {offset : Nat} (failed : (term.read items start).outcome = .failed offset) :
    (termList.read items start).outcome = .failed offset := by
  rw [read_termList]
  exact Reader.failed_bind.mpr (Or.inl (Reader.failed_optional.mpr failed))

theorem outcome_furtherTerms_of_comma {comma : Token} (here : items[middle]? = some (.token comma))
    (isComma : comma.kind = .comma) :
    (furtherTerms items middle).outcome = (someTerms items (middle + 1)).outcome := by
  have passed : comma.is .comma = true := Token.is_eq_true.mpr isComma
  simp only [furtherTerms_eq, Reader.ifNext, here, passed, if_true, Reading.outcome_also]

theorem outcome_furtherTerms_of_failure {offset : Nat} (here : items[middle]? = some (.failure offset)) :
    (furtherTerms items middle).outcome = .failed offset := by
  simp only [furtherTerms_eq, Reader.ifNext, here]

end Rule

/-! ## Lists at a session -/

namespace Session

variable {items : List Item} {s s' : Session} {first : Term}

theorem noComma_of_expect (along : s.cursor.Over items)
    (absent : (Reader.expect .comma items s.position).outcome = .noMatch) : s.NoComma := by
  intro comma s' passed
  have told := Parser.Refines.nextToken items s along
  have read := told.outcome_of_matched (congrArg Prod.fst passed)
  obtain ⟨token, same, other⟩ := Reader.noMatch_expect.mp absent _ (Reader.matched_nextToken.mp read).1
  cases same
  exact other

/-- A term that is found has been read up to where the session stands, and that is further ahead. -/
theorem read_of_found (along : s.cursor.Over items) (found : Parser.call .term s = (.matched first, s')) :
    s'.cursor.Over items ∧ s.position < s'.position ∧
      (Rule.term.read items s.position).outcome = .matched (first, s'.position) := by
  have forward := (Parser.run_leaves along s.allowance .term).forward
  rw [← Parser.call, found] at forward
  rcases Parser.call_cases along .term with
    ⟨_, _, found', along', read⟩ | ⟨_, found', -⟩ | ⟨_, _, found', -⟩ <;>
    rw [found] at found' <;> cases found'
  exact ⟨along', (forward rfl).2 (by decide), read⟩

theorem passed_of_expect (along : s.cursor.Over items) {comma : Token} {stop : Nat}
    (separator : (Reader.expect .comma items s.position).outcome = .matched (comma, stop)) :
    ∃ s', Parser.nextToken s = (.matched comma, s') ∧ comma.kind = .comma ∧ s'.cursor.Over items ∧
      s'.position = s.position + 1 ∧ s.position < items.length ∧
      (Rule.furtherTerms items s.position).outcome = (Rule.someTerms items s'.position).outcome := by
  obtain ⟨here, isComma, rfl⟩ := Reader.matched_expect.mp separator
  obtain ⟨inside, -⟩ := List.getElem?_eq_some_iff.mp here
  obtain ⟨s', passed, along', -, -, position⟩ := Parser.nextToken_over along
  rw [here] at passed
  rw [if_pos inside] at position
  refine ⟨s', passed, isComma, along', position, inside, ?_⟩
  rw [position]
  exact Rule.outcome_furtherTerms_of_comma here isComma

/-- A list that is not empty, and that comes upon no failure, holds all the terms that are found one after
another, up to where there is no comma; with a comma left over it does not match. -/
theorem exists_terms (along : s.cursor.Over items) (found : Parser.call .term s = (.matched first, s'))
    (fine : ∀ offset, (Rule.someTerms items s.position).outcome ≠ .failed offset) :
    ∃ terms last, s.Terms terms last ∧
      (last.NoComma ∧ (Rule.someTerms items s.position).outcome = .matched (terms, last.position) ∨
        last.DanglingComma ∧ (Rule.someTerms items s.position).outcome = .noMatch) := by
  -- by the number of items ahead, which every term makes less
  generalize bound : items.length - s.position = ahead
  induction ahead using Nat.strongRecOn generalizing s s' first with
  | ind ahead ih =>
    subst bound
    obtain ⟨along', forward, read⟩ := read_of_found along found
    rw [Rule.someTerms, Reader.outcome_bind_of_matched read] at fine ⊢
    rcases separator : (Reader.expect .comma items s'.position).outcome with ⟨comma, stop⟩ | _ | offset
    · -- behind a comma the list goes on with the next term, if there is one
      obtain ⟨s'', passed, isComma, along'', position, inside, further⟩ := passed_of_expect along' separator
      have fine' (offset : Nat) : (Rule.someTerms items s''.position).outcome ≠ .failed offset :=
        fun failed => fine offset (Reader.failed_bind.mpr (Or.inl (further.trans failed)))
      rcases Parser.call_cases along'' .term with
        ⟨next, behind, found', -⟩ | ⟨behind, absent, -, read'⟩ | ⟨offset, -, -, -, read'⟩
      · obtain ⟨terms, last, run, ends⟩ := ih _ (by omega) along'' found' fine' rfl
        refine ⟨first :: terms, last, .cons found passed isComma run, ?_⟩
        rcases ends with ⟨noComma, ended⟩ | ⟨dangling, ended⟩
        · exact Or.inl ⟨noComma, Reader.matched_bind.mpr ⟨terms, _, further.trans ended, rfl⟩⟩
        · exact Or.inr ⟨dangling, Reader.noMatch_bind.mpr (Or.inl (further.trans ended))⟩
      · have dangling : s'.DanglingComma := ⟨comma, s'', passed, isComma, congrArg Prod.fst absent⟩
        have ended : (Rule.someTerms items s''.position).outcome = .noMatch :=
          Reader.noMatch_bind.mpr (Or.inl read')
        exact ⟨[first], s', .one found, Or.inr
          ⟨dangling, Reader.noMatch_bind.mpr (Or.inl (further.trans ended))⟩⟩
      · exact absurd (Reader.failed_bind.mpr (Or.inl read')) (fine' offset)
    · have ended : (Rule.furtherTerms items s'.position).outcome = .matched ([], s'.position) :=
        Rule.matched_furtherTerms.mpr (Or.inr ⟨separator, rfl, rfl⟩)
      exact ⟨[first], s', .one found, Or.inl
        ⟨noComma_of_expect along' separator, Reader.matched_bind.mpr ⟨[], _, ended, rfl⟩⟩⟩
    · have failed := Rule.outcome_furtherTerms_of_failure (Reader.failed_expect.mp separator)
      exact absurd (Reader.failed_bind.mpr (Or.inl failed)) (fine offset)

end Session

/-- At every moment of a source, and so wherever a list of terms can begin, be it inside the arguments of
other terms: where there is no symbol the list is empty and nothing is passed.  Where there is one, a term is
found, and the list holds all the terms that are found one after another, behind a comma each; the reading
stops right behind the last of them, unless there is a comma with no term behind it.  Then there is no list.
Nothing of this depends on the allowance, where it meets the need of the list. -/
theorem term_list_whole_or_not_at_all (source : String) (moves : List Move) (journal : Option (List Entry)) :
    let items := (TokenStream.ofSource source).items
    let s := Session.moment source moves journal
    let ended := Parser.call .termList s
    (∀ offset, ended.1 ≠ .failed offset) →
      ((∀ token, items[s.position]? = some (.token token) → token.kind ≠ .symbol) →
        ended.1 = .matched [] ∧ ended.2.position = s.position) ∧
      (∀ token, items[s.position]? = some (.token token) → token.kind = .symbol →
        ∃ terms last, s.Terms terms last ∧ (∀ others last', s.Terms others last' → others <+: terms) ∧
          (last.NoComma ∧ ended.1 = .matched terms ∧ ended.2.position = last.position ∨
            last.DanglingComma ∧ ended.1 = .noMatch ∧ ended.2.position = s.position)) ∧
      ∀ allowance, Rule.termList.need (items.length - s.position) ≤ allowance →
        Parser.run allowance .termList s = ended := by
  intro items s ended fine
  have along : s.cursor.Over items := Session.over_moment
  have fine' (offset : Nat) : (Rule.termList.read items s.position).outcome ≠ .failed offset :=
    fun failed => fine offset ((Parser.call_refines .termList items s along).failed_iff.mpr failed)
  have same (allowance : Nat) (enough : Rule.termList.need (items.length - s.position) ≤ allowance) :
      Parser.run allowance .termList s = ended := by
    rw [Parser.run_eq_runOr]
    exact Parser.runOr_eq_run _ _ along (Parser.need_le_allowance along .termList) enough
  rcases Parser.call_cases along .term with
    ⟨first, s', found, -, read⟩ | ⟨-, -, -, absent⟩ | ⟨offset, -, -, -, failed⟩
  · obtain ⟨token, here, symbol⟩ := Rule.kind_of_matched_term read
    refine ⟨fun none => absurd symbol (none token here), fun _ _ _ => ?_, same⟩
    have list := Rule.outcome_termList_of_term read
    obtain ⟨terms, last, run, ends⟩ := Session.exists_terms along found fun offset failed =>
      fine' offset (list.trans failed)
    rw [← list] at ends
    refine ⟨terms, last, run, fun others last' => run.isPrefix_of_ends (ends.imp And.left And.left), ?_⟩
    rcases ends with ⟨noComma, whole⟩ | ⟨dangling, none⟩
    · exact Or.inl ⟨noComma, Parser.call_of_matched along whole⟩
    · exact Or.inr ⟨dangling, Parser.call_of_noMatch along none⟩
  · have empty : (Rule.termList.read items s.position).outcome = .matched ([], s.position) :=
      Rule.matched_termList_nil.mpr ⟨absent, rfl⟩
    exact ⟨fun _ => Parser.call_of_matched along empty,
      fun token here symbol => absurd absent (Rule.term_ne_noMatch here symbol), same⟩
  · exact absurd (Rule.failed_termList_of_term failed) (fine' offset)

/-- In `a, f(b,), c` the arguments of `f` are no list, so `f` is a variable, and the list ends behind it. -/
theorem term_list_up_to_refused_arguments :
    let s := Session.moment "a, f(b,), c" [] none
    (∀ offset, (Parser.call .termList s).1 ≠ .failed offset) ∧
      ∃ terms last, s.Terms terms last ∧ (∀ others last', s.Terms others last' → others <+: terms) ∧
        last.NoComma ∧ last.position = 3 ∧ (Parser.call .termList s).1 = .matched terms := by
  intro s
  have matched : (Parser.call .termList s).1.isMatch = true := by decide +kernel
  have stop : (Parser.call .termList s).2.position = 3 := by decide +kernel
  have here : (TokenStream.ofSource "a, f(b,), c").items[s.position]? =
      some (.token ⟨.symbol, "a", 0, 1⟩) := by
    decide +kernel
  have fine (offset : Nat) : (Parser.call .termList s).1 ≠ .failed offset := by
    intro failed
    rw [failed] at matched
    cases matched
  obtain ⟨-, list, -⟩ := term_list_whole_or_not_at_all "a, f(b,), c" [] none fine
  obtain ⟨terms, last, run, all, ends⟩ := list _ here rfl
  rcases ends with ⟨noComma, ended, position⟩ | ⟨-, absent, -⟩
  · exact ⟨fine, terms, last, run, all, noComma, position.symm.trans stop, ended⟩
  · rw [absent] at matched
    cases matched

end Definiens
