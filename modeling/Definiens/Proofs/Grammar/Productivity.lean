import Definiens.Proofs.Grammar.Productions
import Definiens.Token.Stream

/-!
# Every form can be completed

There is no category from which nothing can be derived.  What is more, the tokens of one short source
are enough: whatever tokens have a completion at all have one by tokens that the lexer gives.
-/

namespace Definiens

open Interpretation

/-- A token as sources have them. -/
def Token.Genuine (token : Token) : Prop :=
  ∃ source tokens, tokenize source = .ok tokens ∧ token ∈ tokens

/-- Genuine tokens behind the given ones make of them something that the form derives. -/
def Completable (symbols : Category.Form) (seen : List Token) : Prop :=
  ∃ more : List Token, (∀ token ∈ more, token.Genuine) ∧ seen ++ more ∈ derived.form symbols

/-! ## Every form derives something -/

def pangram : String := "( ) \x7b \x7d , = ! def forall exists and or => <=> type[t] x in"

def pangramTokens : List Token := (tokenize pangram).toOption.getD []

theorem tokenize_pangram : tokenize pangram = .ok pangramTokens := by
  rfl

instance (terminal : Terminal) (token : Token) : Decidable (terminal.Fits token) :=
  match terminal with
  | .kind known => inferInstanceAs (Decidable (token.kind = known))
  | .membership => inferInstanceAs (Decidable (_ ∧ _))

theorem Terminal.exists_genuine (terminal : Terminal) :
    ∃ token : Token, token.Genuine ∧ terminal.Fits token := by
  have all : ∀ terminal ∈ .membership :: Kind.all.map Terminal.kind,
      ∃ token ∈ pangramTokens, terminal.Fits token := by
    decide +kernel
  have member : terminal ∈ .membership :: Kind.all.map Terminal.kind := by
    cases terminal with
    | kind kind => exact List.mem_cons_of_mem _ (List.mem_map_of_mem kind.mem_all)
    | membership => exact List.mem_cons_self
  obtain ⟨token, genuine, fits⟩ := all terminal member
  exact ⟨token, ⟨pangram, pangramTokens, tokenize_pangram, genuine⟩, fits⟩

theorem completable_nil : Completable [] [] :=
  ⟨[], nofun, rfl⟩

theorem Completable.append {before behind : Category.Form} {seen : List Token}
    (first : Completable before seen) (others : Completable behind []) :
    Completable (before ++ behind) seen := by
  obtain ⟨more, genuine, member⟩ := first
  obtain ⟨more', genuine', member'⟩ := others
  refine ⟨more ++ more', List.forall_mem_append.mpr ⟨genuine, genuine'⟩, ?_⟩
  rw [← List.append_assoc]
  exact append_mem_form member member'

theorem Completable.prepend {ahead symbols : Category.Form} {tokens seen : List Token}
    (member : tokens ∈ derived.form ahead) (others : Completable symbols seen) :
    Completable (ahead ++ symbols) (tokens ++ seen) := by
  obtain ⟨more, genuine, member'⟩ := others
  refine ⟨more, genuine, ?_⟩
  rw [List.append_assoc]
  exact append_mem_form member member'

theorem completable_of_production {category : Category} {expansion : Category.Form}
    {seen : List Token} (production : expansion ∈ category.productions)
    (inside : Completable expansion seen) : Completable [.nonterminal category] seen := by
  obtain ⟨more, genuine, member⟩ := inside
  exact ⟨more, genuine, mem_form_of_production production member⟩

theorem completable_terminal (terminal : Terminal) : Completable [.terminal terminal] [] := by
  obtain ⟨token, genuine, fits⟩ := terminal.exists_genuine
  exact ⟨[token], List.forall_mem_singleton.mpr genuine,
    mem_form_terminal.mpr ⟨token, [], rfl, fits, rfl⟩⟩

theorem completable_of_forall {symbols : Category.Form}
    (each : ∀ symbol ∈ symbols, Completable [symbol] []) : Completable symbols [] := by
  induction symbols with
  | nil => exact completable_nil
  | cons head tail ih =>
    obtain ⟨first, others⟩ := List.forall_mem_cons.mp each
    exact first.append (ih others)

/-- Every category derives something; the shortest formulas are equalities of variables. -/
theorem completable_nonterminal (category : Category) : Completable [.nonterminal category] [] := by
  have expand {category expansion} (production : expansion ∈ category.productions)
      (each : ∀ symbol ∈ expansion, Completable [symbol] []) :
      Completable [.nonterminal category] [] :=
    completable_of_production production (completable_of_forall each)
  -- from the categories that need no others up to those that do
  have terminal := completable_terminal
  have operator : Completable [.nonterminal .operator] [] :=
    expand List.mem_cons_self (by simp [terminal])
  have keyword : Completable [.nonterminal .keyword] [] :=
    expand List.mem_cons_self (by simp [terminal])
  have predicateName : Completable [.nonterminal .predicateName] [] :=
    expand List.mem_cons_self (by simp [terminal])
  have moreTerms : Completable [.nonterminal .moreTerms] [] := expand List.mem_cons_self nofun
  have termList : Completable [Category.part .termList] [] := expand List.mem_cons_self nofun
  have var : Completable [Category.part .var] [] := expand List.mem_cons_self (by simp [terminal])
  have function : Completable [Category.part .function] [] :=
    expand List.mem_cons_self (by simp [terminal, termList])
  have term : Completable [Category.part .term] [] :=
    expand List.mem_cons_self (by simp [function])
  have equality : Completable [Category.part .equality] [] :=
    expand List.mem_cons_self (by simp [terminal, term])
  have predicate : Completable [Category.part .predicate] [] :=
    expand List.mem_cons_self (by simp [terminal, predicateName, termList])
  have formula : Completable [Category.part .formula] [] :=
    completable_of_production (by simp [Category.productions]) equality
  have binaryLhs : Completable [Category.part .binaryLhs] [] :=
    completable_of_production (by simp [Category.productions]) equality
  cases category with
  | rule rule =>
    cases rule with
    | definition => exact expand List.mem_cons_self (by simp [terminal, formula])
    | formula => exact formula
    | binaryConnective => exact expand List.mem_cons_self (by simp [binaryLhs, operator, formula])
    | binaryLhs => exact binaryLhs
    | parenthesized => exact expand List.mem_cons_self (by simp [terminal, formula])
    | quantifier => exact expand List.mem_cons_self (by simp [keyword, var, formula])
    | negation => exact expand List.mem_cons_self (by simp [terminal, formula])
    | equality => exact equality
    | predicate => exact predicate
    | term => exact term
    | function => exact function
    | var => exact var
    | termList => exact termList
    | atEnd => exact expand List.mem_cons_self (by simp [terminal])
  | operator => exact operator
  | keyword => exact keyword
  | predicateName => exact predicateName
  | moreTerms => exact moreTerms

theorem completable_form (symbols : Category.Form) : Completable symbols [] := by
  apply completable_of_forall
  intro symbol _
  cases symbol with
  | terminal terminal => exact completable_terminal terminal
  | nonterminal category => exact completable_nonterminal category

end Definiens
