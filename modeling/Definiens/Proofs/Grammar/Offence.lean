import Definiens.Proofs.Grammar.Exactness
import Definiens.Proofs.Grammar.Refusal

/-!
# The first offending token

A source that is no definition is refused at its first token that no sentence has at that place.  Up to
there its tokens can be completed, since reading looks no further than that; and had they, with that
token, a completion, then reading it would go as it did and match.
-/

namespace Definiens

open Interpretation

/-- The tokens of a definition, and the finish behind them. -/
def Sentence (tokens : List Token) : Prop :=
  ∃ (before : List Token) (finish : Token), tokens = before ++ [finish] ∧ Derivable before ∧
    finish.kind = .finish

/-! ## Sentences -/

namespace Interpretation

/-- The tokens without a finish among them, for every category but the end of the source. -/
def ordinary : Interpretation := fun category =>
  {tokens | category ≠ .rule .atEnd → ∀ token ∈ tokens, token.kind ≠ .finish}

theorem ordinary_of_mem_form {symbols : Category.Form} {tokens : List Token}
    (each : ∀ symbol ∈ symbols, symbol ≠ Category.token .finish ∧ symbol ≠ Category.part .atEnd)
    (member : tokens ∈ ordinary.form symbols) : ∀ token ∈ tokens, token.kind ≠ .finish := by
  induction symbols generalizing tokens with
  | nil =>
    cases mem_form_nil.mp member
    exact nofun
  | cons symbol symbols ih =>
    obtain ⟨⟨notFinish, notEnd⟩, others⟩ := List.forall_mem_cons.mp each
    cases symbol with
    | terminal terminal =>
      obtain ⟨token, behind, rfl, fits, member⟩ := mem_form_terminal.mp member
      refine List.forall_mem_cons.mpr ⟨?_, ih others member⟩
      rintro finish
      cases terminal with
      | kind known =>
        have same : token.kind = known := fits
        exact notFinish (by rw [← same, finish])
      | membership =>
        have symbol : token.kind = .symbol := fits.1
        rw [finish] at symbol
        cases symbol
    | nonterminal category =>
      obtain ⟨before, behind, rfl, hbefore, member⟩ := mem_form_nonterminal.mp member
      refine List.forall_mem_append.mpr ⟨hbefore ?_, ih others member⟩
      rintro rfl
      exact notEnd rfl

theorem ordinary_closed : ordinary.Closed := by
  have forms : ∀ category ∈ Category.all, category ≠ .rule .atEnd →
      ∀ symbols ∈ category.productions, ∀ symbol ∈ symbols,
        symbol ≠ Category.token .finish ∧ symbol ≠ Category.part .atEnd := by
    decide
  intro category symbols member tokens inside other
  exact ordinary_of_mem_form (forms category category.mem_all other symbols member) inside

end Interpretation

theorem Derivable.ordinary {tokens : List Token} (derivable : Derivable tokens) :
    ∀ token ∈ tokens, token.kind ≠ .finish :=
  ordinary_closed.mem_of_derived (derivable_iff.mp derivable) (by decide)

theorem sentence_of_mem_form {tokens : List Token}
    (member : tokens ∈ derived.form [Category.part .definition, Category.part .atEnd]) :
    Sentence tokens := by
  obtain ⟨before, _, rfl, hbefore, member⟩ := mem_form_nonterminal.mp member
  obtain ⟨finish, last, rfl⟩ := written_closed.mem_of_derived (mem_form_singleton.mp member)
  exact ⟨before, finish, rfl, hbefore, last⟩

/-! ## Reading whole -/

theorem Reader.adheres_whole :
    whole.Adheres [Category.part .definition, Category.part .atEnd] :=
  .bind (Rule.adheres_read .definition) fun d =>
    .bind (Rule.adheres_read .atEnd) fun _ => .pure d

theorem Reader.local_whole : Local whole :=
  .bind (Rule.local_read .definition) fun _ =>
    .bind (Rule.local_read .atEnd) fun _ _ _ _ _ => rfl

/-- Before the last token that reading has looked at, the tokens can be completed to a sentence. -/
theorem exists_sentence_of_lt_reach {tokens : List Token} {place : Nat}
    (looked : place < (Reader.whole (tokens.map Item.token) 0).reach)
    (inside : place ≤ tokens.length) :
    ∃ more : List Token, (∀ token ∈ more, token.Genuine) ∧
      Sentence (tokens.take place ++ more) := by
  obtain ⟨seen, stands, more, genuine, member⟩ :=
    Reader.adheres_whole.viable (Nat.zero_le place) looked
  have all : Between (tokens.map Item.token) 0 tokens.length
      (tokens.take place ++ tokens.drop place) := by
    rw [List.take_append_drop]
    exact Between.map_self tokens
  obtain ⟨middle, hbefore, -⟩ := all.split
  have same : middle = place := by
    rw [hbefore.stop_eq, Nat.zero_add, List.length_take, Nat.min_eq_left inside]
  rw [same] at hbefore
  rw [stands.unique hbefore] at member
  exact ⟨more, genuine, sentence_of_mem_form member⟩

/-- What reading has looked at without a match is not the beginning of a sentence. -/
theorem not_sentence_of_noMatch {tokens more : List Token} {finish : Token}
    (last : finish.kind = .finish) {place : Nat}
    (noMatch : (Reader.whole ((tokens ++ [finish]).map Item.token) 0).outcome = .noMatch)
    (looked : place + 1 = min (Reader.whole ((tokens ++ [finish]).map Item.token) 0).reach
      (tokens.length + 1)) :
    ¬ Sentence ((tokens ++ [finish]).take (place + 1) ++ more) := by
  rintro ⟨before, finish', same, derivable, last'⟩
  obtain ⟨d, written⟩ := derivable.written
  obtain ⟨stop, read⟩ := (matched_whole_iff_written last' derivable.ordinary).mpr written
  have alike : Reader.whole ((before ++ [finish']).map Item.token) 0 =
      Reader.whole ((tokens ++ [finish]).map Item.token) 0 := by
    apply Reader.local_whole
    intro seen near
    rcases Nat.lt_or_ge seen (place + 1) with early | late
    · have kept : seen < ((tokens ++ [finish]).take (place + 1)).length := by
        simp only [List.length_take, List.length_append, List.length_singleton]
        omega
      rw [← same, List.getElem?_map, List.getElem?_map, List.getElem?_append_left kept,
        List.getElem?_take_of_lt early]
    · -- the finish has been looked at, and behind it there is nothing in a sentence
      have all : (tokens ++ [finish]).take (place + 1) = tokens ++ [finish] := by
        apply List.take_of_length_le
        simp only [List.length_append, List.length_singleton]
        omega
      rw [all] at same
      rcases List.eq_nil_or_concat more with rfl | ⟨others, final, rfl⟩
      · rw [← same, List.append_nil]
      · rw [List.concat_eq_append, ← List.append_assoc] at same
        have inside := List.append_inj_left' same rfl
        exact absurd last (derivable.ordinary finish (by simp [← inside]))
  rw [alike, noMatch] at read
  cases read

theorem take_eq_append_drop {α : Type} {items : List α} {sooner later : Nat} (before : sooner < later) :
    items.take later = items.take (sooner + 1) ++ (items.take later).drop (sooner + 1) := by
  have split := List.take_append_drop (sooner + 1) (items.take later)
  rw [List.take_take, Nat.min_eq_left before] at split
  exact split.symm

/-- A source that is lexed to its end and refused is refused at its first token that no sentence has at
that place: before it the tokens can be completed to a sentence, by tokens as sources have them. -/
theorem parse_unmatched_at_first_offence {source : String} {tokens : List Token} {offset : Nat}
    (lexed : tokenize source = .ok tokens) (refused : parse source = .error (.unmatched offset)) :
    ∃ place token, tokens[place]? = some token ∧ token.offset = offset ∧
      IsLeast {place | ∀ more, ¬ Sentence (tokens.take (place + 1) ++ more)} place ∧
      (∃ more : List Token, (∀ token ∈ more, token.Genuine) ∧
        Sentence (tokens.take place ++ more)) ∧
      (Parser.whole (Session.silent source)).2.cursor.furthestValue? = some (.token token) := by
  obtain ⟨hitems, before, last, rfl, -⟩ := items_of_tokenize lexed
  have noMatch := noMatch_of_parse_unmatched refused
  obtain ⟨place, token, looked, here, furthest, parsed⟩ :=
    parse_of_noMatch_of_tokens hitems noMatch
  rw [refused] at parsed
  rw [wholeReading, hitems] at noMatch looked
  have completion : ∃ more : List Token, (∀ token ∈ more, token.Genuine) ∧
      Sentence ((before ++ [Token.finish last]).take place ++ more) := by
    apply exists_sentence_of_lt_reach (by omega)
    simp only [List.length_append, List.length_singleton]
    omega
  refine ⟨place, token, here, ?_, ⟨?_, ?_⟩, completion, furthest⟩
  · simpa using parsed.symm
  · intro more
    exact not_sentence_of_noMatch rfl noMatch looked
  · intro earlier hopeless
    obtain ⟨more, -, sentence⟩ := completion
    apply Nat.le_of_not_lt
    intro sooner
    rw [take_eq_append_drop sooner, List.append_assoc] at sentence
    exact hopeless _ sentence

/-- A variable is no formula, and that is clear at the brace behind it. -/
theorem first_offence_behind_variable :
    tokenize "def type[a] \x7b x \x7d" = .ok
        [⟨.define, "def", 0, 3⟩, ⟨.type, "type[a]", 4, 7⟩, ⟨.leftBrace, "\x7b", 12, 1⟩,
         ⟨.symbol, "x", 14, 1⟩, ⟨.rightBrace, "\x7d", 16, 1⟩, .finish 17] ∧
      parse "def type[a] \x7b x \x7d" = .error (.unmatched 16) ∧
      IsLeast {place | ∀ more, ¬ Sentence
        ([⟨.define, "def", 0, 3⟩, ⟨.type, "type[a]", 4, 7⟩, ⟨.leftBrace, "\x7b", 12, 1⟩,
          ⟨.symbol, "x", 14, 1⟩, ⟨.rightBrace, "\x7d", 16, 1⟩, Token.finish 17].take (place + 1) ++
            more)} 4 := by
  have lexed : tokenize "def type[a] \x7b x \x7d" = .ok
      [⟨.define, "def", 0, 3⟩, ⟨.type, "type[a]", 4, 7⟩, ⟨.leftBrace, "\x7b", 12, 1⟩,
       ⟨.symbol, "x", 14, 1⟩, ⟨.rightBrace, "\x7d", 16, 1⟩, .finish 17] := by
    rfl
  have refused : parse "def type[a] \x7b x \x7d" = .error (.unmatched 16) := by
    decide +kernel
  obtain ⟨place, token, here, offset, least, -⟩ := parse_unmatched_at_first_offence lexed refused
  have only : place = 4 := by
    rcases place with _ | _ | _ | _ | _ | _ | place <;> simp at here <;> subst here <;>
      simp [Token.finish] at offset ⊢
  rw [only] at least
  exact ⟨lexed, refused, least⟩

end Definiens
