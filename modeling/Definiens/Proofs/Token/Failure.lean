import Definiens.Proofs.Token.Tiling

/-!
# Where lexing fails

Lexing fails by falling through all the rules, each of which looks at a different extent of the text.  What
is left when they have all been tried is told here in one piece: a type literal is opened and the text has no
closing bracket, or a character stands there with which nothing but `<=>` may begin, and it is no `<=>`.  A
source is rejected exactly if its tokens and gaps lead up to such a text, and the place where it begins is
the one that is reported.
-/

namespace Definiens

open Text

/-! ## Texts that begin with no lexeme -/

/-- The characters other than ASCII letters and digits that a lexeme may begin with, whatever follows. -/
def leadingMarks : List Char :=
  ['+', '-', '*', '/', '^', '_', '\\', '(', ')', '\x7b', '\x7d', ',', '=', '!']

/-- A text that does not end at once and begins with no lexeme. -/
inductive Lexeme.NoneAhead : List Char → Prop where
  | unclosed {text : List Char} (opened : typeOpening <+: text) (neverClosed : typeClosing ∉ text) :
      NoneAhead text
  /-- The first character is foreign, and what stands up to a delimiter is not `<=>`. -/
  | foreign {c : Char} {behind : List Char} (notAlphanum : c.isAlphanum = false)
      (notLeading : c ∉ leadingMarks)
      (notIff : ((c :: behind).takeWhile fun c => !isDelimiter c) ≠ ['<', '=', '>']) :
      NoneAhead (c :: behind)

theorem Kind.ofKeyword?_eq_none_iff {text : List Char} :
    ofKeyword? text = none ↔ ∀ entry ∈ keywords, entry.1.toList ≠ text := by
  simp [ofKeyword?, List.find?_eq_none]

theorem Kind.ofMark?_eq_none_iff {c : Char} :
    ofMark? c = none ↔ c ∉ ['(', ')', '\x7b', '\x7d', ',', '=', '!'] := by
  rw [ofMark?]
  repeat' split
  all_goals simp [*]

namespace Lexeme

/-- The rules fall through one after the other, or a type literal stops them. -/
theorem first?_eq_none_iff {text : List Char} :
    first? text = none ↔
      Kind.ofKeyword? (text.takeWhile fun c => !isDelimiter c) = none ∧
      text.head?.bind Kind.ofMark? = none ∧
      ((typeOpening <+: text ∧ typeClosing ∉ text) ∨
        (¬ typeOpening <+: text ∧ text.takeWhile isSymbolic = [])) := by
  rw [first?]
  split
  next keyword => simp [keyword]
  next keyword mark => simp [keyword, mark]
  next keyword mark =>
    by_cases opened : typeOpening <+: text <;> simp [keyword, mark, opened]

theorem ofKeyword?_of_opened {text : List Char} (opened : typeOpening <+: text) :
    Kind.ofKeyword? (text.takeWhile fun c => !isDelimiter c) = none := by
  obtain ⟨behind, rfl⟩ := opened
  have solid : ∀ c ∈ typeOpening, (!isDelimiter c) = true := List.all_eq_true.mp (by decide)
  have apart : ∀ entry ∈ keywords, ¬ typeOpening <+: entry.1.toList := by decide
  rw [List.takeWhile_append_of_pos solid, Kind.ofKeyword?_eq_none_iff]
  intro entry member same
  exact apart entry member (same ▸ List.prefix_append _ _)

/-- Every keyword but `<=>` begins with a letter or with `=`. -/
theorem ofKeyword?_of_foreign {c : Char} {behind : List Char} (notAlphanum : c.isAlphanum = false)
    (notLeading : c ∉ leadingMarks)
    (notIff : ((c :: behind).takeWhile fun c => !isDelimiter c) ≠ ['<', '=', '>']) :
    Kind.ofKeyword? ((c :: behind).takeWhile fun c => !isDelimiter c) = none := by
  have begins : ∀ entry ∈ keywords, entry.1.toList = ['<', '=', '>'] ∨
      ∃ d ∈ entry.1.toList.head?, d.isAlphanum = true ∨ d ∈ leadingMarks := by
    simp [keywords, leadingMarks]
  rw [Kind.ofKeyword?_eq_none_iff]
  intro entry member same
  rw [← same] at notIff
  obtain ⟨d, first, leads⟩ := (begins entry member).resolve_left notIff
  rw [same, List.head?_takeWhile] at first
  obtain ⟨same_head, -⟩ := Option.filter_eq_some_iff.mp first
  cases same_head
  rcases leads with alphanum | leading
  · rw [notAlphanum] at alphanum
    cases alphanum
  · exact notLeading leading

theorem foreign_iff {c : Char} :
    (c.isAlphanum = false ∧ c ∉ leadingMarks) ↔ Kind.ofMark? c = none ∧ isSymbolic c = false := by
  rw [Kind.ofMark?_eq_none_iff]
  simp only [leadingMarks, isSymbolic, List.mem_cons, List.not_mem_nil, or_false, not_or,
    Bool.or_eq_false_iff, beq_eq_false_iff_ne, ne_eq]
  grind

theorem first?_eq_none_iff_noneAhead {c : Char} {behind : List Char} :
    first? (c :: behind) = none ↔ NoneAhead (c :: behind) := by
  rw [first?_eq_none_iff, List.head?_cons, Option.bind_some]
  constructor
  · rintro ⟨keyword, mark, ⟨opened, unclosed⟩ | ⟨-, symbol⟩⟩
    · exact .unclosed opened unclosed
    · have notSymbolic : isSymbolic c = false := by
        cases symbolic : isSymbolic c with
        | false => rfl
        | true => simp [symbolic] at symbol
      obtain ⟨notAlphanum, notLeading⟩ := foreign_iff.mpr ⟨mark, notSymbolic⟩
      refine .foreign notAlphanum notLeading ?_
      intro isIff
      rw [isIff] at keyword
      cases keyword
  · intro none
    cases none with
    | unclosed opened unclosed =>
      refine ⟨ofKeyword?_of_opened opened, ?_, Or.inl ⟨opened, unclosed⟩⟩
      obtain ⟨others, same⟩ := opened
      cases same
      rfl
    | foreign notAlphanum notLeading notIff =>
      obtain ⟨mark, notSymbolic⟩ := foreign_iff.mp ⟨notAlphanum, notLeading⟩
      refine ⟨ofKeyword?_of_foreign notAlphanum notLeading notIff, mark, Or.inr ⟨?_, ?_⟩⟩
      · rintro ⟨others, same⟩
        cases same
        cases notAlphanum
      · simp [notSymbolic]

end Lexeme

/-! ## Places where lexing is stuck -/

/-- Behind the given tokens no lexeme begins: with the gaps they fill what trimming leaves of the source up
to a place before its end, where there is neither a gap nor a lexeme. -/
inductive Stuck (source : String) (tokens : List Token) (place : Nat) : Prop where
  | intro {front core back gap behind : List Char} {tiles : List Tile} {c : Char}
      (trimmed : Trimmed source.toList front core back)
      (tokens_eq : tiles.map Tile.token = tokens)
      (fill : Tile.Fill source (byteLength front) tiles gap place)
      (ahead : Slice source place (c :: behind) (byteLength front + byteLength core))
      (solid : isGap c = false)
      (missing : Lexeme.NoneAhead (c :: behind))

namespace Item.Lexed

variable {source : String} {start stop place : Nat} {gap core behind : List Char} {c : Char}
  {tiles : List Tile} {items : List Item}

/-- Behind a gap a text falls into what it falls into with the gap. -/
theorem behind_gap (lexed : Lexed start (gap ++ behind) items) (blank : ∀ c ∈ gap, isGap c = true)
    (solid : ∀ c ∈ behind.head?, isGap c = false) :
    Lexed (start + byteLength gap) behind items := by
  have blankNil : ∀ c ∈ ([] : List Char), isGap c = true := nofun
  rcases lexed.cases_of_gap blank solid with
    ⟨rfl, rfl⟩ | ⟨some, missing, rfl⟩ | ⟨kind, lexeme, behind, others, rfl, found, others_lexed, rfl⟩
  · exact .finish blankNil
  · obtain ⟨c, behind, rfl⟩ := List.exists_cons_of_ne_nil some
    exact .failure blankNil (solid c rfl) missing
  · exact .token blankNil solid found others_lexed

theorem ahead_cases (lexed : Lexed place (c :: behind) items) (solid : isGap c = false) :
    (Lexeme.first? (c :: behind) = none ∧ items = [.failure place]) ∨
      (∃ token others, Lexeme.first? (c :: behind) ≠ none ∧ items = .token token :: others) := by
  have blankNil : ∀ c ∈ ([] : List Char), isGap c = true := nofun
  have solid' : ∀ d ∈ (c :: behind).head?, isGap d = false := by simpa using solid
  have lexed' : Lexed place ([] ++ c :: behind) items := lexed
  rcases lexed'.cases_of_gap blankNil solid' with
    ⟨empty, -⟩ | ⟨-, missing, rfl⟩ | ⟨kind, lexeme, behind', others, -, found, -, rfl⟩
  · cases empty
  · exact Or.inl ⟨missing, rfl⟩
  · exact Or.inr ⟨_, _, by simp [found], rfl⟩

/-- Behind its first tokens and a gap a text falls into what is left of its items. -/
theorem behind_fill (lexed : Lexed start core items) (slice : Slice source start core stop)
    (first : tiles.map Tile.token <+: items.filterMap Item.token?)
    (fill : Tile.Fill source start tiles gap place)
    (ahead : Slice source place (c :: behind) stop) (solid : isGap c = false) :
    ∃ others, Lexed place (c :: behind) others ∧
      items = (tiles.map Tile.token).map Item.token ++ others := by
  induction tiles generalizing start core items with
  | nil =>
    have gap_slice := fill.gap_slice
    cases slice.text_eq (gap_slice.append ahead)
    refine ⟨items, ?_, rfl⟩
    rw [gap_slice.stop_eq]
    exact lexed.behind_gap fill.blank (by simpa using solid)
  | cons tile tiles ih =>
    have fill' := fill.tail
    rw [List.map_cons] at first ⊢
    cases lexed with
    | finish blank =>
      -- the finish is where the text ends, and there is a character behind the tiles
      obtain ⟨same, first'⟩ := List.cons_prefix_cons.mp first
      rw [List.map_eq_nil_iff.mp (List.prefix_nil.mp first'), same] at fill'
      have finish_le := fill'.gap_slice.start_le
      have place_lt := ahead.start_lt_stop
      rw [slice.stop_eq] at place_lt
      exact absurd place_lt (Nat.not_lt_of_le finish_le)
    | failure blank solid missing => cases List.prefix_nil.mp first
    | token blank solid found others =>
      obtain ⟨same, first'⟩ := List.cons_prefix_cons.mp first
      rw [same] at fill' ⊢
      obtain ⟨rest, lexed, rfl⟩ := ih others slice.parts.2.parts.2 first' fill'
      exact ⟨rest, lexed, rfl⟩

end Item.Lexed

/-! ## Sources -/

section

variable {source : String} {tokens : List Token} {place : Nat}

theorem stuck_of_tokenize_error (failed : tokenize source = .error (.lexing place)) :
    Stuck source (yieldedTokens source) place := by
  obtain ⟨back, trimmed⟩ := trimmed_trim source.toList
  have slice := Slice.of_split trimmed.split
  have lexed := lexed_items source
  obtain ⟨tiles, tokens_eq, cover⟩ := Tile.Cover.of_lexed lexed slice
  rw [tokenize] at failed
  rw [failed] at cover
  cases cover with
  | broken fill covered ahead before solid proper =>
    obtain ⟨others, lexed', items_eq⟩ :=
      lexed.behind_fill slice (tokens_eq ▸ List.prefix_refl _) fill ahead solid
    refine ⟨trimmed, tokens_eq.symm, fill, ahead, solid, ?_⟩
    rcases lexed'.ahead_cases solid with ⟨missing, -⟩ | ⟨token, rest, -, rfl⟩
    · exact Lexeme.first?_eq_none_iff_noneAhead.mp missing
    · -- a further token would be one of those that the tiles have
      rw [items_eq, List.filterMap_append, Item.filterMap_token?] at tokens_eq
      cases List.append_right_eq_self.mp tokens_eq

theorem tokenize_of_stuck (first : tokens <+: yieldedTokens source)
    (stuck : Stuck source tokens place) : tokenize source = .error (.lexing place) := by
  obtain ⟨trimmed, rfl, fill, ahead, solid, none⟩ := stuck
  obtain ⟨front_eq, core_eq⟩ := trimmed.eq
  have slice := Slice.of_split trimmed.split
  have lexed := lexed_items source
  rw [trimmedOffset, ← front_eq, ← core_eq] at lexed
  have missing := Lexeme.first?_eq_none_iff_noneAhead.mpr none
  obtain ⟨others, lexed', items_eq⟩ := lexed.behind_fill slice first fill ahead solid
  rcases lexed'.ahead_cases solid with ⟨-, rfl⟩ | ⟨token, rest, found, -⟩
  · rw [tokenize, items_eq, Item.tokens_map_append]
    rfl
  · exact absurd missing found

end

/-- Lexing fails exactly where the tokens and gaps of a source lead up to no lexeme, and at the first such
place; a source without such a place is lexed to its end. -/
theorem fails_where_no_lexeme_begins (source : String) :
    (∀ place, tokenize source = .error (.lexing place) ↔ Stuck source (yieldedTokens source) place) ∧
      (∀ place, tokenize source = .error (.lexing place) ↔
        ∃ tokens, tokens <+: yieldedTokens source ∧ Stuck source tokens place) ∧
      ((∃ tokens, tokenize source = .ok tokens) ↔
        ¬ ∃ tokens place, tokens <+: yieldedTokens source ∧ Stuck source tokens place) := by
  refine ⟨fun place => ⟨stuck_of_tokenize_error, tokenize_of_stuck (List.prefix_refl _)⟩,
    fun place => ⟨?_, ?_⟩, ?_, ?_⟩
  · exact fun failed => ⟨_, List.prefix_refl _, stuck_of_tokenize_error failed⟩
  · rintro ⟨tokens, first, stuck⟩
    exact tokenize_of_stuck first stuck
  · rintro ⟨tokens, whole⟩ ⟨tokens', place, first, stuck⟩
    rw [tokenize_of_stuck first stuck] at whole
    cases whole
  · intro free
    rcases tokenize_cases source with ⟨tokens, offset, whole, -⟩ | ⟨tokens, offset, failed, -⟩
    · exact ⟨_, whole⟩
    · exact absurd ⟨_, offset, List.prefix_refl _, stuck_of_tokenize_error failed⟩ free

/-- Lexing fails inside a source at a no-break space, which is taken away at its ends. -/
example : tokenize "\xa0p\xa0q\xa0" = .error (.lexing 3) := by
  rfl

end Definiens
