import Definiens.Proofs.Token.Classes
import Mathlib.Data.List.Forall2

/-!
# Spacing a source anew

The texts of the tokens of a source may be set out anew, with gaps between them and blanks at both ends.
Every lexeme stands by itself then, and comes out with the kind it had.  There is one exception: a symbol that
is spelled like a keyword is one only because something is glued to it, and by itself it is the keyword.
-/

namespace Definiens

open Text

/-! ## Texts in order -/

/-- The texts stand in order, with a gap between each two of them. -/
inductive Spaced : List (List Char) → List Char → Prop where
  | nil : Spaced [] []
  | single (text : List Char) : Spaced [text] text
  | cons {text next gap behind : List Char} {texts : List (List Char)} (some : gap ≠ [])
      (blank : ∀ c ∈ gap, isGap c = true) (others : Spaced (next :: texts) behind) :
      Spaced (text :: next :: texts) (text ++ (gap ++ behind))

/-- The source consists of the texts of the tokens in order, with gaps between them and blanks around. -/
inductive Respaced (tokens : List Token) (source : String) : Prop where
  | intro {front core back : List Char} (split : source.toList = front ++ core ++ back)
      (front_blank : ∀ c ∈ front, isBlank c = true)
      (spaced : Spaced (tokens.map (·.text.toList)) core)
      (back_blank : ∀ c ∈ back, isBlank c = true) :
      Respaced tokens source

def Token.LikeKeyword (token : Token) : Prop := token.kind = .symbol ∧ token.text ∈ wordKeywords

/-- The second token is what the first comes out as when it is set apart from its neighbours. -/
structure Token.SetApart (token alone : Token) : Prop where
  text_eq : alone.text = token.text
  kind_eq_iff : alone.kind = token.kind ↔ ¬ token.LikeKeyword
  keyword : token.LikeKeyword → (token.text, alone.kind) ∈ keywords

/-- The kind and the text of a token, without its place. -/
def Token.surface (token : Token) : Kind × String := (token.kind, token.text)

/-! ## What tokens are when set apart -/

theorem not_isBlank_of_symbolic {c : Char} (symbolic : isSymbolic c = true) : isBlank c = false := by
  obtain ⟨low, high⟩ := toNat_of_symbolic symbolic
  cases blank : isBlank c with
  | false => rfl
  | true =>
    obtain ⟨range, listed, bounds⟩ := exists_range_of_covers blank
    have table : ∀ range ∈ blankRanges, range.2 ≤ 32 ∨ 133 ≤ range.1 := by decide
    have apart := table range listed
    omega

namespace Lexeme.Classified

variable {behind behind' text : List Char} {kind : Kind}

theorem not_blank (classified : Classified behind kind text) :
    text ≠ [] ∧ (∀ c ∈ text.head?, isBlank c = false) ∧ (∀ c ∈ text.getLast?, isBlank c = false) := by
  cases classified with
  | @keyword spelling kind listed apart =>
    have table : (keywords.all fun entry => entry.1.toList.all fun c => !isBlank c) = true := by decide
    have solid : ∀ c ∈ spelling.toList, isBlank c = false := by
      intro c member
      rw [← Bool.not_eq_true']
      exact List.all_eq_true.mp (List.all_eq_true.mp table _ listed) c member
    have some := (Kind.ofKeyword?_eq_some (Kind.ofKeyword?_eq_some_iff.mpr ⟨spelling, listed, rfl⟩)).1
    exact ⟨some, fun c first => solid c (List.mem_of_mem_head? first),
      fun c last => solid c (List.mem_of_getLast? last)⟩
  | @mark c kind listed noArrow =>
    have table : (marks.all fun mark => !isBlank mark.1) = true := by decide
    have solid := List.all_eq_true.mp table _ listed
    rw [Bool.not_eq_true'] at solid
    refine ⟨List.cons_ne_nil c [], ?_, ?_⟩
    · rintro d ⟨rfl⟩
      exact solid
    · rintro d ⟨rfl⟩
      exact solid
  | @typeLiteral name unclosed =>
    refine ⟨by simp, ?_, ?_⟩
    · rintro d ⟨rfl⟩
      decide
    · rw [List.getLast?_concat]
      rintro d ⟨rfl⟩
      decide
  | symbol some symbolic maximal glued noType =>
    exact ⟨some, fun c first => not_isBlank_of_symbolic (symbolic c (List.mem_of_mem_head? first)),
      fun c last => not_isBlank_of_symbolic (symbolic c (List.mem_of_getLast? last))⟩

/-- What is classified in front of something is classified when it is set apart, as the keyword that it is
spelled like, if there is one, or else as before. -/
theorem setApart (classified : Classified behind kind text)
    (apart : ∀ c ∈ behind'.head?, isGap c = true) :
    Classified behind' ((Kind.ofKeyword? text).getD kind) text := by
  cases keyword : Kind.ofKeyword? text with
  | some kind' =>
    obtain ⟨spelling, listed, rfl⟩ := Kind.ofKeyword?_eq_some_iff.mp keyword
    refine .keyword listed fun c first => ?_
    simp [isDelimiter, apart c first]
  | none =>
    rw [Option.getD_none]
    cases classified with
    | @keyword spelling kind listed _ =>
      rw [Kind.ofKeyword?_eq_some_iff.mpr ⟨spelling, listed, rfl⟩] at keyword
      cases keyword
    | @mark c kind listed noArrow =>
      have stops : ∀ d ∈ behind'.head?, (!isDelimiter d) = false := by
        intro d first
        simp [isDelimiter, apart d first]
      refine .mark listed fun _ arrow => ?_
      rw [List.takeWhile_cons, takeWhile_eq_nil stops] at arrow
      split at arrow <;> cases arrow
    | typeLiteral unclosed => exact .typeLiteral unclosed
    | symbol some symbolic maximal glued noType =>
      have solid : ∀ c ∈ behind'.head?, isSymbolic c = false := by
        intro c first
        cases symbolic : isSymbolic c with
        | false => rfl
        | true =>
          have blank := isBlank_of_isGap (apart c first)
          rw [not_isBlank_of_symbolic symbolic] at blank
          cases blank
      refine .symbol some symbolic solid (fun word => ?_) fun _ c first => ?_
      · obtain ⟨kind', listed⟩ := exists_mem_keywords_of_word word
        rw [Kind.ofKeyword?_eq_some_iff.mpr ⟨_, listed, String.toList_ofList⟩] at keyword
        cases keyword
      · rintro rfl
        exact absurd (apart _ first) (by decide)

theorem keyword_cases (classified : Classified behind kind text) :
    (kind = .symbol ∧ String.ofList text ∈ wordKeywords ∧ ∃ keyword, keyword ≠ .symbol ∧
        (String.ofList text, keyword) ∈ keywords ∧ Kind.ofKeyword? text = some keyword) ∨
      (¬ (kind = .symbol ∧ String.ofList text ∈ wordKeywords) ∧
        (Kind.ofKeyword? text).getD kind = kind) := by
  cases classified with
  | @keyword spelling kind listed apart =>
    refine Or.inr ⟨fun like => (kind_of_mem_keywords listed).2 like.1, ?_⟩
    rw [Kind.ofKeyword?_eq_some_iff.mpr ⟨spelling, listed, rfl⟩, Option.getD_some]
  | @mark c kind listed noArrow =>
    have table : ∀ mark ∈ marks, Kind.ofKeyword? [mark.1] = none := by decide
    refine Or.inr ⟨fun like => (kind_of_mem_marks listed).2 like.1, ?_⟩
    rw [table _ listed, Option.getD_none]
  | @typeLiteral name unclosed =>
    have table : ∀ entry ∈ keywords, ¬ typeOpening <+: entry.1.toList := by decide
    have none : Kind.ofKeyword? (typeOpening ++ name ++ [typeClosing]) = none := by
      rw [Kind.ofKeyword?_eq_none_iff]
      intro entry listed same
      refine table entry listed ?_
      rw [same, List.append_assoc]
      exact List.prefix_append _ _
    refine Or.inr ⟨fun like => Kind.noConfusion like.1, ?_⟩
    rw [none, Option.getD_none]
  | symbol some symbolic maximal glued noType =>
    by_cases word : String.ofList text ∈ wordKeywords
    · obtain ⟨keyword, listed⟩ := exists_mem_keywords_of_word word
      exact Or.inl ⟨rfl, word, keyword, (kind_of_mem_keywords listed).2, listed,
        Kind.ofKeyword?_eq_some_iff.mpr ⟨_, listed, String.toList_ofList⟩⟩
    · refine Or.inr ⟨fun like => word like.2, ?_⟩
      cases keyword : Kind.ofKeyword? text with
      | none => rfl
      | some kind =>
        -- a keyword that begins as a symbol does is one of the words
        obtain ⟨spelling, listed, rfl⟩ := Kind.ofKeyword?_eq_some_iff.mp keyword
        obtain ⟨c, others, spelled⟩ := List.exists_cons_of_ne_nil some
        have first : c ∈ spelling.toList.head? := by
          rw [spelled]
          rfl
        have known := mem_wordKeywords_of_symbolic listed first
          (symbolic c (List.mem_of_mem_head? first))
        rw [String.ofList_toList] at word
        exact absurd known.1 word

/-- A symbol that is spelled like a keyword has something other than a delimiter behind it. -/
theorem glued (classified : Classified behind .symbol text) (word : String.ofList text ∈ wordKeywords) :
    ∃ c rest, behind = c :: rest ∧ isDelimiter c = false := by
  cases classified with
  | keyword listed apart => exact absurd rfl (kind_of_mem_keywords listed).2
  | mark listed noArrow => exact absurd rfl (kind_of_mem_marks listed).2
  | symbol some symbolic maximal glued noType =>
    obtain ⟨c, first, solid⟩ := glued word
    obtain ⟨rest, rfl⟩ := List.head?_eq_some_iff.mp first
    exact ⟨c, rest, rfl, solid⟩

end Lexeme.Classified

theorem Token.setApart_of_classified {behind : List Char} {token alone : Token}
    (classified : Lexeme.Classified behind token.kind token.text.toList)
    (text_eq : alone.text = token.text)
    (kind_eq : alone.kind = (Kind.ofKeyword? token.text.toList).getD token.kind) :
    token.SetApart alone := by
  have spelled := String.ofList_toList (s := token.text)
  rcases classified.keyword_cases with ⟨symbol, word, keyword, other, listed, known⟩ | ⟨unlike, same⟩
  · rw [spelled] at word listed
    rw [known, Option.getD_some] at kind_eq
    refine ⟨text_eq, ?_, fun _ => kind_eq ▸ listed⟩
    rw [kind_eq, symbol]
    exact ⟨fun same => absurd same other, fun unlike => absurd ⟨symbol, word⟩ unlike⟩
  · rw [spelled] at unlike
    exact ⟨text_eq, ⟨fun _ => unlike, fun _ => kind_eq.trans same⟩, fun like => absurd like unlike⟩

/-! ## Texts set out anew -/

/-- Where texts that are not blank at their ends are set out, the whole is not blank at its ends. -/
theorem Spaced.not_blank {texts : List (List Char)} {core : List Char} (spaced : Spaced texts core)
    (solid : ∀ text ∈ texts, text ≠ [] ∧ (∀ c ∈ text.head?, isBlank c = false) ∧
      ∀ c ∈ text.getLast?, isBlank c = false) :
    (texts ≠ [] → core ≠ []) ∧ (∀ c ∈ core.head?, isBlank c = false) ∧
      ∀ c ∈ core.getLast?, isBlank c = false := by
  induction spaced with
  | nil => exact ⟨fun some => absurd rfl some, by simp, by simp⟩
  | single text =>
    obtain ⟨some, first, last⟩ := solid text List.mem_cons_self
    exact ⟨fun _ => some, first, last⟩
  | @cons text next gap behind texts _ blank others ih =>
    obtain ⟨some, first, -⟩ := solid text List.mem_cons_self
    obtain ⟨some', -, last⟩ := ih fun other member => solid other (List.mem_cons_of_mem _ member)
    have goesOn := some' (List.cons_ne_nil next texts)
    refine ⟨fun _ => List.append_ne_nil_of_left_ne_nil some _, ?_, ?_⟩
    · rwa [List.head?_append_of_ne_nil _ some]
    · rwa [List.getLast?_append_of_ne_nil _ (List.append_ne_nil_of_right_ne_nil _ goesOn),
        List.getLast?_append_of_ne_nil _ goesOn]

theorem Item.Lexed.cons_setApart {token : Token} {behind behind' gap : List Char} {start : Nat}
    {items : List Item} (classified : Lexeme.Classified behind' token.kind token.text.toList)
    (blank : ∀ c ∈ gap, isGap c = true) (apart : ∀ c ∈ behind.head?, isGap c = true)
    (others : Item.Lexed (start + byteLength gap + byteLength token.text.toList) behind items) :
    ∃ alone, token.SetApart alone ∧
      Item.Lexed start (gap ++ (token.text.toList ++ behind)) (.token alone :: items) := by
  obtain ⟨some, first, -⟩ := classified.not_blank
  have found := Lexeme.first?_append_iff.mpr (classified.setApart apart)
  have solid : ∀ c ∈ (token.text.toList ++ behind).head?, isGap c = false := by
    intro c head
    rw [List.head?_append_of_ne_nil _ some] at head
    cases gap : isGap c with
    | false => rfl
    | true =>
      have blank := isBlank_of_isGap gap
      rw [first c head] at blank
      cases blank
  exact ⟨_, Token.setApart_of_classified classified String.ofList_toList rfl,
    .token blank solid found others⟩

/-- Classified tokens that are spaced anew are lexed as what they come out as apart. -/
theorem Spaced.lexed {tokens : List Token} {core : List Char}
    (spaced : Spaced (tokens.map (·.text.toList)) core)
    (classified : ∀ token ∈ tokens, ∃ behind, Lexeme.Classified behind token.kind token.text.toList)
    (start : Nat) {gap : List Char} (blank : ∀ c ∈ gap, isGap c = true) :
    ∃ alone offset, Item.Lexed start (gap ++ core) ((alone ++ [.finish offset]).map Item.token) ∧
      List.Forall₂ Token.SetApart tokens alone := by
  generalize texts_eq : tokens.map (·.text.toList) = texts at spaced
  induction spaced generalizing tokens start gap with
  | nil =>
    cases List.map_eq_nil_iff.mp texts_eq
    rw [List.append_nil]
    exact ⟨[], _, .finish blank, .nil⟩
  | single text =>
    obtain ⟨token, rfl, rfl⟩ := List.map_eq_singleton_iff.mp texts_eq
    obtain ⟨behind, known⟩ := classified token List.mem_cons_self
    have ended : Item.Lexed (start + byteLength gap + byteLength token.text.toList) []
        [.token (.finish _)] := .finish (by simp)
    obtain ⟨alone, setApart, lexed⟩ := ended.cons_setApart known blank (by simp)
    rw [List.append_nil] at lexed
    exact ⟨[alone], _, lexed, .cons setApart .nil⟩
  | @cons text next gap' behind' texts some blank' others ih =>
    obtain ⟨token, tokens, rfl, rfl, rest_eq⟩ := List.map_eq_cons_iff.mp texts_eq
    obtain ⟨behind, known⟩ := classified token List.mem_cons_self
    have rest (other : Token) (member : other ∈ tokens) := classified other (List.mem_cons_of_mem _ member)
    obtain ⟨alone, offset, lexed, setApart⟩ :=
      ih rest (start + byteLength gap + byteLength token.text.toList) blank' rest_eq
    have apart : ∀ c ∈ (gap' ++ behind').head?, isGap c = true := by
      intro c first
      rw [List.head?_append_of_ne_nil _ some] at first
      exact blank' c (List.mem_of_mem_head? first)
    obtain ⟨alone', setApart', lexed'⟩ := lexed.cons_setApart known blank apart
    exact ⟨alone' :: alone, offset, lexed', .cons setApart' setApart⟩

theorem exists_classified_of_tokenize {source : String} {tokens : List Token} {offset : Nat}
    (lexed : tokenize source = .ok (tokens ++ [.finish offset])) {token : Token} (member : token ∈ tokens) :
    ∃ behind, token.FollowedBy source behind ∧
      Lexeme.Classified behind token.kind token.text.toList := by
  obtain ⟨items_eq, before, _, same, ordinary⟩ := items_of_tokenize lexed
  obtain ⟨rfl, -⟩ := List.append_inj' same rfl
  have yielded : token ∈ yieldedTokens source := by
    rw [yieldedTokens, items_eq, Item.filterMap_token?]
    exact List.mem_append_left _ member
  exact exists_classified yielded (ordinary token member)

/-- A source whose tokens are spaced anew is lexed to its end, as what the tokens come out as apart. -/
theorem Respaced.tokenize_eq {source respaced : String} {tokens : List Token} {offset : Nat}
    (lexed : tokenize source = .ok (tokens ++ [.finish offset])) (spaced : Respaced tokens respaced) :
    ∃ alone offset', tokenize respaced = .ok (alone ++ [.finish offset']) ∧
      List.Forall₂ Token.SetApart tokens alone := by
  have classified : ∀ token ∈ tokens, ∃ behind,
      Lexeme.Classified behind token.kind token.text.toList := by
    intro token member
    obtain ⟨behind, -, known⟩ := exists_classified_of_tokenize lexed member
    exact ⟨behind, known⟩
  obtain ⟨split, front_blank, spaced, back_blank⟩ := spaced
  obtain ⟨-, head_eq, last_eq⟩ := spaced.not_blank fun text member => by
    obtain ⟨token, known, rfl⟩ := List.mem_map.mp member
    obtain ⟨behind, known⟩ := classified token known
    exact known.not_blank
  have whole := lexed_items respaced
  rw [trim_append_eq split front_blank back_blank head_eq last_eq] at whole
  have blank : ∀ c ∈ ([] : List Char), isGap c = true := by simp
  obtain ⟨alone, offset', lexed', setApart⟩ := spaced.lexed classified _ blank
  refine ⟨alone, offset', ?_, setApart⟩
  rw [tokenize, whole.unique lexed', ← List.append_nil (List.map _ _), Item.tokens_map_append]
  exact congrArg Except.ok (List.append_nil _)

/-! ## What respacing changes -/

theorem surface_eq_iff {tokens alone : List Token} (setApart : List.Forall₂ Token.SetApart tokens alone) :
    alone.map Token.surface = tokens.map Token.surface ↔ ∀ token ∈ tokens, ¬ token.LikeKeyword := by
  induction setApart with
  | nil => simp
  | @cons token token' tokens alone first others ih =>
    have same : token'.surface = token.surface ↔ ¬ token.LikeKeyword := by
      rw [Token.surface, Token.surface, Prod.mk.injEq, first.kind_eq_iff]
      exact and_iff_left first.text_eq
    rw [List.map_cons, List.map_cons, List.cons.injEq, same, ih, List.forall_mem_cons]

theorem not_likeKeyword_of_setApart {tokens alone : List Token}
    (setApart : List.Forall₂ Token.SetApart tokens alone) : ∀ token ∈ alone, ¬ token.LikeKeyword := by
  induction setApart with
  | nil => simp
  | @cons token token' tokens alone first others ih =>
    refine List.forall_mem_cons.mpr ⟨?_, ih⟩
    rintro ⟨symbol, word⟩
    rw [first.text_eq] at word
    by_cases like : token.LikeKeyword
    · exact (kind_of_mem_keywords (first.keyword like)).2 symbol
    · exact like ⟨(first.kind_eq_iff.mpr like).symm.trans symbol, word⟩

/-- A source that is spaced anew gives the same texts, and the same kinds but for the symbols that are
spelled like keywords; each of these had something glued to it and is the keyword now.  Spacing it anew once
more changes nothing. -/
theorem respacing_keeps_tokens {source : String} {tokens : List Token}
    (lexed : tokenize source = .ok tokens) :
    ∃ before offset, tokens = before ++ [.finish offset] ∧
      (∀ token ∈ before, token.LikeKeyword →
        ∃ c behind, token.FollowedBy source (c :: behind) ∧ isDelimiter c = false) ∧
      ∀ respaced, Respaced before respaced →
        ∃ alone offset', tokenize respaced = .ok (alone ++ [.finish offset']) ∧
          List.Forall₂ Token.SetApart before alone ∧
          (alone.map Token.surface = before.map Token.surface ↔
            ∀ token ∈ before, ¬ token.LikeKeyword) ∧
          ∀ again, Respaced alone again →
            ∃ last offset'', tokenize again = .ok (last ++ [.finish offset'']) ∧
              last.map Token.surface = alone.map Token.surface := by
  obtain ⟨-, before, offset, rfl, -⟩ := items_of_tokenize lexed
  refine ⟨before, offset, rfl, ?_, ?_⟩
  · rintro token member ⟨symbol, word⟩
    obtain ⟨behind, followed, known⟩ := exists_classified_of_tokenize lexed member
    rw [symbol] at known
    rw [← String.ofList_toList (s := token.text)] at word
    obtain ⟨c, rest, rfl, solid⟩ := known.glued word
    exact ⟨c, rest, followed, solid⟩
  · intro respaced spaced
    obtain ⟨alone, offset', lexed', setApart⟩ := spaced.tokenize_eq lexed
    refine ⟨alone, offset', lexed', setApart, surface_eq_iff setApart, ?_⟩
    intro again spaced'
    obtain ⟨last, offset'', lexed'', setApart'⟩ := spaced'.tokenize_eq lexed'
    exact ⟨last, offset'', lexed'',
      (surface_eq_iff setApart').mpr (not_likeKeyword_of_setApart setApart)⟩

/-- The symbol `or` in front of an equals sign becomes the keyword when it is set apart. -/
theorem respacing_frees_keyword :
    tokenize "or=b" = .ok
        ([⟨.symbol, "or", 0, 2⟩, ⟨.equals, "=", 2, 1⟩, ⟨.symbol, "b", 3, 1⟩] ++ [.finish 4]) ∧
      Respaced [⟨.symbol, "or", 0, 2⟩, ⟨.equals, "=", 2, 1⟩, ⟨.symbol, "b", 3, 1⟩]
        "\xa0or =\n\tb " ∧
      ∃ alone offset, tokenize "\xa0or =\n\tb " = .ok (alone ++ [.finish offset]) ∧
        alone.map Token.surface ≠ [(.symbol, "or"), (.equals, "="), (.symbol, "b")] := by
  have lexed : tokenize "or=b" = .ok
      ([⟨.symbol, "or", 0, 2⟩, ⟨.equals, "=", 2, 1⟩, ⟨.symbol, "b", 3, 1⟩] ++ [.finish 4]) := by
    rfl
  have core : Spaced [['o', 'r'], ['='], ['b']]
      (['o', 'r'] ++ ([' '] ++ (['='] ++ (['\n', '\t'] ++ ['b'])))) :=
    .cons (by simp) (by simp [isGap]) (.cons (by simp) (by simp [isGap]) (.single _))
  have blanks : (∀ c ∈ ['\xa0'], isBlank c = true) ∧ ∀ c ∈ [' '], isBlank c = true := by
    simp only [List.forall_mem_singleton]
    decide
  have spaced : Respaced [⟨.symbol, "or", 0, 2⟩, ⟨.equals, "=", 2, 1⟩, ⟨.symbol, "b", 3, 1⟩]
      "\xa0or =\n\tb " :=
    .intro rfl blanks.1 core blanks.2
  obtain ⟨before, offset, same, -, respacings⟩ := respacing_keeps_tokens lexed
  rw [← (List.append_inj' same rfl).1] at respacings
  obtain ⟨alone, offset', lexed', -, same_iff, -⟩ := respacings _ spaced
  refine ⟨lexed, spaced, alone, offset', lexed', fun same => ?_⟩
  exact same_iff.mp same _ List.mem_cons_self ⟨rfl, by decide⟩

end Definiens
