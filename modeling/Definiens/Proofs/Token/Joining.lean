import Definiens.Proofs.Token.Respacing

/-!
# Sources put one behind the other

White space of ASCII separates.  A rule may look as far ahead as it likes, but no lexeme that ends in front of
a gap becomes another one by what stands behind the gap, and what stands in front of a gap does not matter to
a lexeme behind it.  So two sources with a gap between them give the tokens of the first and, further on, what
the second gives.  At the place where they meet nothing is trimmed any more: the blanks there have to be gaps.
-/

namespace Definiens

open Text

/-! ## Places further on -/

def Token.shift (bytes : Nat) (token : Token) : Token := { token with offset := token.offset + bytes }

namespace Item

def shift (bytes : Nat) : Item → Item
  | .token read => .token (read.shift bytes)
  | .failure place => .failure (place + bytes)

theorem tokens_map_shift (bytes : Nat) (items : List Item) :
    tokens (items.map (shift bytes)) =
      ((tokens items).map (List.map (Token.shift bytes))).mapError (· + bytes) := by
  induction items with
  | nil => rfl
  | cons item items ih =>
    cases item with
    | failure place => rfl
    | token read =>
      rw [List.map_cons, shift, tokens, tokens, ih]
      cases tokens items <;> rfl

namespace Lexed

variable {start : Nat} {text gap behind : List Char} {items : List Item}

/-- A text falls into the same items wherever it stands. -/
theorem shift (lexed : Lexed start text items) (bytes : Nat) :
    Lexed (start + bytes) text (items.map (Item.shift bytes)) := by
  induction lexed with
  | @finish start gap blank =>
    have ended : Lexed (start + bytes) gap _ := .finish blank
    rwa [Nat.add_right_comm] at ended
  | @failure start gap c behind blank solid missing =>
    have failed : Lexed (start + bytes) (gap ++ c :: behind) _ := .failure blank solid missing
    rwa [Nat.add_right_comm] at failed
  | @token start gap lexeme behind kind items blank solid found others ih =>
    have place : start + byteLength gap + byteLength lexeme + bytes =
        start + bytes + byteLength gap + byteLength lexeme := by
      omega
    rw [place] at ih
    have read := Lexed.token blank solid found ih
    rwa [Nat.add_right_comm] at read

theorem gap_append (blank : ∀ c ∈ gap, isGap c = true)
    (lexed : Lexed (start + byteLength gap) text items) : Lexed start (gap ++ text) items := by
  have both {more : List Char} (blank' : ∀ c ∈ more, isGap c = true) : ∀ c ∈ gap ++ more, isGap c = true :=
    List.forall_mem_append.mpr ⟨blank, blank'⟩
  cases lexed with
  | finish blank' =>
    have ended : Lexed start (gap ++ text) _ := .finish (both blank')
    rwa [byteLength_append, ← Nat.add_assoc] at ended
  | failure blank' solid missing =>
    have failed : Lexed start _ _ := .failure (both blank') solid missing
    rwa [byteLength_append, ← Nat.add_assoc, List.append_assoc] at failed
  | token blank' solid found others =>
    have read : Lexed start _ _ := .token (both blank') solid found
      (by rwa [byteLength_append, ← Nat.add_assoc])
    rwa [byteLength_append, ← Nat.add_assoc, List.append_assoc] at read

end Lexed

end Item

/-! ## Lexemes in front of a gap -/

theorem not_isSymbolic_of_isGap {c : Char} (gap : isGap c = true) : isSymbolic c = false := by
  cases symbolic : isSymbolic c with
  | false => rfl
  | true =>
    have blank := isBlank_of_isGap gap
    rw [not_isBlank_of_symbolic symbolic] at blank
    cases blank

/-- What is classified in front of a text is so, too, if the text goes on with a gap. -/
theorem Lexeme.Classified.append_gap {behind more lexeme : List Char} {kind : Kind}
    (classified : Classified behind kind lexeme) (apart : ∀ c ∈ more.head?, isGap c = true) :
    Classified (behind ++ more) kind lexeme := by
  have first {c : Char} (head : c ∈ (behind ++ more).head?) :
      c ∈ behind.head? ∨ isGap c = true := by
    cases behind with
    | nil => exact Or.inr (apart c head)
    | cons d behind => exact Or.inl head
  cases classified with
  | keyword listed delimited =>
    refine .keyword listed fun c head => ?_
    rcases first head with here | gap
    · exact delimited c here
    · simp [isDelimiter, gap]
  | @mark c kind listed noArrow =>
    have stops : ∀ d ∈ more.head?, (!isDelimiter d) = false := by
      intro d head
      simp [isDelimiter, apart d head]
    have run : ((c :: (behind ++ more)).takeWhile fun c => !isDelimiter c) =
        (c :: behind).takeWhile fun c => !isDelimiter c := by
      rw [← List.cons_append, List.takeWhile_append, takeWhile_eq_nil stops, List.append_nil]
      split
      next whole => exact ((List.takeWhile_prefix _).eq_of_length whole).symm
      next => rfl
    exact .mark listed fun equals => run ▸ noArrow equals
  | typeLiteral unclosed => exact .typeLiteral unclosed
  | symbol some symbolic maximal glued noType =>
    refine .symbol some symbolic (fun c head => ?_) (fun word => ?_) (fun spelled c head => ?_)
    · rcases first head with here | gap
      · exact maximal c here
      · exact not_isSymbolic_of_isGap gap
    · obtain ⟨c, here, solid⟩ := glued word
      obtain ⟨rest, rfl⟩ := List.head?_eq_some_iff.mp here
      exact ⟨c, rfl, solid⟩
    · rcases first head with here | gap
      · exact noType spelled c here
      · rintro rfl
        cases gap

/-- A text that is lexed to its end is lexed to the same tokens if it goes on with a gap, and behind it is
found what there is. -/
theorem Item.Lexed.append {start offset : Nat} {text more : List Char} {tokens : List Token}
    {items : List Item} (lexed : Lexed start text ((tokens ++ [Token.finish offset]).map Item.token))
    (apart : ∀ c ∈ more.head?, isGap c = true) (others : Lexed (start + byteLength text) more items) :
    Lexed start (text ++ more) (tokens.map Item.token ++ items) := by
  generalize all : (tokens ++ [Token.finish offset]).map Item.token = ended at lexed
  induction lexed generalizing tokens with
  | finish blank =>
    cases tokens with
    | nil => exact .gap_append blank others
    | cons token tokens => simp at all
  | failure blank solid missing => cases tokens <;> simp at all
  | @token start gap lexeme behind kind ended blank solid found rest ih =>
    cases tokens with
    | nil =>
      have some := (Lexeme.first?_proper found).2
      simp only [List.nil_append, List.map_cons, List.cons.injEq, Item.token.injEq, Token.finish,
        Token.mk.injEq] at all
      exact absurd all.1.1.symm some
    | cons token tokens =>
      obtain ⟨here, later⟩ := List.cons.inj all
      cases here
      have some := (Lexeme.first?_proper found).1
      have known := (Lexeme.first?_append_iff.mp found).append_gap apart
      have solid' : ∀ c ∈ (lexeme ++ (behind ++ more)).head?, isGap c = false := by
        rw [List.head?_append_of_ne_nil _ some] at solid ⊢
        exact solid
      have further : start + byteLength (gap ++ (lexeme ++ behind)) =
          start + byteLength gap + byteLength lexeme + byteLength behind := by
        simp only [byteLength_append]
        omega
      rw [further] at others
      have read := Lexed.token blank solid' (Lexeme.first?_append_iff.mpr known) (ih others later)
      simpa only [List.append_assoc, List.map_cons, List.cons_append] using read

/-! ## Sources -/

theorem isGap_of_isBlank {c : Char} (blank : isBlank c = true) (ascii : c.toNat < 128) : isGap c = true := by
  obtain ⟨range, listed, low, high⟩ := exists_range_of_covers blank
  have table : ∀ range ∈ blankRanges, range = (9, 13) ∨ range = (32, 32) ∨ 128 ≤ range.1 := by decide
  rcases table range listed with rfl | rfl | beyond
  · simp [isGap, low, high]
  · have space : c.toNat = ' '.toNat := Nat.le_antisymm high low
    rw [Char.toNat_inj.mp space]
    rfl
  · omega

/-- The items of a source are those of its text from a gap on that trimming takes away with the blanks in
front of it. -/
theorem items_eq_of_lexed {source : String} {front gap core back : List Char} {items : List Item}
    (split : source.toList = front ++ (gap ++ core) ++ back) (front_blank : ∀ c ∈ front, isBlank c = true)
    (gap_blank : ∀ c ∈ gap, isGap c = true) (back_blank : ∀ c ∈ back, isBlank c = true) (some : core ≠ [])
    (head_eq : ∀ c ∈ core.head?, isBlank c = false) (last_eq : ∀ c ∈ core.getLast?, isBlank c = false)
    (lexed : Item.Lexed (byteLength front) (gap ++ core) items) :
    (TokenStream.ofSource source).items = items := by
  have trimmed : Trimmed source.toList (front ++ gap) core back :=
    { split := by rw [split, List.append_assoc front gap core]
      front_blank := List.forall_mem_append.mpr
        ⟨front_blank, fun c member => isBlank_of_isGap (gap_blank c member)⟩
      back_blank, head_eq, last_eq
      back_eq := fun none => absurd none some }
  obtain ⟨front_eq, core_eq⟩ := trimmed.eq
  have solid : ∀ c ∈ core.head?, isGap c = false := by
    intro c head
    cases gap : isGap c with
    | false => rfl
    | true =>
      rw [← head_eq c head, isBlank_of_isGap gap]
  have whole := lexed_items source
  rw [trimmedOffset, ← front_eq, ← core_eq, byteLength_append] at whole
  exact whole.unique (lexed.behind_gap gap_blank solid)

theorem isGap_of_trailing {text before back : List Char} (split : text = before ++ back)
    (back_blank : ∀ c ∈ back, isBlank c = true)
    (trailing : ∀ c ∈ text.reverse.takeWhile isBlank, c.toNat < 128) : ∀ c ∈ back, isGap c = true := by
  intro c member
  refine isGap_of_isBlank (back_blank c member) (trailing c ?_)
  rw [split, List.reverse_append, List.takeWhile_append_of_pos
    fun d inside => back_blank d (List.mem_reverse.mp inside)]
  exact List.mem_append_left _ (List.mem_reverse.mpr member)

theorem Text.Trimmed.core_ne_nil {text front core back : List Char} (trimmed : Trimmed text front core back)
    (solid : ∃ c ∈ text, isBlank c = false) : core ≠ [] := by
  intro none
  obtain ⟨c, member, notBlank⟩ := solid
  rw [trimmed.split, none, trimmed.back_eq none, List.append_nil, List.append_nil] at member
  rw [trimmed.front_blank c member] at notBlank
  cases notBlank

/-- The items of two sources with a gap between them. -/
theorem items_joined {a gap b : String} {tokens : List Token} {offset : Nat}
    (lexed : tokenize a = .ok (tokens ++ [.finish offset])) (some : gap.toList ≠ [])
    (blank : ∀ c ∈ gap.toList, isGap c = true) (solid : ∃ c ∈ b.toList, isBlank c = false)
    (trailing : ∀ c ∈ a.toList.reverse.takeWhile isBlank, c.toNat < 128)
    (leading : ∀ c ∈ b.toList.takeWhile isBlank, c.toNat < 128) :
    (TokenStream.ofSource (a ++ gap ++ b)).items = tokens.map Item.token ++
      (TokenStream.ofSource b).items.map (Item.shift (byteLength a.toList + byteLength gap.toList)) := by
  obtain ⟨back, trimmed⟩ := trimmed_trim a.toList
  obtain ⟨back', trimmed'⟩ := trimmed_trim b.toList
  have inFront := lexed_items a
  rw [(items_of_tokenize lexed).1] at inFront
  have behind := (lexed_items b).shift (byteLength a.toList + byteLength gap.toList)
  have goesOn := trimmed'.core_ne_nil solid
  simp only [trimmedOffset] at inFront behind
  generalize a.toList.takeWhile isBlank = front, trim a.toList = core at *
  generalize b.toList.takeWhile isBlank = front', trim b.toList = core' at *
  generalize (TokenStream.ofSource b).items.map _ = items at *
  -- what stands between the two is a gap
  let between := back ++ gap.toList ++ front'
  have some' : between ≠ [] := by simp [between, some]
  have blank' : ∀ c ∈ between, isGap c = true := by
    simp only [between, List.forall_mem_append]
    exact ⟨⟨isGap_of_trailing trimmed.split trimmed.back_blank trailing, blank⟩,
      fun c member => isGap_of_isBlank (trimmed'.front_blank c member) (leading c member)⟩
  have place : byteLength front' + (byteLength a.toList + byteLength gap.toList) =
      byteLength front + byteLength core + byteLength between := by
    simp only [trimmed.split, between, byteLength_append]
    omega
  rw [place] at behind
  have apart : ∀ c ∈ (between ++ core').head?, isGap c = true := by
    rw [List.head?_append_of_ne_nil _ some']
    exact fun c first => blank' c (List.mem_of_mem_head? first)
  have joined := inFront.append apart (.gap_append blank' behind)
  have split : (a ++ gap ++ b).toList = front ++ core ++ between ++ core' ++ back' := by
    simp only [String.toList_append, trimmed.split, trimmed'.split, between, List.append_assoc]
  by_cases empty : core = []
  · -- the first source is all blank, and what is trimmed away goes on up to the second one
    rw [empty, List.nil_append] at joined
    refine items_eq_of_lexed ?_ trimmed.front_blank blank' trimmed'.back_blank goesOn trimmed'.head_eq
      trimmed'.last_eq joined
    rw [split, empty, List.append_nil, List.append_assoc front]
  · have split' : (a ++ gap ++ b).toList = front ++ ([] ++ (core ++ (between ++ core'))) ++ back' := by
      simp only [split, List.nil_append, List.append_assoc]
    refine items_eq_of_lexed split' trimmed.front_blank (by simp) trimmed'.back_blank
      (List.append_ne_nil_of_left_ne_nil empty _) ?_ ?_ joined
    · rw [List.head?_append_of_ne_nil _ empty]
      exact trimmed.head_eq
    · rw [List.getLast?_append_of_ne_nil _ (List.append_ne_nil_of_right_ne_nil _ goesOn),
        List.getLast?_append_of_ne_nil _ goesOn]
      exact trimmed'.last_eq

/-- With white space of ASCII between them, two sources are lexed as they are each by themselves, and the
second one further on: to its tokens, or to the place where it fails. -/
theorem tokenize_joined {a gap b : String} {tokens : List Token} {offset : Nat}
    (lexed : tokenize a = .ok (tokens ++ [.finish offset])) (some : gap.toList ≠ [])
    (blank : ∀ c ∈ gap.toList, isGap c = true) (solid : ∃ c ∈ b.toList, isBlank c = false)
    (trailing : ∀ c ∈ a.toList.reverse.takeWhile isBlank, c.toNat < 128)
    (leading : ∀ c ∈ b.toList.takeWhile isBlank, c.toNat < 128) :
    (∀ later, tokenize b = .ok later → tokenize (a ++ gap ++ b) =
      .ok (tokens ++ later.map (Token.shift (byteLength a.toList + byteLength gap.toList)))) ∧
    ∀ place, tokenize b = .error (.lexing place) → tokenize (a ++ gap ++ b) =
      .error (.lexing (place + (byteLength a.toList + byteLength gap.toList))) := by
  have items := items_joined lexed some blank solid trailing leading
  have read : tokenize (a ++ gap ++ b) = ((((Item.tokens (TokenStream.ofSource b).items).map
      (List.map (Token.shift (byteLength a.toList + byteLength gap.toList)))).mapError
        (· + (byteLength a.toList + byteLength gap.toList))).map (tokens ++ ·)).mapError .lexing := by
    rw [tokenize, items, Item.tokens_map_append, Item.tokens_map_shift]
  rw [read, tokenize]
  cases Item.tokens (TokenStream.ofSource b).items with
  | ok later' =>
    refine ⟨fun later same => ?_, fun place same => by cases same⟩
    cases same
    rfl
  | error place' =>
    refine ⟨fun later same => (by cases same), fun place same => ?_⟩
    cases same
    rfl

/-- A keyword at the end of one source and a mark at the beginning of the other stay what they are. -/
theorem keyword_joined_to_mark :
    tokenize "\xa0x or" = .ok ([⟨.symbol, "x", 2, 1⟩, ⟨.or, "or", 4, 2⟩] ++ [.finish 6]) ∧
      tokenize "= y\xa0" = .ok [⟨.equals, "=", 0, 1⟩, ⟨.symbol, "y", 2, 1⟩, .finish 3] ∧
      tokenize ("\xa0x or" ++ "\n" ++ "= y\xa0") = .ok [⟨.symbol, "x", 2, 1⟩, ⟨.or, "or", 4, 2⟩,
        ⟨.equals, "=", 7, 1⟩, ⟨.symbol, "y", 9, 1⟩, .finish 10] := by
  have lexed : tokenize "\xa0x or" = .ok ([⟨.symbol, "x", 2, 1⟩, ⟨.or, "or", 4, 2⟩] ++ [.finish 6]) := by
    rfl
  have lexed' : tokenize "= y\xa0" = .ok [⟨.equals, "=", 0, 1⟩, ⟨.symbol, "y", 2, 1⟩, .finish 3] := by
    rfl
  have some : "\n".toList ≠ [] := by simp
  have blank : ∀ c ∈ "\n".toList, isGap c = true := by simp [isGap]
  have solid : ∃ c ∈ "= y\xa0".toList, isBlank c = false := ⟨'y', by simp, by decide⟩
  have trailing : "\xa0x or".toList.reverse.takeWhile isBlank = [] := by rfl
  have leading : "= y\xa0".toList.takeWhile isBlank = [] := by rfl
  have joined := tokenize_joined lexed some blank solid (by rw [trailing]; simp) (by rw [leading]; simp)
  exact ⟨lexed, lexed', joined.1 _ lexed'⟩

end Definiens
