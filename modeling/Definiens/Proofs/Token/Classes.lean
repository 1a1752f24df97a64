import Definiens.Proofs.Token.Failure
import Definiens.Tree

/-!
# What the tokens of each kind are

The rules look at texts of different extent, and the same letters come out as a keyword, as a symbol or as
the beginning of a type literal by what stands behind them.  `Lexeme.Classified` tells the lexemes of each
kind by their own characters and by the text behind them, and leaves nothing out: a text begins with a
lexeme exactly if it falls into one that is so classified and the text behind it.
-/

namespace Definiens

open Text

/-! ## The tables -/

def marks : List (Char × Kind) :=
  [('(', .leftParen), (')', .rightParen), ('\x7b', .leftBrace), ('\x7d', .rightBrace), (',', .comma),
   ('=', .equals), ('!', .bang)]

/-- The keywords that are written as a symbol might be. -/
def wordKeywords : List String := ["def", "forall", "exists", "and", "or"]

namespace Kind

theorem ofKeyword?_eq_some_iff {text : List Char} {kind : Kind} :
    ofKeyword? text = some kind ↔ ∃ spelling, (spelling, kind) ∈ keywords ∧ spelling.toList = text := by
  constructor
  · intro found
    obtain ⟨⟨spelling, _⟩, hfind, rfl⟩ := Option.map_eq_some_iff.mp found
    exact ⟨spelling, List.mem_of_find?_eq_some hfind, by simpa using List.find?_some hfind⟩
  · rintro ⟨spelling, listed, rfl⟩
    have table : ∀ entry ∈ keywords, ofKeyword? entry.1.toList = some entry.2 := by decide
    exact table _ listed

theorem ofMark?_eq_some_iff {c : Char} {kind : Kind} :
    ofMark? c = some kind ↔ (c, kind) ∈ marks := by
  constructor
  · intro found
    unfold ofMark? at found
    repeat' split at found
    all_goals cases found
    all_goals simp [marks, *]
  · intro listed
    have table : ∀ entry ∈ marks, ofMark? entry.1 = some entry.2 := by decide
    exact table _ listed

theorem ofMark?_of_symbolic {c : Char} (symbolic : isSymbolic c = true) : ofMark? c = none := by
  rw [ofMark?_eq_none_iff]
  intro listed
  have table : (['(', ')', '\x7b', '\x7d', ',', '=', '!'].all fun c => !isSymbolic c) = true := by decide
  have plain := List.all_eq_true.mp table c listed
  rw [symbolic] at plain
  cases plain

end Kind

theorem kind_of_mem_keywords {spelling : String} {kind : Kind} (listed : (spelling, kind) ∈ keywords) :
    kind ≠ .type ∧ kind ≠ .symbol := by
  have table : ∀ entry ∈ keywords, entry.2 ≠ .type ∧ entry.2 ≠ .symbol := by decide
  exact table _ listed

theorem kind_of_mem_marks {c : Char} {kind : Kind} (listed : (c, kind) ∈ marks) :
    kind ≠ .type ∧ kind ≠ .symbol := by
  have table : ∀ mark ∈ marks, mark.2 ≠ .type ∧ mark.2 ≠ .symbol := by decide
  exact table _ listed

theorem toNat_of_isAlphanum {c : Char} (alphanum : c.isAlphanum = true) :
    42 ≤ c.toNat ∧ c.toNat ≤ 122 := by
  have ranges : (decide (c.val ≥ 'A'.val ∧ c.val ≤ 'Z'.val) ||
      (decide (c.val ≥ 'a'.val) && decide (c.val ≤ 'z'.val)) ||
      (decide (c.val ≥ '0'.val) && decide (c.val ≤ '9'.val))) = true := alphanum
  simp only [Bool.or_eq_true, Bool.and_eq_true, decide_eq_true_eq, ge_iff_le,
    UInt32.le_iff_toNat_le] at ranges
  rcases ranges with (⟨low, high⟩ | ⟨low, high⟩) | ⟨low, high⟩
  · exact ⟨Nat.le_trans (by decide) low, Nat.le_trans high (by decide)⟩
  · exact ⟨Nat.le_trans (by decide) low, Nat.le_trans high (by decide)⟩
  · exact ⟨Nat.le_trans (by decide) low, Nat.le_trans high (by decide)⟩

theorem toNat_of_symbolic {c : Char} (symbolic : isSymbolic c = true) :
    42 ≤ c.toNat ∧ c.toNat ≤ 122 := by
  simp only [isSymbolic, Bool.or_eq_true, beq_iff_eq] at symbolic
  rcases symbolic with ((((((alphanum | rfl) | rfl) | rfl) | rfl) | rfl) | rfl) | rfl
  · exact toNat_of_isAlphanum alphanum
  all_goals decide

theorem not_isDelimiter_of_symbolic {c : Char} (symbolic : isSymbolic c = true) :
    isDelimiter c = false := by
  obtain ⟨low, high⟩ := toNat_of_symbolic symbolic
  have noGap : isGap c = false := by
    have noSpace : c ≠ ' ' := by
      rintro rfl
      exact absurd low (by decide)
    have far : ¬ c.toNat ≤ 13 := by omega
    simp [isGap, noSpace, far]
  have table : (['(', ')', '\x7b', '\x7d', ','].all fun c => !isSymbolic c) = true := by decide
  have noMark : c ∉ ['(', ')', '\x7b', '\x7d', ','] := by
    intro listed
    have plain := List.all_eq_true.mp table c listed
    rw [symbolic] at plain
    cases plain
  simp only [List.mem_cons, List.not_mem_nil, or_false, not_or] at noMark
  simp [isDelimiter, noGap, noMark]

theorem not_isDelimiter_of_mem_keywords {entry : String × Kind} (listed : entry ∈ keywords) :
    ∀ c ∈ entry.1.toList, (!isDelimiter c) = true := by
  have table : (keywords.all fun entry => entry.1.toList.all fun c => !isDelimiter c) = true := by decide
  exact List.all_eq_true.mp (List.all_eq_true.mp table entry listed)

/-- A keyword that begins with a symbolic character is a word, and symbolic throughout. -/
theorem mem_wordKeywords_of_symbolic {entry : String × Kind} (listed : entry ∈ keywords) {c : Char}
    (first : c ∈ entry.1.toList.head?) (symbolic : isSymbolic c = true) :
    entry.1 ∈ wordKeywords ∧ ∀ d ∈ entry.1.toList, isSymbolic d = true := by
  have table : (keywords.all fun entry => !(entry.1.toList.head?.any isSymbolic) ||
      (wordKeywords.contains entry.1 && entry.1.toList.all isSymbolic)) = true := by decide
  have known := List.all_eq_true.mp table entry listed
  have leads : entry.1.toList.head?.any isSymbolic = true := by
    rw [Option.mem_def.mp first]
    exact symbolic
  rw [leads, Bool.not_true, Bool.false_or, Bool.and_eq_true, List.contains_iff_mem] at known
  exact ⟨known.1, List.all_eq_true.mp known.2⟩

theorem exists_mem_keywords_of_word {word : String} (listed : word ∈ wordKeywords) :
    ∃ kind, (word, kind) ∈ keywords := by
  have table : ∀ word ∈ wordKeywords, word ∈ keywords.map Prod.fst := by decide
  obtain ⟨⟨_, kind⟩, member, rfl⟩ := List.mem_map.mp (table word listed)
  exact ⟨kind, member⟩

/-! ## Lexemes and what stands behind them -/

namespace Lexeme

/-- The lexemes of each kind in front of the given text. -/
inductive Classified (behind : List Char) : Kind → List Char → Prop where
  /-- A keyword or an arrow is one of the table, up to a delimiter or to the end. -/
  | keyword {spelling : String} {kind : Kind} (listed : (spelling, kind) ∈ keywords)
      (apart : ∀ c ∈ behind.head?, isDelimiter c = true) :
      Classified behind kind spelling.toList
  /-- A mark is a single character, but the equals sign does not begin an arrow that stands by itself. -/
  | mark {c : Char} {kind : Kind} (listed : (c, kind) ∈ marks)
      (noArrow : kind = .equals → ((c :: behind).takeWhile fun c => !isDelimiter c) ≠ ['=', '>']) :
      Classified behind kind [c]
  | typeLiteral {name : List Char} (unclosed : typeClosing ∉ name) :
      Classified behind .type (typeOpening ++ name ++ [typeClosing])
  /-- A symbol goes as far as its characters do.  It is spelled like a keyword only where something else than
  a delimiter follows, and like the opening of a type literal only where no bracket does. -/
  | symbol {text : List Char} (some : text ≠ []) (symbolic : ∀ c ∈ text, isSymbolic c = true)
      (maximal : ∀ c ∈ behind.head?, isSymbolic c = false)
      (glued : String.ofList text ∈ wordKeywords → ∃ c ∈ behind.head?, isDelimiter c = false)
      (noType : String.ofList text = "type" → ∀ c ∈ behind.head?, c ≠ '[') :
      Classified behind .symbol text

variable {text behind lexeme : List Char} {kind : Kind}

/-- A symbol in front of a text opens a type literal exactly if it is spelled `type` and a bracket follows. -/
theorem opened_iff_of_symbolic (symbolic : ∀ c ∈ text, isSymbolic c = true)
    (maximal : ∀ c ∈ behind.head?, isSymbolic c = false) :
    typeOpening <+: text ++ behind ↔ String.ofList text = "type" ∧ '[' ∈ behind.head? := by
  constructor
  · rintro ⟨others, same⟩
    have letters : ∀ c ∈ ['t', 'y', 'p', 'e'], isSymbolic c = true := List.all_eq_true.mp (by decide)
    have bracket : ∀ c ∈ ('[' :: others).head?, isSymbolic c = false := by
      rintro c ⟨rfl⟩
      decide
    obtain ⟨rfl, rfl⟩ := longest_run_unique letters bracket symbolic maximal same
    exact ⟨rfl, rfl⟩
  · rintro ⟨spelled, bracket⟩
    obtain ⟨others, rfl⟩ := List.head?_eq_some_iff.mp bracket
    have letters : text = ['t', 'y', 'p', 'e'] := by
      rw [← String.toList_ofList (l := text), spelled]
      rfl
    rw [letters]
    exact List.prefix_append typeOpening others

theorem ofKeyword?_of_symbolic (some : text ≠ []) (symbolic : ∀ c ∈ text, isSymbolic c = true)
    (maximal : ∀ c ∈ behind.head?, isSymbolic c = false) :
    Kind.ofKeyword? ((text ++ behind).takeWhile fun c => !isDelimiter c) = none ↔
      (String.ofList text ∈ wordKeywords → ∃ c ∈ behind.head?, isDelimiter c = false) := by
  have solid : ∀ c ∈ text, (!isDelimiter c) = true := by
    intro c member
    rw [not_isDelimiter_of_symbolic (symbolic c member), Bool.not_false]
  rw [List.takeWhile_append_of_pos solid]
  constructor
  · intro none word
    apply Classical.byContradiction
    intro apart
    have stops : ∀ c ∈ behind.head?, (!isDelimiter c) = false := by
      intro c first
      cases delimiter : isDelimiter c with
      | true => rfl
      | false => exact absurd ⟨c, first, delimiter⟩ apart
    obtain ⟨kind, listed⟩ := exists_mem_keywords_of_word word
    rw [takeWhile_eq_nil stops, List.append_nil, Kind.ofKeyword?_eq_none_iff] at none
    exact none _ listed String.toList_ofList
  · intro glued
    rw [Kind.ofKeyword?_eq_none_iff]
    rintro entry listed same
    obtain ⟨c, others, rfl⟩ := List.exists_cons_of_ne_nil some
    obtain ⟨word, throughout⟩ := mem_wordKeywords_of_symbolic listed (c := c)
      (by rw [same]; rfl) (symbolic c List.mem_cons_self)
    -- what follows the symbol in the keyword would be symbolic, and the symbol is maximal
    have alone : (behind.takeWhile fun c => !isDelimiter c) = [] := by
      cases behind with
      | nil => rfl
      | cons d behind =>
        refine List.takeWhile_cons_of_neg fun inside => ?_
        have member : d ∈ entry.1.toList := by
          rw [same, List.takeWhile_cons]
          simp [inside]
        have plain := maximal d rfl
        rw [throughout d member] at plain
        cases plain
    rw [alone, List.append_nil] at same
    rw [← same, String.ofList_toList] at glued
    obtain ⟨d, first, solid⟩ := glued word
    obtain ⟨behind, rfl⟩ := List.head?_eq_some_iff.mp first
    simp [solid] at alone

theorem ofKeyword?_of_mark {c : Char} (listed : (c, kind) ∈ marks)
    (noArrow : kind = .equals → ((c :: behind).takeWhile fun c => !isDelimiter c) ≠ ['=', '>']) :
    Kind.ofKeyword? ((c :: behind).takeWhile fun c => !isDelimiter c) = none := by
  have table : ∀ mark ∈ marks, ∀ entry ∈ keywords, entry.1.toList.head? = some mark.1 →
      mark.2 = .equals ∧ entry.1.toList = ['=', '>'] := by decide
  rw [Kind.ofKeyword?_eq_none_iff]
  intro entry known same
  have first : entry.1.toList.head? = some c := by
    have some : entry.1.toList ≠ [] := (Kind.ofKeyword?_eq_some
      (Kind.ofKeyword?_eq_some_iff.mpr ⟨entry.1, known, rfl⟩)).1
    obtain ⟨d, others, spelled⟩ := List.exists_cons_of_ne_nil some
    have head : (c :: behind).head? = Option.some d := by
      have begins := List.takeWhile_prefix (l := c :: behind) fun c => !isDelimiter c
      rw [← same, spelled] at begins
      obtain ⟨rest, whole⟩ := begins
      rw [← whole]
      rfl
    rw [spelled]
    exact head.symm
  obtain ⟨equals, arrow⟩ := table _ listed entry known first
  exact noArrow equals (same.symm.trans arrow)

theorem classified_of_first? (found : first? text = some (kind, lexeme)) :
    ∃ behind, text = lexeme ++ behind ∧ Classified behind kind lexeme := by
  -- by the first rule that applies; for a symbol it matters that no rule before it did
  rw [first?] at found
  split at found
  next known keyword =>
    cases found
    obtain ⟨spelling, listed, spelled⟩ := Kind.ofKeyword?_eq_some_iff.mp keyword
    refine ⟨text.dropWhile fun c => !isDelimiter c, List.takeWhile_append_dropWhile.symm, ?_⟩
    rw [← spelled]
    refine .keyword listed fun c first => ?_
    rw [← Bool.not_eq_false']
    exact not_belongs_of_head?_dropWhile first
  next known keyword mark =>
    cases found
    obtain ⟨c, first, hmark⟩ := Option.bind_eq_some_iff.mp mark
    obtain ⟨behind, rfl⟩ := List.head?_eq_some_iff.mp first
    refine ⟨behind, rfl, .mark (Kind.ofMark?_eq_some_iff.mp hmark) fun _ arrow => ?_⟩
    rw [arrow] at keyword
    cases keyword
  next keyword mark =>
    split at found
    next opened =>
      split at found
      next closed =>
        cases found
        obtain ⟨behind, whole⟩ := takeWhile_ne_append_isPrefix closed
        refine ⟨behind, whole.symm, ?_⟩
        obtain ⟨others, rfl⟩ := opened
        have letters : ∀ c ∈ typeOpening, (c != typeClosing) = true := List.all_eq_true.mp (by decide)
        rw [List.takeWhile_append_of_pos letters]
        refine .typeLiteral fun member => ?_
        have inside := belongs_of_mem_takeWhile member
        rw [bne_self_eq_false] at inside
        cases inside
      next => cases found
    next opened =>
      split at found
      next => cases found
      next some =>
        cases found
        have symbolic : ∀ c ∈ text.takeWhile isSymbolic, isSymbolic c = true :=
          fun c => belongs_of_mem_takeWhile
        have maximal : ∀ c ∈ (text.dropWhile isSymbolic).head?, isSymbolic c = false :=
          fun c => not_belongs_of_head?_dropWhile
        have cut : text = text.takeWhile isSymbolic ++ text.dropWhile isSymbolic :=
          List.takeWhile_append_dropWhile.symm
        rw [cut, opened_iff_of_symbolic symbolic maximal] at opened
        rw [cut, ofKeyword?_of_symbolic some symbolic maximal] at keyword
        refine ⟨_, cut, .symbol some symbolic maximal keyword ?_⟩
        rintro spelled c first rfl
        exact opened ⟨spelled, first⟩

theorem first?_of_classified (classified : Classified behind kind lexeme) :
    first? (lexeme ++ behind) = some (kind, lexeme) := by
  -- by the class; every rule that is tried before has to be ruled out
  cases classified with
  | @keyword spelling kind listed apart =>
    have stops : ∀ c ∈ behind.head?, (!isDelimiter c) = false := by
      intro c first
      rw [apart c first, Bool.not_true]
    have run := takeWhile_append_eq (not_isDelimiter_of_mem_keywords listed) stops
    have known := Kind.ofKeyword?_eq_some_iff.mpr ⟨spelling, listed, rfl⟩
    simp only [first?, run, known]
  | @mark c kind listed noArrow =>
    have known := Kind.ofMark?_eq_some_iff.mpr listed
    simp only [first?, List.singleton_append, ofKeyword?_of_mark listed noArrow, List.head?_cons,
      Option.bind_some, known, List.take_succ_cons, List.take_zero]
  | @typeLiteral name unclosed =>
    have opened : typeOpening <+: typeOpening ++ name ++ [typeClosing] ++ behind := by
      simp only [List.append_assoc]
      exact List.prefix_append _ _
    have closed : typeClosing ∈ typeOpening ++ name ++ [typeClosing] ++ behind := by simp
    have letters : ∀ c ∈ typeOpening, (c != typeClosing) = true := List.all_eq_true.mp (by decide)
    have inside : ∀ c ∈ typeOpening ++ name, (c != typeClosing) = true := by
      intro c member
      rcases List.mem_append.mp member with member | member
      · exact letters c member
      · exact bne_iff_ne.mpr fun same => unclosed (same ▸ member)
    have stops : ∀ c ∈ ([typeClosing] ++ behind).head?, (c != typeClosing) = false := by
      rintro c ⟨rfl⟩
      exact bne_self_eq_false _
    have noMark : (typeOpening ++ name ++ [typeClosing] ++ behind).head?.bind Kind.ofMark? = none := rfl
    have run := takeWhile_append_eq inside stops
    rw [← List.append_assoc] at run
    simp only [first?, ofKeyword?_of_opened opened, noMark, opened, closed, if_true, run]
  | symbol some symbolic maximal glued noType =>
    have opened : ¬ typeOpening <+: lexeme ++ behind := by
      rw [opened_iff_of_symbolic symbolic maximal]
      rintro ⟨spelled, bracket⟩
      exact noType spelled _ bracket rfl
    have keyword := (ofKeyword?_of_symbolic some symbolic maximal).mpr glued
    have noMark : (lexeme ++ behind).head?.bind Kind.ofMark? = none := by
      obtain ⟨c, others, rfl⟩ := List.exists_cons_of_ne_nil some
      exact Kind.ofMark?_of_symbolic (symbolic c List.mem_cons_self)
    simp only [first?, keyword, noMark, opened, takeWhile_append_eq symbolic maximal, some, if_false]

/-- A text begins with one of its beginnings as a lexeme exactly if that is classified in front of the rest. -/
theorem first?_append_iff :
    first? (lexeme ++ behind) = some (kind, lexeme) ↔ Classified behind kind lexeme := by
  constructor
  · intro found
    obtain ⟨behind', same, classified⟩ := classified_of_first? found
    rwa [List.append_cancel_left same]
  · exact first?_of_classified

end Lexeme

/-! ## Tokens in their source -/

/-- The token stands in the source with the text behind it, up to the end of what trimming leaves. -/
def Token.FollowedBy (source : String) (token : Token) (behind : List Char) : Prop :=
  ∃ front core back, Trimmed source.toList front core back ∧
    Slice source token.offset token.text.toList (token.offset + token.length) ∧
    Slice source (token.offset + token.length) behind (byteLength front + byteLength core)

theorem Item.Lexed.exists_first? {source : String} {start stop : Nat} {core : List Char}
    {items : List Item} (lexed : Item.Lexed start core items) (slice : Slice source start core stop)
    {token : Token} (member : .token token ∈ items) (proper : token.kind ≠ .finish) :
    ∃ behind, Slice source token.offset token.text.toList (token.offset + token.length) ∧
      Slice source (token.offset + token.length) behind stop ∧
      Lexeme.first? (token.text.toList ++ behind) = some (token.kind, token.text.toList) := by
  induction lexed with
  | finish blank =>
    cases List.mem_singleton.mp member
    exact absurd rfl proper
  | failure blank solid missing => cases List.mem_singleton.mp member
  | @token start gap lexeme behind kind items blank solid found others ih =>
    obtain ⟨-, ahead⟩ := slice.parts
    obtain ⟨here, rest⟩ := ahead.parts
    rcases List.mem_cons.mp member with first | member
    · cases first
      simp only [String.toList_ofList]
      exact ⟨behind, here, rest, found⟩
    · exact ih rest member

theorem exists_classified {source : String} {token : Token} (yielded : token ∈ yieldedTokens source)
    (proper : token.kind ≠ .finish) :
    ∃ behind, token.FollowedBy source behind ∧
      Lexeme.Classified behind token.kind token.text.toList := by
  obtain ⟨item, member, same⟩ := List.mem_filterMap.mp yielded
  cases item with
  | failure place => cases same
  | token read =>
    cases same
    obtain ⟨back, trimmed⟩ := trimmed_trim source.toList
    obtain ⟨behind, here, rest, found⟩ :=
      (lexed_items source).exists_first? (Slice.of_split trimmed.split) member proper
    exact ⟨behind, ⟨_, _, back, trimmed, here, rest⟩, Lexeme.first?_append_iff.mp found⟩

theorem TypeLiteral.name_eq {literal : TypeLiteral} {name : List Char}
    (written : literal.token.text.toList = typeOpening ++ name ++ [typeClosing]) :
    literal.name = String.ofList name := by
  have begins : typeOpening.isPrefixOf (typeOpening ++ name ++ [typeClosing]) = true := by
    rw [List.append_assoc, List.isPrefixOf_iff_prefix]
    exact List.prefix_append _ _
  have inside : (typeOpening ++ name ++ [typeClosing]).drop typeOpening.length =
      name ++ [typeClosing] := by
    rw [List.append_assoc, List.drop_left]
  simp only [TypeLiteral.name, written, begins, inside, List.getLast?_concat, BEq.rfl,
    Bool.and_self, if_true, List.dropLast_concat]

/-- Every token in front of the finish, or of the place where lexing fails, is a lexeme of its kind that
goes as far as its kind does; and the name of a type literal is what its brackets enclose. -/
theorem token_is_maximal_lexeme {source : String} {token : Token}
    (yielded : token ∈ yieldedTokens source) (proper : token.kind ≠ .finish) :
    ∃ behind, token.FollowedBy source behind ∧
      Lexeme.Classified behind token.kind token.text.toList ∧
      (token.kind = .type → ∃ name, token.text.toList = typeOpening ++ name ++ [typeClosing] ∧
        typeClosing ∉ name ∧ (TypeLiteral.mk token).name = String.ofList name) := by
  obtain ⟨behind, followed, classified⟩ := exists_classified yielded proper
  refine ⟨behind, followed, classified, fun type => ?_⟩
  rw [type] at classified
  generalize text_eq : token.text.toList = text at classified
  cases classified with
  | keyword listed apart => exact absurd rfl (kind_of_mem_keywords listed).1
  | mark listed noArrow => exact absurd rfl (kind_of_mem_marks listed).1
  | @typeLiteral name unclosed => exact ⟨name, rfl, unclosed, TypeLiteral.name_eq text_eq⟩

/-- A symbol may be spelled `or` in front of an equals sign. -/
theorem symbol_glued_to_equals :
    (⟨.symbol, "or", 0, 2⟩ : Token) ∈ yieldedTokens "or=b" ∧ Kind.symbol ≠ .finish ∧
      ∃ behind, (⟨.symbol, "or", 0, 2⟩ : Token).FollowedBy "or=b" behind ∧
        Lexeme.Classified behind .symbol "or".toList := by
  have yielded : (⟨.symbol, "or", 0, 2⟩ : Token) ∈ yieldedTokens "or=b" := by decide +kernel
  obtain ⟨behind, followed, classified, -⟩ := token_is_maximal_lexeme yielded (by decide)
  exact ⟨yielded, by decide, behind, followed, classified⟩

end Definiens
