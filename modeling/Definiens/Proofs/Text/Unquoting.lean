import Definiens.Proofs.Text.Quoting

/-!
# Reading a quoted text back

A quoted text shows where it ends, and what it quotes.  A character that is escaped begins with a backslash,
behind which a letter or a code point in braces tells which one it is; any other stands for itself, and is
neither a backslash nor a quotation mark.  `unquoteChar?` reads one character in this way.  Whatever is quoted,
nothing but printed characters stands between the quotation marks, and so no text leaves its line.
-/

namespace Definiens.Text

/-! ## Hexadecimal numerals -/

def isHexDigit (c : Char) : Bool := c.isDigit || (97 ≤ c.toNat && c.toNat ≤ 102)

def hexValue (c : Char) : Nat := if c.isDigit then c.toNat - 48 else c.toNat - 87

def ofHexDigits (digits : List Char) : Nat := digits.foldl (fun value digit => 16 * value + hexValue digit) 0

theorem hexValue_digitChar {n : Nat} (small : n < 16) :
    isHexDigit n.digitChar = true ∧ hexValue n.digitChar = n := by
  have table : ∀ n < 16, isHexDigit n.digitChar = true ∧ hexValue n.digitChar = n := by decide
  exact table n small

theorem isHexDigit_of_mem_toDigits {n : Nat} {c : Char} (member : c ∈ Nat.toDigits 16 n) :
    isHexDigit c = true := by
  induction n using Nat.strongRecOn with
  | ind n ih =>
    rw [Nat.toDigits_eq_if (by decide)] at member
    split at member
    next small =>
      rw [List.mem_singleton.mp member]
      exact (hexValue_digitChar small).1
    next large =>
      rcases List.mem_append.mp member with before | last
      · exact ih (n / 16) (by omega) before
      · rw [List.mem_singleton.mp last]
        exact (hexValue_digitChar (Nat.mod_lt n (by decide))).1

theorem ofHexDigits_toDigits (n : Nat) : ofHexDigits (Nat.toDigits 16 n) = n := by
  induction n using Nat.strongRecOn with
  | ind n ih =>
    rw [Nat.toDigits_eq_if (by decide)]
    split
    next small => simpa [ofHexDigits] using (hexValue_digitChar small).2
    next large =>
      have before := ih (n / 16) (by omega)
      rw [ofHexDigits] at before ⊢
      rw [List.foldl_append, before, List.foldl_cons, List.foldl_nil,
        (hexValue_digitChar (Nat.mod_lt n (by decide))).2]
      exact Nat.div_add_mod n 16

/-! ## One character -/

/-- The characters that are escaped by a letter, or by themselves, and what stands behind the backslash. -/
def letterEscapes : List (Char × Char) :=
  [('\x00', '0'), ('\t', 't'), ('\n', 'n'), ('\x0d', 'r'), ('"', '"'), ('\\', '\\')]

/-- A character is escaped by a letter or by its code point, or it is printed and stands for itself. -/
theorem quoteChar_cases (c : Char) :
    (∃ letter, (c, letter) ∈ letterEscapes ∧ quoteChar c = ['\\', letter]) ∨
      quoteChar c = codePointEscape c ∨
      (quoteChar c = [c] ∧ c ≠ '\\' ∧ c ≠ '"' ∧ isUnprintable c = false) := by
  by_cases lettered : ∃ letter, (c, letter) ∈ letterEscapes
  · obtain ⟨letter, listed⟩ := lettered
    have table : ∀ entry ∈ letterEscapes, quoteChar entry.1 = ['\\', entry.2] := by decide
    exact Or.inl ⟨letter, listed, table _ listed⟩
  · refine Or.inr ?_
    simp only [letterEscapes, List.mem_cons, List.not_mem_nil, Prod.mk.injEq, or_false, exists_or,
      exists_and_left, exists_eq, and_true, not_or] at lettered
    obtain ⟨nul, tab, feed, ret, quote, slash⟩ := lettered
    simp only [quoteChar, nul, tab, feed, ret, quote, slash, if_false]
    split
    next => exact Or.inl rfl
    next plain =>
      simp only [Bool.or_eq_true, not_or, Bool.not_eq_true] at plain
      exact Or.inr ⟨rfl, slash, quote, plain.2⟩

/-- The character of the code point in braces that a text begins with, and what stands behind it. -/
def readCodePoint? : List Char → Option (Char × List Char)
  | '\x7b' :: text =>
    match text.dropWhile isHexDigit with
    | '\x7d' :: behind => some (Char.ofNat (ofHexDigits (text.takeWhile isHexDigit)), behind)
    | _ => none
  | _ => none

def unquoteChar? : List Char → Option (Char × List Char)
  | '\\' :: 'u' :: text => readCodePoint? text
  | '\\' :: letter :: text => (letterEscapes.find? (·.2 == letter)).map fun entry => (entry.1, text)
  | c :: text => some (c, text)
  | [] => none

theorem unquoteChar?_quoteChar (c : Char) (behind : List Char) :
    unquoteChar? (quoteChar c ++ behind) = some (c, behind) := by
  rcases quoteChar_cases c with ⟨letter, listed, quoted⟩ | quoted | ⟨quoted, noSlash, -, -⟩
  · have table : ∀ entry ∈ letterEscapes, entry.2 ≠ 'u' ∧
        letterEscapes.find? (·.2 == entry.2) = some entry := by decide
    obtain ⟨noCodePoint, found⟩ := table _ listed
    rw [quoted, List.cons_append, List.cons_append, List.nil_append, unquoteChar?, found]
    · rfl
    · exact noCodePoint
  · have digits : ∀ d ∈ Nat.toDigits 16 c.toNat, isHexDigit d = true :=
      fun _ => isHexDigit_of_mem_toDigits
    have brace : ∀ d ∈ ('\x7d' :: behind).head?, isHexDigit d = false := stops_cons (by decide)
    have same : quoteChar c ++ behind =
        '\\' :: 'u' :: '\x7b' :: (Nat.toDigits 16 c.toNat ++ '\x7d' :: behind) := by
      simp [quoted, codePointEscape]
    rw [same, unquoteChar?, readCodePoint?, takeWhile_append_eq digits brace,
      dropWhile_append_eq digits brace, ofHexDigits_toDigits, Char.ofNat_toNat]
    rfl
  · rw [quoted, List.singleton_append]
    simp [unquoteChar?, noSlash]

theorem legible_quoteChar : Legible quoteChar fun _ => True :=
  .of_read unquoteChar? fun c behind _ => unquoteChar?_quoteChar c behind

theorem quote_ne_quoteChar (c : Char) (behind rest : List Char) : '"' :: behind ≠ quoteChar c ++ rest := by
  rcases quoteChar_cases c with ⟨letter, -, quoted⟩ | quoted | ⟨quoted, -, noQuote, -⟩
  · rw [quoted]
    simp
  · rw [quoted]
    simp [codePointEscape]
  · rw [quoted]
    simpa using fun same _ => noQuote same.symm

/-! ## Whole texts -/

/-- A quoted text ends at its second quotation mark that is not escaped. -/
theorem legible_quoted : Legible (fun text : String => (quoted text).toList) fun _ => True := by
  intro text other behind behind' _ _ same
  simp only [quoted, String.toList_ofList, quoteChars, List.cons_append, List.append_assoc,
    List.nil_append, List.cons.injEq, true_and] at same
  obtain ⟨texts, rest⟩ := legible_quoteChar.flatMap (fun c => quote_ne_quoteChar c behind)
    (fun c => quote_ne_quoteChar c behind') same
  exact ⟨String.toList_inj.mp texts, (List.cons.inj rest).2⟩

theorem isUnprintable_of_ascii {c : Char} (low : 32 ≤ c.toNat) (high : c.toNat < 127) :
    isUnprintable c = false :=
  covers_unprintable_ascii low high

theorem isUnprintable_of_isPlain {c : Char} (plain : isPlain c = true) : isUnprintable c = false := by
  simp only [isPlain, Bool.and_eq_true, decide_eq_true_eq] at plain
  exact isUnprintable_of_ascii plain.1.1.1 plain.1.1.2

theorem isUnprintable_of_isHexDigit {c : Char} (digit : isHexDigit c = true) : isUnprintable c = false := by
  simp only [isHexDigit, Bool.or_eq_true, Bool.and_eq_true, decide_eq_true_eq] at digit
  rcases digit with digit | ⟨low, high⟩
  · exact isUnprintable_of_isPlain (isPlain_of_isDigit digit)
  · exact isUnprintable_of_ascii (by omega) (by omega)

theorem isUnprintable_of_mem_quoteChar {c d : Char} (member : d ∈ quoteChar c) : isUnprintable d = false := by
  rcases quoteChar_cases c with ⟨letter, listed, quoted⟩ | quoted | ⟨quoted, -, -, printed⟩
  · have table : ∀ entry ∈ letterEscapes, 32 ≤ entry.2.toNat ∧ entry.2.toNat < 127 := by decide
    obtain ⟨low, high⟩ := table _ listed
    rw [quoted] at member
    simp only [List.mem_cons, List.not_mem_nil, or_false] at member
    rcases member with rfl | rfl
    · exact isUnprintable_of_ascii (by decide) (by decide)
    · exact isUnprintable_of_ascii low high
  · rw [quoted, codePointEscape] at member
    simp only [List.cons_append, List.mem_cons, List.mem_append, List.not_mem_nil, or_false] at member
    rcases member with rfl | rfl | rfl | digit | rfl
    · exact isUnprintable_of_ascii (by decide) (by decide)
    · exact isUnprintable_of_ascii (by decide) (by decide)
    · exact isUnprintable_of_ascii (by decide) (by decide)
    · exact isUnprintable_of_isHexDigit (isHexDigit_of_mem_toDigits digit)
    · exact isUnprintable_of_ascii (by decide) (by decide)
  · rw [quoted] at member
    rwa [List.mem_singleton.mp member]

theorem isUnprintable_of_mem_quoted {text : String} {c : Char} (member : c ∈ (quoted text).toList) :
    isUnprintable c = false := by
  have mark : isUnprintable '"' = false := isUnprintable_of_ascii (by decide) (by decide)
  simp only [quoted, String.toList_ofList, List.cons_append, List.mem_cons, List.mem_append,
    List.not_mem_nil, or_false] at member
  rcases member with rfl | inside | rfl
  · exact mark
  · obtain ⟨d, -, written⟩ := List.mem_flatMap.mp inside
    exact isUnprintable_of_mem_quoteChar written
  · exact mark

end Definiens.Text
