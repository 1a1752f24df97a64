import Definiens.Proofs.Text.Legibility
import Definiens.Text.Quoted

/-!
# What quoting leaves as it is

The printed characters of ASCII stand for themselves between quotes, but for the quotation mark and the
backslash.
-/

namespace Definiens.Text

/-- A printed character of ASCII that is no quotation mark and no backslash. -/
def isPlain (c : Char) : Bool := 32 ≤ c.toNat && c.toNat < 127 && c != '"' && c != '\\'

theorem covers_of_lt {ranges : List (Nat × Nat)} {n : Nat} (beyond : ∀ range ∈ ranges.head?, n < range.1) :
    covers ranges n = false := by
  cases ranges with
  | nil => rfl
  | cons range ranges => rw [covers, if_pos (beyond range rfl)]

theorem covers_unprintable_ascii {n : Nat} (low : 32 ≤ n) (high : n < 127) :
    covers unprintableRanges n = false := by
  have next : ∀ range ∈ unprintableRanges.tail.head?, n < range.1 := fun _ first => by
    cases first
    exact high
  have begun : unprintableRanges = (0x0, 0x1f) :: unprintableRanges.tail := rfl
  rw [begun, covers, if_neg (Nat.not_lt_zero n), covers_of_lt next]
  simpa using Nat.lt_of_succ_le low

theorem quoteChar_plain {c : Char} (plain : isPlain c = true) : quoteChar c = [c] := by
  simp only [isPlain, Bool.and_eq_true, decide_eq_true_eq, bne_iff_ne] at plain
  obtain ⟨⟨⟨low, high⟩, noQuote⟩, noSlash⟩ := plain
  have printed : isUnprintable c = false := covers_unprintable_ascii low high
  have alone : isCombining c = false := covers_of_lt fun _ first => by
    cases first
    omega
  have drawn : isIgnorable c = false := covers_of_lt fun _ first => by
    cases first
    omega
  have noControl {d : Char} (control : d.toNat < 32) : c ≠ d := by
    rintro rfl
    omega
  simp [quoteChar, noQuote, noSlash, printed, alone, drawn, noControl (d := '\x00') (by decide),
    noControl (d := '\t') (by decide), noControl (d := '\n') (by decide), noControl (d := '\x0d') (by decide)]

theorem quoteChars_plain {text : List Char} (plain : ∀ c ∈ text, isPlain c = true) :
    quoteChars text = text := by
  induction text with
  | nil => rfl
  | cons c text ih =>
    obtain ⟨here, others⟩ := List.forall_mem_cons.mp plain
    rw [quoteChars, List.flatMap_cons, quoteChar_plain here, ← quoteChars, ih others]
    rfl

theorem quoted_plain {text : String} (plain : ∀ c ∈ text.toList, isPlain c = true) :
    quoted text = "\"" ++ text ++ "\"" := by
  apply String.toList_inj.mp
  simp [quoted, quoteChars_plain plain]

theorem isPlain_of_isDigit {c : Char} (digit : c.isDigit = true) : isPlain c = true := by
  have noQuote : c ≠ '"' := by
    rintro rfl
    cases digit
  have noSlash : c ≠ '\\' := by
    rintro rfl
    cases digit
  simp only [Char.isDigit, Bool.and_eq_true, decide_eq_true_eq, ge_iff_le, UInt32.le_iff_toNat_le] at digit
  have low : 48 ≤ c.toNat := digit.1
  have high : c.toNat ≤ 57 := digit.2
  simp only [isPlain, Bool.and_eq_true, decide_eq_true_eq, bne_iff_ne]
  exact ⟨⟨⟨by omega, by omega⟩, noQuote⟩, noSlash⟩

end Definiens.Text
