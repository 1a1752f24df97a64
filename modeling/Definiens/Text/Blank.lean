import Definiens.Text.Bytes
import Definiens.Text.Ranges

/-!
# Blank characters

Two notions of white space occur.  A source is trimmed at both ends of the *blank* characters, those
of the Unicode property White_Space.  Between two tokens only the six *gap* characters of ASCII may
stand, so a no-break space is trimmed at the ends of a source and is out of place inside it.
-/

namespace Definiens.Text

/-- The code points of the Unicode property White_Space. -/
def blankRanges : List (Nat × Nat) :=
  [(0x9, 0xd), (0x20, 0x20), (0x85, 0x85), (0xa0, 0xa0), (0x1680, 0x1680), (0x2000, 0x200a),
   (0x2028, 0x2029), (0x202f, 0x202f), (0x205f, 0x205f), (0x3000, 0x3000)]

def isBlank (c : Char) : Bool := covers blankRanges c.toNat

/-- Tab, line feed, vertical tab, form feed, carriage return or space. -/
def isGap (c : Char) : Bool := c == ' ' || (9 ≤ c.toNat && c.toNat ≤ 13)

theorem isBlank_of_isGap {c : Char} (h : isGap c = true) : isBlank c = true := by
  simp only [isGap, Bool.or_eq_true, beq_iff_eq, Bool.and_eq_true, decide_eq_true_eq] at h
  rcases h with rfl | ⟨low, high⟩
  · decide
  · have : ¬ c.toNat < 9 := by omega
    simp [isBlank, blankRanges, covers, this, high]

/-! ## Trimming -/

def trimStart (text : List Char) : List Char := text.dropWhile isBlank

def trimEnd (text : List Char) : List Char := (text.reverse.dropWhile isBlank).reverse

def trim (text : List Char) : List Char := trimEnd (trimStart text)

/-- Where the trimmed text begins, in bytes; a text that is all blank is trimmed to its end. -/
def trimmedOffset (text : List Char) : Nat := byteLength (text.takeWhile isBlank)

end Definiens.Text
