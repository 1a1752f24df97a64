import Definiens.Proofs.Text.Unquoting
import Definiens.Token

/-!
# Reading a displayed token back

A token is displayed by four parts in a row, and each of them shows where it ends: behind the name of the kind
a colon stands, which is no letter, the text is quoted, whatever it holds, and behind the two numbers stands no
digit.  So all of a token can be told from its display, which stays on one line.
-/

namespace Definiens

open Text

/-- The characters that end a line: line feed, vertical tab, form feed, carriage return, next line, and the
separators of lines and of paragraphs. -/
def Text.lineBreaks : List Char := ['\n', '\x0b', '\x0c', '\x0d', '\x85', '\u2028', '\u2029']

theorem Text.notMem_lineBreaks {c : Char} (printed : isUnprintable c = false) : c ∉ lineBreaks := by
  intro member
  have table : lineBreaks.all isUnprintable = true := by decide +kernel
  have unprinted := List.all_eq_true.mp table c member
  rw [printed] at unprinted
  cases unprinted

namespace Kind

theorem letter_of_mem_name {kind : Kind} {c : Char} (member : c ∈ kind.name.toList) :
    c.isAlpha = true ∧ isPlain c = true := by
  have letters : kind.name.toList.all (fun c => c.isAlpha && isPlain c) = true := by cases kind <;> rfl
  simpa using List.all_eq_true.mp letters c member

theorem name_injective {kind other : Kind} (same : kind.name = other.name) : kind = other := by
  have found (kind : Kind) : ofName? kind.name = some kind := by cases kind <;> rfl
  have looked := found kind
  rw [same, found other] at looked
  exact (Option.some.inj looked).symm

theorem legible_name :
    Legible (fun kind : Kind => kind.name.toList) fun behind => ∀ c ∈ behind.head?, c.isAlpha = false :=
  .of_run (fun same => name_injective (String.toList_inj.mp same)) fun _ _ member => (letter_of_mem_name member).1

end Kind

namespace Token

theorem toList_display (token : Token) (behind : List Char) :
    token.display.toList ++ behind =
      token.kind.name.toList ++ (':' :: ' ' :: ((quoted token.text).toList ++ (' ' :: '@' ::
        ((toString token.offset).toList ++ (' ' :: ("len=".toList ++
          ((toString token.length).toList ++ behind))))))) := by
  have colon : ": ".toList = [':', ' '] := by decide
  have sign : " @".toList = [' ', '@'] := by decide
  have extent : " len=".toList = ' ' :: "len=".toList := by decide
  simp only [display, String.toList_append, List.append_assoc, colon, sign, extent, List.cons_append,
    List.nil_append]

/-- A displayed token ends where no digit follows, and all of it can be told from its display. -/
theorem legible_display :
    Legible (fun token : Token => token.display.toList) fun behind =>
      ∀ c ∈ behind.head?, c.isDigit = false := by
  rintro ⟨kind, text, offset, length⟩ ⟨kind', text', offset', length'⟩ behind behind' stops stops' same
  rw [toList_display, toList_display] at same
  obtain ⟨rfl, quoting⟩ := Kind.legible_name (stops_cons rfl) (stops_cons rfl) same
  obtain ⟨rfl, place⟩ := legible_quoted trivial trivial (List.cons.inj (List.cons.inj quoting).2).2
  obtain ⟨rfl, extent⟩ := legible_numeral (stops_cons rfl) (stops_cons rfl)
    (List.cons.inj (List.cons.inj place).2).2
  obtain ⟨rfl, rest⟩ := legible_numeral stops stops' (List.append_cancel_left (List.cons.inj extent).2)
  exact ⟨rfl, rest⟩

theorem display_injective {token other : Token} (same : token.display = other.display) : token = other := by
  have shown : token.display.toList ++ [] = other.display.toList ++ [] := by rw [same]
  exact (legible_display (by simp) (by simp) shown).1

/-- Only printed characters stand in a display. -/
theorem isUnprintable_of_mem_display {token : Token} {c : Char} (member : c ∈ token.display.toList) :
    isUnprintable c = false := by
  have plain {text : List Char} (all : text.all isPlain = true) (inside : c ∈ text) : isUnprintable c = false :=
    isUnprintable_of_isPlain (List.all_eq_true.mp all c inside)
  have numeral {n : Nat} (inside : c ∈ (toString n).toList) : isUnprintable c = false :=
    isUnprintable_of_isPlain (isPlain_of_isDigit (isDigit_of_mem_numeral inside))
  simp only [display, String.toList_append, List.mem_append] at member
  rcases member with (((((inside | inside) | inside) | inside) | inside) | inside) | inside
  · exact isUnprintable_of_isPlain (Kind.letter_of_mem_name inside).2
  · exact plain (by rfl) inside
  · exact isUnprintable_of_mem_quoted inside
  · exact plain (by rfl) inside
  · exact numeral inside
  · exact plain (by rfl) inside
  · exact numeral inside

/-- An escape that is spelled out in a text is not taken for the escape of a character. -/
example :
    (⟨.symbol, "\\u\x7ba0\x7d", 0, 6⟩ : Token).display = "Symbol: \"\\\\u\x7ba0\x7d\" @0 len=6" ∧
      (⟨.symbol, "\u00a0", 0, 6⟩ : Token).display = "Symbol: \"\\u\x7ba0\x7d\" @0 len=6" := by
  decide +kernel

end Token

end Definiens
