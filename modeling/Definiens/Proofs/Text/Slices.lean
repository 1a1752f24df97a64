import Definiens.Text.Bytes

/-!
# Slices

A slice of a source is given by two places in its bytes.  It is a text if the places are at boundaries of
characters and the bytes between them encode the text.  This comes to the same as cutting the characters of
the source in three, with the text in the middle and so many bytes in front of it.
-/

namespace Definiens.Text

/-- The bytes of the source from `start` up to `stop` are the characters of the text. -/
structure Slice (source : String) (start : Nat) (text : List Char) (stop : Nat) : Prop where
  start_le : start ≤ stop
  start_valid : (⟨start⟩ : String.Pos.Raw).IsValid source
  stop_valid : (⟨stop⟩ : String.Pos.Raw).IsValid source
  bytes_eq : source.toByteArray.extract start stop = text.utf8Encode

/-! ## Lengths -/

theorem size_utf8Encode (text : List Char) : text.utf8Encode.size = byteLength text := by
  rw [← String.toByteArray_ofList, String.size_toByteArray]
  induction text with
  | nil => rfl
  | cons c text ih =>
    rw [String.ofList_cons, String.utf8ByteSize_append, String.utf8ByteSize_singleton, ih,
      byteLength_cons]

theorem utf8Encode_injective {text other : List Char} (same : text.utf8Encode = other.utf8Encode) :
    text = other := by
  rw [← String.toByteArray_ofList, ← String.toByteArray_ofList, String.toByteArray_inj] at same
  exact String.ofList_injective same

theorem eq_nil_of_byteLength_eq_zero {text : List Char} (none : byteLength text = 0) : text = [] :=
  List.eq_nil_of_length_eq_zero (Nat.le_zero.mp (none ▸ length_le_byteLength text))

/-- Of two beginnings of a text the one with no more bytes is the beginning of the other. -/
theorem isPrefix_of_byteLength_le {text before other : List Char} (begins : before <+: text)
    (begins' : other <+: text) (le : byteLength before ≤ byteLength other) : before <+: other := by
  rcases List.prefix_or_prefix_of_prefix begins begins' with inside | ⟨behind, rfl⟩
  · exact inside
  · rw [byteLength_append] at le
    have none : behind = [] := eq_nil_of_byteLength_eq_zero (by omega)
    exact ⟨[], by simp only [none, List.append_nil]⟩

theorem eq_of_byteLength_eq {text before other : List Char} (begins : before <+: text)
    (begins' : other <+: text) (same : byteLength before = byteLength other) : before = other := by
  have forth := isPrefix_of_byteLength_le begins begins' (Nat.le_of_eq same)
  have back := isPrefix_of_byteLength_le begins' begins (Nat.le_of_eq same.symm)
  exact forth.eq_of_length_le back.length_le

/-! ## Slices and characters -/

theorem toByteArray_eq_of_split {source : String} {before text behind : List Char}
    (split : source.toList = before ++ text ++ behind) :
    source.toByteArray = before.utf8Encode ++ text.utf8Encode ++ behind.utf8Encode := by
  rw [← String.utf8Encode_toList, split, List.utf8Encode_append, List.utf8Encode_append]

theorem isValid_of_split {source : String} {before behind : List Char}
    (split : source.toList = before ++ behind) :
    (⟨byteLength before⟩ : String.Pos.Raw).IsValid source := by
  refine String.Pos.Raw.isValid_iff_exists_append.mpr
    ⟨String.ofList before, String.ofList behind, ?_, ?_⟩
  · rw [← String.ofList_append, ← split, String.ofList_toList]
  · rw [String.Pos.Raw.ext_iff, String.byteIdx_rawEndPos, ← String.size_toByteArray,
      String.toByteArray_ofList, size_utf8Encode]

/-- At every boundary the characters of the source can be cut in two. -/
theorem exists_split_of_isValid {source : String} {place : Nat}
    (valid : (⟨place⟩ : String.Pos.Raw).IsValid source) :
    ∃ before behind, source.toList = before ++ behind ∧ byteLength before = place := by
  obtain ⟨before, behind, rfl, same⟩ := String.Pos.Raw.isValid_iff_exists_append.mp valid
  refine ⟨before.toList, behind.toList, String.toList_append, ?_⟩
  rw [String.Pos.Raw.ext_iff, String.byteIdx_rawEndPos] at same
  rw [← size_utf8Encode, String.utf8Encode_toList, String.size_toByteArray]
  exact same.symm

theorem Slice.of_split {source : String} {before text behind : List Char}
    (split : source.toList = before ++ text ++ behind) :
    Slice source (byteLength before) text (byteLength before + byteLength text) where
  start_le := Nat.le_add_right _ _
  start_valid := isValid_of_split (split.trans (List.append_assoc _ _ _))
  stop_valid := byteLength_append before text ▸ isValid_of_split split
  bytes_eq := by
    have behindIt := @ByteArray.extract_append_size_add' before.utf8Encode
      (text.utf8Encode ++ behind.utf8Encode) 0 (byteLength text) (byteLength before)
      (size_utf8Encode before).symm
    rw [Nat.add_zero] at behindIt
    rw [toByteArray_eq_of_split split, ByteArray.append_assoc, behindIt]
    exact ByteArray.extract_append_eq_left (size_utf8Encode text).symm

/-- What stands between two places is what the characters in front of the places leave between them. -/
theorem Slice.split {source : String} {start stop : Nat} {text : List Char}
    (slice : Slice source start text stop) :
    ∃ before behind, source.toList = before ++ text ++ behind ∧ byteLength before = start ∧
      stop = start + byteLength text := by
  obtain ⟨before, others, split, hstart⟩ := exists_split_of_isValid slice.start_valid
  obtain ⟨through, behind, split', hstop⟩ := exists_split_of_isValid slice.stop_valid
  -- the two cuts leave some text between them, and its bytes are those of the slice
  obtain ⟨between, rfl⟩ : before <+: through := by
    apply isPrefix_of_byteLength_le (split ▸ List.prefix_append _ _) (split' ▸ List.prefix_append _ _)
    rw [hstart, hstop]
    exact slice.start_le
  rw [byteLength_append, hstart] at hstop
  have bytes := (Slice.of_split split').bytes_eq
  rw [hstart, hstop, slice.bytes_eq] at bytes
  cases utf8Encode_injective bytes
  exact ⟨before, behind, split', hstart, hstop.symm⟩

theorem Slice.stop_eq {source : String} {start stop : Nat} {text : List Char}
    (slice : Slice source start text stop) : stop = start + byteLength text := by
  obtain ⟨-, -, -, -, stop_eq⟩ := slice.split
  exact stop_eq

theorem Slice.start_lt_stop {source : String} {start stop : Nat} {c : Char} {behind : List Char}
    (slice : Slice source start (c :: behind) stop) : start < stop := by
  have stop_eq := slice.stop_eq
  have size := c.utf8Size_pos
  rw [byteLength_cons] at stop_eq
  omega

/-! ## Slices one behind the other -/

variable {source : String} {start place stop : Nat} {text other : List Char}

/-- The text between two places is a matter of the source. -/
theorem Slice.text_eq (slice : Slice source start text stop)
    (slice' : Slice source start other stop) : text = other :=
  utf8Encode_injective (slice.bytes_eq.symm.trans slice'.bytes_eq)

theorem Slice.parts (slice : Slice source start (text ++ other) stop) :
    Slice source start text (start + byteLength text) ∧
      Slice source (start + byteLength text) other stop := by
  obtain ⟨before, behind, split, rfl, rfl⟩ := slice.split
  refine ⟨?_, ?_⟩
  · have split' : source.toList = before ++ text ++ (other ++ behind) := by
      simp only [split, List.append_assoc]
    exact Slice.of_split split'
  · have split' : source.toList = before ++ text ++ other ++ behind := by
      simp only [split, List.append_assoc]
    have second := Slice.of_split split'
    rwa [byteLength_append, Nat.add_assoc, ← byteLength_append text] at second

theorem Slice.append (slice : Slice source start text place)
    (slice' : Slice source place other stop) : Slice source start (text ++ other) stop := by
  obtain ⟨before, behind, split, rfl, rfl⟩ := slice.split
  obtain ⟨before', behind', split', same, rfl⟩ := slice'.split
  -- both cuts are made behind the first text, after equally many bytes
  rw [List.append_assoc] at split'
  have begins : before ++ text <+: source.toList := split ▸ List.prefix_append _ _
  have begins' : before' <+: source.toList := split' ▸ List.prefix_append _ _
  rw [← byteLength_append] at same
  cases eq_of_byteLength_eq begins' begins same
  have joined : source.toList = before ++ (text ++ other) ++ behind' := by
    simp only [split', List.append_assoc]
  rw [Nat.add_assoc, ← byteLength_append]
  exact Slice.of_split joined

end Definiens.Text
