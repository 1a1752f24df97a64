import Definiens.Proofs.Text.Slices
import Definiens.Proofs.Token.Lexing

/-!
# Tokens tile their source

A tile is a token with the gap in front of it.  The tiles of a source lie edge to edge, the first from where
the trimmed source begins.  They reach its end, where the finish lies, or else the last of them and a gap
reach the character at which lexing failed.  What a tile says of its token is what stands in the source:
each text is the slice at its offset, of its length.
-/

namespace Definiens

open Text

/-- The tokens that a source gives, up to the finish or to where lexing fails. -/
def yieldedTokens (source : String) : List Token :=
  (TokenStream.ofSource source).items.filterMap Item.token?

structure Tile where
  gap : List Char
  token : Token

namespace Tile

def text (tile : Tile) : List Char := tile.gap ++ tile.token.text.toList

/-- Tiles that lie in a source edge to edge from one place to another. -/
inductive Laid (source : String) : Nat → List Tile → Nat → Prop where
  | nil (place : Nat) : Laid source place [] place
  | cons {start stop : Nat} {gap : List Char} {token : Token} {tiles : List Tile}
      (blank : ∀ c ∈ gap, isGap c = true)
      (gap_slice : Slice source start gap token.offset)
      (token_slice : Slice source token.offset token.text.toList (token.offset + token.length))
      (others : Laid source (token.offset + token.length) tiles stop) :
      Laid source start (⟨gap, token⟩ :: tiles) stop

/-- Tiles and a gap behind them fill a source from one place up to another. -/
structure Fill (source : String) (start : Nat) (tiles : List Tile) (gap : List Char) (place : Nat) :
    Prop where
  laid : ∃ reached, Laid source start tiles reached ∧ Slice source reached gap place
  blank : ∀ c ∈ gap, isGap c = true

/-- How tiles cover a text that stands in a source from `start` to `stop`, and what reading them comes to. -/
inductive Cover (source : String) (start : Nat) (core : List Char) (stop : Nat) :
    List Tile → Except ReadError (List Token) → Prop where
  | whole {tiles : List Tile} {tokens : List Token}
      (laid : Laid source start tiles stop)
      (text_eq : tiles.flatMap text = core)
      (tokens_eq : tiles.map token = tokens ++ [.finish stop])
      (proper : ∀ token ∈ tokens, token.kind ≠ .finish ∧ 1 ≤ token.length) :
      Cover source start core stop tiles (.ok (tokens ++ [.finish stop]))
  /-- They and a gap cover it up to a character before its end that is no gap, and none has the finish. -/
  | broken {tiles : List Tile} {gap behind : List Char} {c : Char} {place : Nat}
      (fill : Fill source start tiles gap place)
      (covered : Slice source start (tiles.flatMap text ++ gap) place)
      (ahead : Slice source place (c :: behind) stop)
      (before : place < stop)
      (solid : isGap c = false)
      (proper : ∀ tile ∈ tiles, tile.token.kind ≠ .finish ∧ 1 ≤ tile.token.length) :
      Cover source start core stop tiles (.error (.lexing place))

variable {source : String} {start stop place : Nat} {gap core behind : List Char}
  {tiles : List Tile} {result : Except ReadError (List Token)}

theorem Fill.nil (slice : Slice source start gap place) (blank : ∀ c ∈ gap, isGap c = true) :
    Fill source start [] gap place :=
  ⟨⟨start, .nil start, slice⟩, blank⟩

theorem Fill.cons {token : Token} {last : List Char} (blank : ∀ c ∈ gap, isGap c = true)
    (gap_slice : Slice source start gap token.offset)
    (token_slice : Slice source token.offset token.text.toList (token.offset + token.length))
    (others : Fill source (token.offset + token.length) tiles last place) :
    Fill source start (⟨gap, token⟩ :: tiles) last place := by
  obtain ⟨⟨reached, laid, last_slice⟩, last_blank⟩ := others
  exact ⟨⟨reached, .cons blank gap_slice token_slice laid, last_slice⟩, last_blank⟩

theorem Fill.tail {tile : Tile} (fill : Fill source start (tile :: tiles) gap place) :
    Fill source (tile.token.offset + tile.token.length) tiles gap place := by
  obtain ⟨⟨reached, laid, last_slice⟩, blank⟩ := fill
  cases laid with
  | cons _ _ _ others => exact ⟨⟨reached, others, last_slice⟩, blank⟩

theorem Fill.gap_slice (fill : Fill source start [] gap place) : Slice source start gap place := by
  obtain ⟨⟨reached, laid, last_slice⟩, -⟩ := fill
  cases laid
  exact last_slice

theorem Cover.cons (token : Token) (blank : ∀ c ∈ gap, isGap c = true)
    (gap_slice : Slice source start gap token.offset)
    (token_slice : Slice source token.offset token.text.toList (token.offset + token.length))
    (proper : token.kind ≠ .finish ∧ 1 ≤ token.length)
    (others : Cover source (token.offset + token.length) behind stop tiles result) :
    Cover source start (gap ++ (token.text.toList ++ behind)) stop (⟨gap, token⟩ :: tiles)
      (result.map (token :: ·)) := by
  cases others with
  | whole laid text_eq tokens_eq properOthers =>
    refine Cover.whole (.cons blank gap_slice token_slice laid) ?_ ?_
      (List.forall_mem_cons.mpr ⟨proper, properOthers⟩)
    · rw [List.flatMap_cons, text_eq, text, List.append_assoc]
    · rw [List.map_cons, tokens_eq, List.cons_append]
  | broken fill covered ahead before solid properOthers =>
    refine Cover.broken (fill.cons blank gap_slice token_slice) ?_ ahead before solid
      (List.forall_mem_cons.mpr ⟨proper, properOthers⟩)
    have through := (gap_slice.append token_slice).append covered
    rwa [List.flatMap_cons, text, List.append_assoc]

/-- What a text falls into covers it wherever it stands. -/
theorem Cover.of_lexed {items : List Item} (lexed : Item.Lexed start core items)
    (slice : Slice source start core stop) :
    ∃ tiles, items.filterMap Item.token? = tiles.map Tile.token ∧
      Cover source start core stop tiles ((Item.tokens items).mapError .lexing) := by
  -- at each token the slice is cut as the text is, and what is left of both is covered by induction
  induction lexed with
  | @finish start gap blank =>
    cases slice.stop_eq
    have empty : Slice source (start + byteLength gap) [] (start + byteLength gap) := by
      rw [← List.append_nil gap] at slice
      simpa using slice.parts.2
    have laid : Laid source start [⟨gap, .finish (start + byteLength gap)⟩] (start + byteLength gap) :=
      .cons blank slice empty (.nil _)
    have text_eq : [Tile.mk gap (.finish (start + byteLength gap))].flatMap text = gap := by
      simp [text, Token.finish]
    have proper : ∀ token ∈ ([] : List Token), token.kind ≠ .finish ∧ 1 ≤ token.length := nofun
    exact ⟨_, rfl, .whole laid text_eq rfl proper⟩
  | @failure start gap c behind blank solid missing =>
    obtain ⟨gap_slice, ahead⟩ := slice.parts
    have proper : ∀ tile ∈ ([] : List Tile), tile.token.kind ≠ .finish ∧ 1 ≤ tile.token.length := nofun
    exact ⟨[], rfl, .broken (.nil gap_slice blank) gap_slice ahead ahead.start_lt_stop solid proper⟩
  | @token start gap lexeme behind kind items blank solid found others ih =>
    obtain ⟨gap_slice, ahead⟩ := slice.parts
    obtain ⟨token_slice, behind_slice⟩ := ahead.parts
    obtain ⟨tiles, tokens_eq, cover⟩ := ih behind_slice
    obtain ⟨some, notFinish⟩ := Lexeme.first?_proper found
    have size : 1 ≤ byteLength lexeme :=
      Nat.le_trans (List.length_pos_iff.mpr some) (length_le_byteLength lexeme)
    let token : Token := ⟨kind, .ofList lexeme, start + byteLength gap, byteLength lexeme⟩
    have spelled : token.text.toList = lexeme := String.toList_ofList
    refine ⟨⟨gap, token⟩ :: tiles, congrArg (token :: ·) tokens_eq, ?_⟩
    have cover' := cover.cons token blank gap_slice (spelled.symm ▸ token_slice) ⟨notFinish, size⟩
    rw [spelled] at cover'
    rwa [Item.mapError_tokens_cons]

end Tile

/-- The tokens that a source gives tile its trimmed text, to its end or to where lexing fails. -/
theorem tokens_tile_source (source : String) :
    ∃ front core back tiles, Trimmed source.toList front core back ∧
      let start := byteLength front
      let stop := start + byteLength core
      Slice source start core stop ∧
      yieldedTokens source = tiles.map Tile.token ∧
      Tile.Cover source start core stop tiles (tokenize source) := by
  obtain ⟨back, trimmed⟩ := trimmed_trim source.toList
  have slice := Slice.of_split trimmed.split
  obtain ⟨tiles, tokens_eq, cover⟩ := Tile.Cover.of_lexed (lexed_items source) slice
  exact ⟨_, _, back, tiles, trimmed, slice, tokens_eq, cover⟩

end Definiens
