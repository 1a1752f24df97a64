import Definiens.Grammar.Reading
import Definiens.Proofs.Grammar.Completeness
import Definiens.Proofs.Grammar.Refinement
import Definiens.Proofs.Grammar.Soundness

/-!
# Whole sources

Parsing a source is reading its items from the first one: a definition and the finish behind it.  So a
source is parsed as a tree exactly if its tokens write that tree.
-/

namespace Definiens

open Rule

def Reader.whole : Reader Definition := do
  let d ← Rule.definition.read
  let _ ← Rule.atEnd.read
  pure d

theorem Parser.whole_refines : Refines Parser.whole Reader.whole :=
  .bind (call_refines .definition) fun d => .bind (call_refines .atEnd) fun _ => .pure d

theorem Reader.matched_whole {items : List Item} {start stop : Nat} {d : Definition} :
    (whole items start).outcome = .matched (d, stop) ↔
      ∃ middle token, (Rule.definition.read items start).outcome = .matched (d, middle) ∧
        items[middle]? = some (.token token) ∧ token.kind = .finish ∧ stop = middle + 1 := by
  simp only [whole, read_atEnd, matched_bind, matched_expect]
  constructor
  · rintro ⟨d, middle, hd, token, _, ⟨here, finish, rfl⟩, made⟩
    cases made
    exact ⟨middle, token, hd, here, finish, rfl⟩
  · rintro ⟨middle, token, hd, here, finish, rfl⟩
    exact ⟨d, middle, hd, token, _, ⟨here, finish, rfl⟩, rfl⟩

theorem Reader.steady_whole : Steady whole :=
  .bind (Rule.steady_read .definition) fun d =>
    .bind (Rule.steady_read .atEnd) fun _ => .pure d

def wholeReading (source : String) : Reading Definition :=
  Reader.whole (TokenStream.ofSource source).items 0

/-- The session in which a source has been read ends as the reading of its items tells. -/
theorem whole_tells (source : String) :
    (wholeReading source).Tells (TokenStream.ofSource source).items (Session.silent source)
      (Parser.whole (Session.silent source)) :=
  Parser.whole_refines _ _ (Cursor.over_ofSupply _)

theorem parse_eq (source : String) :
    parse source =
      match (wholeReading source).outcome with
      | .matched (d, _) => .ok d
      | .failed offset => .error (.lexing offset)
      | .noMatch => .error
        (match (Parser.drain (Parser.whole (Session.silent source)).2).1 with
        | .failed offset => .lexing offset
        | _ => .unmatched (Parser.whole (Session.silent source)).2.furthestOffset) := by
  have told := whole_tells source
  rw [parse, Session.read]
  generalize Parser.whole (Session.silent source) = ended at *
  generalize wholeReading source = reading at *
  rcases ended with ⟨ended, s⟩
  rcases reading with ⟨⟨value, stop⟩ | _ | offset, reach⟩
  · obtain ⟨-, -, -, rfl, -⟩ := told
    rfl
  · obtain ⟨-, -, -, rfl⟩ := told
    dsimp only [Session.refuse]
    rcases Parser.drain s with ⟨_ | _ | offset, s'⟩ <;> rfl
  · obtain ⟨-, -, -, rfl⟩ := told
    rfl

theorem parse_eq_ok {source : String} {d : Definition} :
    parse source = .ok d ↔ ∃ stop, (wholeReading source).outcome = .matched (d, stop) := by
  rw [parse_eq]
  generalize (wholeReading source).outcome = outcome
  rcases outcome with ⟨value, stop⟩ | _ | offset <;> simp

theorem noMatch_of_parse_unmatched {source : String} {offset : Nat}
    (refused : parse source = .error (.unmatched offset)) :
    (wholeReading source).outcome = .noMatch := by
  rw [parse_eq] at refused
  cases ended : (wholeReading source).outcome with
  | matched result => simp [ended] at refused
  | noMatch => rfl
  | failed place => simp [ended] at refused

/-! ## Trees in writing -/

theorem place_of_finish {tokens : List Token} {finish token : Token} {place : Nat}
    (ordinary : ∀ token ∈ tokens, token.kind ≠ .finish)
    (here : ((tokens ++ [finish]).map Item.token)[place]? = some (.token token))
    (ends : token.kind = .finish) : place = tokens.length := by
  rw [List.getElem?_map, Option.map_eq_some_iff] at here
  obtain ⟨token', here, same⟩ := here
  cases same
  by_cases before : place < tokens.length
  · rw [List.getElem?_append_left before] at here
    exact absurd ends (ordinary token (List.mem_of_getElem? here))
  · obtain ⟨inside, -⟩ := List.getElem?_eq_some_iff.mp here
    rw [List.length_append, List.length_singleton] at inside
    omega

/-- A list of tokens that ends with the only finish is read whole exactly as what its other tokens
write. -/
theorem matched_whole_iff_written {tokens : List Token} {finish : Token} {d : Definition}
    (last : finish.kind = .finish) (ordinary : ∀ token ∈ tokens, token.kind ≠ .finish) :
    (∃ stop, (Reader.whole ((tokens ++ [finish]).map Item.token) 0).outcome = .matched (d, stop)) ↔
      d.Written tokens := by
  obtain ⟨middle, hbefore, here, -⟩ := (Between.map_self (tokens ++ [finish])).split
  constructor
  · rintro ⟨stop, read⟩
    obtain ⟨middle', token, hd, there, ends, rfl⟩ := Reader.matched_whole.mp read
    obtain ⟨tokens', stands', written⟩ := spans_of_matched_definition hd
    have same : middle = middle' := by
      rw [hbefore.stop_eq, Nat.zero_add, place_of_finish ordinary there ends]
    rw [← same] at stands'
    rw [hbefore.unique stands']
    exact written
  · intro written
    exact ⟨_, Reader.matched_whole.mpr ⟨_, finish, written.read hbefore, here, last, rfl⟩⟩

theorem not_matched_whole {tokens : List Token} {offset : Nat} {d : Definition} {stop : Nat}
    (ordinary : ∀ token ∈ tokens, token.kind ≠ .finish) :
    (Reader.whole (tokens.map Item.token ++ [.failure offset]) 0).outcome ≠ .matched (d, stop) := by
  intro read
  obtain ⟨middle, token, -, here, ends, -⟩ := Reader.matched_whole.mp read
  have member : token ∈ tokens := by simpa using List.mem_of_getElem? here
  exact ordinary token member ends

/-- A source that is lexed to its end is parsed as what its tokens write. -/
theorem parse_eq_ok_iff_of_tokens {source : String} {tokens : List Token} {finish : Token}
    {d : Definition}
    (hitems : (TokenStream.ofSource source).items = (tokens ++ [finish]).map Item.token)
    (last : finish.kind = .finish) (ordinary : ∀ token ∈ tokens, token.kind ≠ .finish) :
    parse source = .ok d ↔ d.Written tokens := by
  rw [parse_eq_ok, wholeReading, hitems]
  exact matched_whole_iff_written last ordinary

/-- A source is parsed as a definition exactly if it is lexed to tokens that write that definition, with
the finish behind them. -/
theorem parse_eq_ok_iff_written (source : String) (d : Definition) :
    parse source = .ok d ↔
      ∃ tokens offset, tokenize source = .ok (tokens ++ [.finish offset]) ∧ d.Written tokens := by
  rcases tokenize_cases source with
    ⟨before, place, lexed, hitems, ordinary⟩ | ⟨before, place, lexed, hitems, ordinary⟩
  · rw [parse_eq_ok_iff_of_tokens hitems rfl ordinary, lexed]
    constructor
    · intro written
      exact ⟨before, place, rfl, written⟩
    · rintro ⟨tokens, offset, same, written⟩
      have same := List.append_inj_left' (Except.ok.inj same) rfl
      rw [same]
      exact written
  · rw [parse_eq_ok, wholeReading, hitems, lexed]
    constructor
    · rintro ⟨stop, read⟩
      exact absurd read (not_matched_whole ordinary)
    · rintro ⟨tokens, offset, same, -⟩
      cases same

end Definiens
