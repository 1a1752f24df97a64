import Definiens.Proofs.Grammar.Whole

/-!
# How a source is refused

A source that cannot be read whole is drained before it is refused.  From wherever the session has
stopped, draining comes upon the failure of the lexer if there is one, and otherwise upon nothing that
matters; so what is reported is what lexing the whole source at once reports.
-/

namespace Definiens

namespace Parser

/-! ## Draining -/

theorem drainUpTo_succ (count : Nat) (s : Session) :
    drainUpTo (count + 1) s =
      match nextToken s with
      | (.matched token, s) => if token.is .finish then (.matched (), s) else drainUpTo count s
      | (.noMatch, s) => (.matched (), s)
      | (.failed offset, s) => (.failed offset, s) := by
  rw [drainUpTo]
  simp only [Bind.bind, andThen, optional]
  rcases nextToken s with ⟨token | _ | offset, s'⟩
  · dsimp only
    split <;> rfl
  · rfl
  · rfl

theorem failure_of_drainUpTo {items : List Item} {count offset : Nat} {s : Session}
    (along : s.cursor.Over items) (ended : (drainUpTo count s).1 = .failed offset) :
    Item.failure offset ∈ items := by
  induction count generalizing s with
  | zero => cases ended
  | succ count ih =>
    obtain ⟨s', read, along', -⟩ := nextToken_over along
    rw [drainUpTo_succ, read] at ended
    rcases here : items[s.position]? with _ | token | offset' <;> rw [here] at ended
    · cases ended
    · dsimp only at ended
      split at ended
      · cases ended
      · exact ih along' ended
    · cases ended
      exact List.mem_of_getElem? here

/-- Where the lexer fails, draining does, from any place before that. -/
theorem drainUpTo_of_failure {tokens : List Token} {count offset : Nat} {s : Session}
    (along : s.cursor.Over (tokens.map Item.token ++ [.failure offset]))
    (ordinary : ∀ token ∈ tokens, token.kind ≠ .finish) (before : s.position ≤ tokens.length)
    (enough : tokens.length - s.position < count) :
    (drainUpTo count s).1 = .failed offset := by
  induction count generalizing s with
  | zero => omega
  | succ count ih =>
    obtain ⟨s', read, along', -, -, position⟩ := nextToken_over along
    rw [drainUpTo_succ, read]
    by_cases last : s.position = tokens.length
    · have here : (tokens.map Item.token ++ [.failure offset])[s.position]? =
          some (.failure offset) := by
        simp [last]
      rw [here]
    · have inside : s.position < tokens.length := by omega
      have here : (tokens.map Item.token ++ [.failure offset])[s.position]? =
          some (.token tokens[s.position]) := by
        simp [List.getElem?_append_left, inside]
      have other := ordinary _ (List.getElem_mem inside)
      rw [if_pos (by simp; omega)] at position
      rw [here]
      dsimp only
      rw [if_neg (mt Token.is_eq_true.mp other)]
      exact ih along' (by omega) (by omega)

/-- A session that has not been read whole stands at its beginning or behind the definition. -/
theorem position_whole {items : List Item} {s : Session} (along : s.cursor.Over items)
    (ended : (whole s).1 = .noMatch) :
    (whole s).2.position = s.position ∨
      ∃ d, (Rule.definition.read items s.position).outcome = .matched (d, (whole s).2.position) := by
  have told := call_refines .definition items s along
  have back := call_restores .definition items s along
  simp only [whole, Bind.bind, andThen] at ended ⊢
  generalize call .definition s = step at *
  generalize Rule.definition.read items s.position = reading at *
  rcases step with ⟨first, s'⟩
  rcases reading with ⟨⟨d, stop⟩ | _ | offset, reach⟩
  · obtain ⟨along', -, -, rfl, rfl⟩ := told
    have back' := call_restores .atEnd items s' along'
    dsimp only at ended ⊢
    generalize call .atEnd s' = step at *
    rcases step with ⟨token | _ | offset, s''⟩
    · cases ended
    · exact Or.inr ⟨d, by rw [back' rfl]⟩
    · cases ended
  · obtain ⟨-, -, -, rfl⟩ := told
    exact Or.inl (back rfl)
  · obtain ⟨-, -, -, rfl⟩ := told
    cases ended

end Parser

/-! ## What is reported -/

theorem reach_whole_pos (items : List Item) (start : Nat) : start < (Reader.whole items start).reach := by
  have first : (Reader.expect .define items start).reach ≤ (Rule.definition.read items start).reach := by
    rw [Rule.read_definition]
    exact Reader.reach_le_bind
  have token : (Reader.nextToken items start).reach ≤ (Reader.expect .define items start).reach :=
    Reader.reach_le_bind
  have whole : (Rule.definition.read items start).reach ≤ (Reader.whole items start).reach :=
    Reader.reach_le_bind
  rw [Reader.reach_nextToken] at token
  omega

/-- The furthest value of the session that has read a source is the last item within the reach. -/
theorem furthestValue?_whole {source : String} {tokens : List Token} {last : Item}
    (hitems : (TokenStream.ofSource source).items = tokens.map Item.token ++ [last]) :
    ∃ place, place + 1 = min (wholeReading source).reach (tokens.length + 1) ∧
      (Parser.whole (Session.silent source)).2.cursor.furthestValue? =
        (tokens.map Item.token ++ [last])[place]? := by
  obtain ⟨along, -, size, -⟩ := whole_tells source
  have seen : 0 < (wholeReading source).reach := reach_whole_pos _ 0
  have begun : (Session.silent source).cursor.log.size = 0 := rfl
  rw [hitems] at along size
  rw [begun, List.length_append, List.length_map, List.length_singleton] at size
  refine ⟨min (wholeReading source).reach (tokens.length + 1) - 1, by omega, ?_⟩
  exact along.furthestValue?_eq (by omega)

/-- A source that is lexed to its end and is no definition is refused at one of its tokens, the last one
that has been looked at. -/
theorem parse_of_noMatch_of_tokens {source : String} {tokens : List Token} {finish : Token}
    (hitems : (TokenStream.ofSource source).items = (tokens ++ [finish]).map Item.token)
    (noMatch : (wholeReading source).outcome = .noMatch) :
    ∃ place token, place + 1 = min (wholeReading source).reach (tokens.length + 1) ∧
      (tokens ++ [finish])[place]? = some token ∧
      (Parser.whole (Session.silent source)).2.cursor.furthestValue? = some (.token token) ∧
      parse source = .error (.unmatched token.offset) := by
  rw [List.map_append, List.map_singleton] at hitems
  obtain ⟨place, hplace, furthest⟩ := furthestValue?_whole hitems
  have inside : place < (tokens ++ [finish]).length := by
    simp only [List.length_append, List.length_singleton]
    omega
  have here : (tokens ++ [finish])[place]? = some (tokens ++ [finish])[place] :=
    List.getElem?_eq_getElem inside
  have value : (tokens.map Item.token ++ [.token finish])[place]? =
      some (.token (tokens ++ [finish])[place]) := by
    rw [← List.map_singleton, ← List.map_append, List.getElem?_map, here]
    rfl
  rw [value] at furthest
  refine ⟨place, _, hplace, here, furthest, ?_⟩
  rw [parse_eq, noMatch]
  dsimp only
  split
  next offset drained =>
    have along := (whole_tells source).along
    have member := Parser.failure_of_drainUpTo along drained
    simp [hitems] at member
  next =>
    rw [Session.furthestOffset, furthest]
    rfl

/-- Where a source cannot be lexed to its end, the session that has read it and found no match has
stopped at or before the failure. -/
theorem position_whole_le {source : String} {tokens : List Token} {offset : Nat}
    (hitems : (TokenStream.ofSource source).items = tokens.map Item.token ++ [.failure offset])
    (noMatch : (wholeReading source).outcome = .noMatch) :
    (Parser.whole (Session.silent source)).2.position ≤ tokens.length := by
  obtain ⟨-, -, -, ended⟩ := whole_tells source
  rw [noMatch] at ended
  have along := Cursor.over_ofSupply (TokenStream.ofSource source)
  rcases Parser.position_whole (s := Session.silent source) along ended with still | ⟨d, read⟩
  · rw [still]
    exact Nat.zero_le _
  · obtain ⟨-, passed⟩ := (Rule.steady_read .definition).matched read
    apply Nat.le_of_not_lt
    intro beyond
    obtain ⟨token, here⟩ := passed tokens.length (Nat.zero_le _) beyond
    rw [hitems] at here
    simp at here

theorem parse_of_failure {source : String} {tokens : List Token} {offset : Nat}
    (hitems : (TokenStream.ofSource source).items = tokens.map Item.token ++ [.failure offset])
    (ordinary : ∀ token ∈ tokens, token.kind ≠ .finish) :
    parse source = .error (.lexing offset) := by
  rw [parse_eq]
  cases ended : (wholeReading source).outcome with
  | matched result =>
    rw [wholeReading, hitems] at ended
    exact absurd ended (not_matched_whole ordinary)
  | failed offset' =>
    obtain ⟨place, here⟩ := Reader.steady_whole.failed ended
    rw [hitems] at here
    have member := List.mem_of_getElem? here
    have same : offset' = offset := by simpa using member
    rw [same]
  | noMatch =>
    have along := (whole_tells source).along
    have before := position_whole_le hitems ended
    have ahead := Parser.le_remaining along
    rw [hitems] at along ahead
    simp only [List.length_append, List.length_map, List.length_singleton] at ahead
    have drained : (Parser.drain (Parser.whole (Session.silent source)).2).1 = .failed offset := by
      apply Parser.drainUpTo_of_failure along ordinary before
      omega
    rw [drained]

/-! ## Lexing first -/

/-- A source is refused for the lexer exactly where lexing the whole of it fails; one that is lexed to
its end is a definition or is refused at one of its tokens. -/
theorem parse_error_iff_tokenize_error (source : String) :
    (∀ offset, parse source = .error (.lexing offset) ↔
      tokenize source = .error (.lexing offset)) ∧
    match tokenize source with
    | .ok tokens => (∃ d, parse source = .ok d) ∨
        ∃ token ∈ tokens, parse source = .error (.unmatched token.offset)
    | .error error => parse source = .error error := by
  rcases tokenize_cases source with
    ⟨before, place, lexed, hitems, ordinary⟩ | ⟨before, place, lexed, hitems, ordinary⟩
  · have settled : (∃ d, parse source = .ok d) ∨
        ∃ token ∈ before ++ [Token.finish place],
          parse source = .error (.unmatched token.offset) := by
      cases ended : (wholeReading source).outcome with
      | matched result => exact Or.inl ⟨result.1, parse_eq_ok.mpr ⟨result.2, ended⟩⟩
      | failed offset =>
        obtain ⟨other, here⟩ := Reader.steady_whole.failed ended
        have member := List.mem_of_getElem? here
        simp [hitems] at member
      | noMatch =>
        obtain ⟨_, token, -, here, -, parsed⟩ := parse_of_noMatch_of_tokens hitems ended
        exact Or.inr ⟨token, List.mem_of_getElem? here, parsed⟩
    rw [lexed]
    refine ⟨fun offset => ?_, settled⟩
    rcases settled with ⟨d, parsed⟩ | ⟨token, -, parsed⟩ <;> simp [parsed]
  · have refused := parse_of_failure hitems ordinary
    rw [lexed, refused]
    exact ⟨fun offset => by simp, rfl⟩

end Definiens
