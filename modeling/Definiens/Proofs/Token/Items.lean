import Definiens.Proofs.Token.Progress

/-!
# The items of a source

What a source gives is one fixed list of items: its tokens and then the finish, or the tokens before
the first failure and then that failure.  Drawing from a stream takes the list apart from the front.
-/

namespace Definiens

/-- A list of items as a source gives it: tokens that are not the finish, and one last item. -/
inductive Item.Complete : List Item → Prop where
  | finish (offset : Nat) : Complete [.token (.finish offset)]
  | failure (offset : Nat) : Complete [.failure offset]
  | token {token : Token} {items : List Item} (notFinish : token.kind ≠ .finish)
      (others : Complete items) : Complete (.token token :: items)

inductive Item.Last : Item → Prop where
  | finish (offset : Nat) : Last (.token (.finish offset))
  | failure (offset : Nat) : Last (.failure offset)

namespace TokenStream

/-! ## One draw -/

theorem rest_skipGap_le (s : Scanner) : s.skipGap.rest.length ≤ s.unsettled.length := by
  simp only [Scanner.skipGap, Scanner.commit, Scanner.advance, Scanner.unsettled,
    List.length_drop, List.length_append]
  omega

/-- A lexed item is a token that leaves less to lex, or the last item of the stream. -/
theorem lex_cases {stream : TokenStream} (running : stream.halt = none) :
    (∃ token rest, stream.lex = (.token token, rest) ∧ token.kind ≠ .finish ∧
      rest.halt = none ∧ rest.pending < stream.pending) ∨
    (∃ item rest halt, stream.lex = (item, rest) ∧ item.Last ∧ rest.halt = some halt) := by
  have gap := rest_skipGap_le stream.scanner
  rw [lex]
  split
  next ended => exact Or.inr ⟨_, _, _, rfl, .finish _, rfl⟩
  next c rest ahead =>
    have settled : stream.scanner.skipGap.held = [] := rfl
    rcases Lexeme.read_cases Lexeme.all settled with
      ⟨token, after, hread, notFinish, settled', shorter⟩ | hread
    · rw [hread]
      refine Or.inl ⟨_, _, rfl, notFinish, running, ?_⟩
      simp only [pending, running, Scanner.unsettled, settled', List.nil_append] at gap ⊢
      omega
    · rw [hread]
      exact Or.inr ⟨_, _, _, rfl, .failure _, rfl⟩

theorem draw_of_stopped {stream : TokenStream} {halt : Halt} (stopped : stream.halt = some halt) :
    Supply.draw stream = ⟨none, [], stream⟩ := by
  simp [Supply.draw, stopped]

theorem draw_of_running {stream : TokenStream} (running : stream.halt = none) :
    Supply.draw stream = ⟨some stream.lex.1, [stream.lex.1], stream.lex.2⟩ := by
  simp [Supply.draw, running, next]

theorem pending_lex_lt {stream : TokenStream} (running : stream.halt = none) :
    stream.lex.2.pending < stream.pending := by
  rcases lex_cases running with ⟨token, rest, hlex, -, -, shorter⟩ | ⟨item, rest, halt, hlex, -, stopped⟩
  · rw [hlex]
    exact shorter
  · rw [hlex]
    simp [pending, running, stopped]

/-! ## All draws -/

theorem drawUpTo_of_stopped {stream : TokenStream} {halt : Halt} (stopped : stream.halt = some halt)
    (count : Nat) : drawUpTo count stream = ([], stream) := by
  cases count with
  | zero => rfl
  | succ count => simp [drawUpTo, draw_of_stopped stopped]

theorem drawUpTo_succ_of_running {stream : TokenStream} (running : stream.halt = none) (count : Nat) :
    drawUpTo (count + 1) stream =
      (stream.lex.1 :: (drawUpTo count stream.lex.2).1, (drawUpTo count stream.lex.2).2) := by
  simp [drawUpTo, draw_of_running running]

/-- Once a stream may be drawn from as often as it can be, more often makes no difference. -/
theorem drawUpTo_congr {count other : Nat} {stream : TokenStream} (enough : stream.pending ≤ count)
    (enough' : stream.pending ≤ other) : drawUpTo count stream = drawUpTo other stream := by
  induction count generalizing other stream with
  | zero =>
    cases running : stream.halt with
    | none => simp [pending, running] at enough
    | some halt => simp only [drawUpTo_of_stopped running]
  | succ count ih =>
    cases running : stream.halt with
    | none =>
      have shorter := pending_lex_lt running
      cases other with
      | zero => omega
      | succ other =>
        have rest : drawUpTo count stream.lex.2 = drawUpTo other stream.lex.2 :=
          ih (by omega) (by omega)
        simp only [drawUpTo_succ_of_running running, rest]
    | some halt => simp only [drawUpTo_of_stopped running]

theorem items_of_stopped {stream : TokenStream} {halt : Halt} (stopped : stream.halt = some halt) :
    stream.items = [] := by
  simp [items, exhaust, drawUpTo_of_stopped stopped]

/-- What is to come of any other stream is what it lexes and then what is to come after that. -/
theorem items_of_running {stream : TokenStream} (running : stream.halt = none) :
    stream.items = stream.lex.1 :: stream.lex.2.items := by
  have shorter := pending_lex_lt running
  have enough : drawUpTo stream.pending stream = drawUpTo (stream.pending - 1 + 1) stream := by
    rw [Nat.sub_add_cancel (by omega)]
  have rest : drawUpTo (stream.pending - 1) stream.lex.2 = stream.lex.2.exhaust :=
    drawUpTo_congr (by omega) (Nat.le_refl _)
  simp only [items, exhaust] at rest ⊢
  rw [enough, drawUpTo_succ_of_running running, rest]

theorem length_items_le (stream : TokenStream) : stream.items.length ≤ stream.pending := by
  generalize hbound : stream.pending = bound
  induction bound using Nat.strongRecOn generalizing stream with
  | ind bound ih =>
    cases running : stream.halt with
    | none =>
      have shorter := pending_lex_lt running
      have rest := ih stream.lex.2.pending (by omega) stream.lex.2 rfl
      rw [items_of_running running, List.length_cons]
      omega
    | some halt => simp [items_of_stopped running]

/-- What a stream still has to give is complete, unless it has stopped. -/
theorem items_complete {stream : TokenStream} (running : stream.halt = none) :
    Item.Complete stream.items := by
  generalize hbound : stream.pending = bound
  induction bound using Nat.strongRecOn generalizing stream with
  | ind bound ih =>
    rw [items_of_running running]
    rcases lex_cases running with
      ⟨token, rest, hlex, notFinish, running', shorter⟩ | ⟨item, rest, halt, hlex, last, stopped⟩
    · rw [hlex]
      exact .token notFinish (ih rest.pending (by omega) running' rfl)
    · rw [hlex, items_of_stopped stopped]
      cases last with
      | finish offset => exact .finish offset
      | failure offset => exact .failure offset

end TokenStream

/-! ## The tokens of a source -/

namespace Item

theorem Complete.split {items : List Item} (complete : Complete items) :
    ∃ (before : List Token) (last : Item), items = before.map Item.token ++ [last] ∧ Last last ∧
      ∀ token ∈ before, token.kind ≠ .finish := by
  induction complete with
  | finish offset => exact ⟨[], _, rfl, .finish offset, nofun⟩
  | failure offset => exact ⟨[], _, rfl, .failure offset, nofun⟩
  | @token token items notFinish others ih =>
    obtain ⟨before, last, rfl, hlast, ordinary⟩ := ih
    refine ⟨token :: before, last, rfl, hlast, ?_⟩
    intro other member
    rcases List.mem_cons.mp member with rfl | member
    · exact notFinish
    · exact ordinary other member

theorem tokens_map_append (before : List Token) (items : List Item) :
    tokens (before.map Item.token ++ items) = (tokens items).map (before ++ ·) := by
  induction before with
  | nil => cases h : tokens items <;> simp [h, Except.map]
  | cons token before ih =>
    simp only [List.map_cons, List.cons_append, tokens, ih]
    cases tokens items <;> simp [Except.map]

theorem mapError_tokens_cons {ε : Type} (token : Token) (items : List Item) (f : Nat → ε) :
    (tokens (.token token :: items)).mapError f = ((tokens items).mapError f).map (token :: ·) := by
  rw [tokens]
  cases tokens items <;> rfl

theorem filterMap_token? (tokens : List Token) :
    (tokens.map Item.token).filterMap Item.token? = tokens := by
  induction tokens with
  | nil => rfl
  | cons token tokens ih => exact congrArg (token :: ·) ih

end Item

/-- A source is lexed to tokens with the finish behind them, or up to a failure. -/
theorem tokenize_cases (source : String) :
    (∃ (tokens : List Token) (offset : Nat), tokenize source = .ok (tokens ++ [.finish offset]) ∧
      (TokenStream.ofSource source).items =
        (tokens ++ [Token.finish offset]).map Item.token ∧
      ∀ token ∈ tokens, token.kind ≠ .finish) ∨
    (∃ (tokens : List Token) (offset : Nat), tokenize source = .error (.lexing offset) ∧
      (TokenStream.ofSource source).items = tokens.map Item.token ++ [.failure offset] ∧
      ∀ token ∈ tokens, token.kind ≠ .finish) := by
  have complete : Item.Complete (TokenStream.ofSource source).items :=
    TokenStream.items_complete rfl
  obtain ⟨tokens, last, hitems, hlast, ordinary⟩ := complete.split
  cases hlast with
  | finish offset =>
    refine Or.inl ⟨tokens, offset, ?_, ?_, ordinary⟩
    · rw [tokenize, hitems, Item.tokens_map_append]
      rfl
    · rw [hitems, List.map_append, List.map_singleton]
  | failure offset =>
    refine Or.inr ⟨tokens, offset, ?_, hitems, ordinary⟩
    rw [tokenize, hitems, Item.tokens_map_append]
    rfl

theorem items_of_tokenize {source : String} {tokens : List Token}
    (lexed : tokenize source = .ok tokens) :
    (TokenStream.ofSource source).items = tokens.map Item.token ∧
      ∃ (before : List Token) (offset : Nat), tokens = before ++ [.finish offset] ∧
        ∀ token ∈ before, token.kind ≠ .finish := by
  rcases tokenize_cases source with
    ⟨before, offset, hok, hitems, ordinary⟩ | ⟨before, offset, herror, -⟩
  · rw [hok] at lexed
    cases lexed
    exact ⟨hitems, before, offset, rfl, ordinary⟩
  · rw [herror] at lexed
    cases lexed

end Definiens
