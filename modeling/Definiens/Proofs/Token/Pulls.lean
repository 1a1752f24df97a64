import Definiens.Proofs.Token.Items

/-!
# Asking a stream in any way

A stream can be asked for its next item in two ways, which differ only once the source is used up, and it
can be begun again.  However the ways are mixed, no item is skipped and none comes twice: the answers are
those of a place in a list of items that the source determines.
-/

namespace Definiens

inductive Pull where
  /-- For the next item, or for the last one again. -/
  | next
  /-- For the next item, if there is one. -/
  | draw
  | restart
  deriving DecidableEq, Repr

namespace TokenStream

def pull (stream : TokenStream) : Pull → Option Item × TokenStream
  | .next => (some stream.next.1, stream.next.2)
  | .draw => ((Supply.draw stream).value, (Supply.draw stream).rest)
  | .restart => (none, stream.restart)

def answers : TokenStream → List Pull → List (Option Item)
  | _, [] => []
  | stream, pull :: pulls => (stream.pull pull).1 :: answers (stream.pull pull).2 pulls

end TokenStream

namespace Item

/-- Asks for an item of a list, from a place in it. -/
def pull (items : List Item) (place : Nat) : Pull → Option Item × Nat
  | .next =>
    match items[place]? with
    | some item => (some item, place + 1)
    | none => (items.getLast?, place)
  | .draw =>
    match items[place]? with
    | some item => (some item, place + 1)
    | none => (none, place)
  | .restart => (none, 0)

def answers (items : List Item) : Nat → List Pull → List (Option Item)
  | _, [] => []
  | place, pull :: pulls =>
    (Item.pull items place pull).1 :: answers items (Item.pull items place pull).2 pulls

end Item

namespace TokenStream

variable {stream : TokenStream} {source : String} {place : Nat}

/-! ## Where a stream stands -/

theorem source_lex (stream : TokenStream) : stream.lex.2.source = stream.source := by
  rw [lex]
  split
  · rfl
  · split <;> rfl

/-- A stream that stops at an item gives this item from then on. -/
theorem next_of_lex_stopped {halt : Halt} (running : stream.halt = none)
    (stopped : stream.lex.2.halt = some halt) : stream.lex.2.next = (stream.lex.1, stream.lex.2) := by
  rw [lex] at stopped ⊢
  split at stopped
  next => rfl
  next =>
    split at stopped
    next =>
      rw [running] at stopped
      cases stopped
    next => rfl

/-- The stream stands at a place among the items of the source: those behind the place are still to come,
and if it has stopped it keeps giving the last item. -/
structure StandsAt (source : String) (place : Nat) (stream : TokenStream) : Prop where
  source_eq : stream.source = source
  ahead : stream.items = (ofSource source).items.drop place
  last : ∀ halt, stream.halt = some halt →
    ∃ item, stream.next = (item, stream) ∧ (ofSource source).items.getLast? = some item

theorem standsAt_ofSource (source : String) : (ofSource source).StandsAt source 0 :=
  ⟨rfl, rfl, nofun⟩

namespace StandsAt

theorem lex (stands : stream.StandsAt source place) (running : stream.halt = none) :
    (ofSource source).items[place]? = some stream.lex.1 ∧
      stream.lex.2.StandsAt source (place + 1) := by
  have split := items_of_running running
  rw [stands.ahead] at split
  have here : (ofSource source).items[place]? = some stream.lex.1 := by
    rw [← List.head?_drop, split, List.head?_cons]
  refine ⟨here, (source_lex stream).trans stands.source_eq, ?_, fun halt stopped => ?_⟩
  · rw [← List.tail_drop, split, List.tail_cons]
  · -- nothing stands behind the item at which the stream stops
    refine ⟨stream.lex.1, next_of_lex_stopped running stopped, ?_⟩
    rw [items_of_stopped stopped] at split
    rw [← List.take_append_drop place (ofSource source).items, split, List.getLast?_concat]

theorem ended {halt : Halt} (stands : stream.StandsAt source place) (stopped : stream.halt = some halt) :
    (ofSource source).items[place]? = none := by
  rw [← List.head?_drop, ← stands.ahead, items_of_stopped stopped, List.head?_nil]

/-- Asking a stream once is asking for the item at its place. -/
theorem pull (stands : stream.StandsAt source place) (pull : Pull) :
    (stream.pull pull).1 = (Item.pull (ofSource source).items place pull).1 ∧
      (stream.pull pull).2.StandsAt source (Item.pull (ofSource source).items place pull).2 := by
  cases pull with
  | restart =>
    refine ⟨rfl, ?_⟩
    rw [TokenStream.pull, restart, stands.source_eq]
    exact standsAt_ofSource source
  | next =>
    cases running : stream.halt with
    | none =>
      obtain ⟨here, behind⟩ := stands.lex running
      simp only [TokenStream.pull, Item.pull, here, TokenStream.next, running]
      exact ⟨trivial, behind⟩
    | some halt =>
      obtain ⟨item, again, last⟩ := stands.last halt running
      simp only [TokenStream.pull, Item.pull, stands.ended running, last, again]
      exact ⟨trivial, stands⟩
  | draw =>
    cases running : stream.halt with
    | none =>
      obtain ⟨here, behind⟩ := stands.lex running
      simp only [TokenStream.pull, Item.pull, here, draw_of_running running]
      exact ⟨trivial, behind⟩
    | some halt =>
      simp only [TokenStream.pull, Item.pull, stands.ended running, draw_of_stopped running]
      exact ⟨trivial, stands⟩

theorem answers_eq (stands : stream.StandsAt source place) (pulls : List Pull) :
    stream.answers pulls = Item.answers (ofSource source).items place pulls := by
  induction pulls generalizing stream place with
  | nil => rfl
  | cons pull pulls ih =>
    obtain ⟨answer, stands'⟩ := stands.pull pull
    rw [answers, Item.answers, answer, ih stands']

end StandsAt

/-- Every source has one list of items, which are its tokens with the finish behind them, or those in front
of a failure and then the failure, as lexing the whole source tells.  In whatever ways a stream of the source
is asked, and however often, it answers as the list does from a place that begins at its front. -/
theorem answers_by_place (source : String) :
    ∃ items : List Item,
      (∀ pulls, (ofSource source).answers pulls = Item.answers items 0 pulls) ∧
      ((∃ (before : List Token) (offset : Nat), items = (before ++ [Token.finish offset]).map Item.token ∧
          tokenize source = .ok (before ++ [.finish offset]) ∧ ∀ token ∈ before, token.kind ≠ .finish) ∨
        ∃ (before : List Token) (offset : Nat), items = before.map Item.token ++ [.failure offset] ∧
          tokenize source = .error (.lexing offset) ∧ ∀ token ∈ before, token.kind ≠ .finish) := by
  refine ⟨(ofSource source).items, (standsAt_ofSource source).answers_eq, ?_⟩
  rcases tokenize_cases source with
    ⟨before, offset, lexed, same, ordinary⟩ | ⟨before, offset, failed, same, ordinary⟩
  · exact Or.inl ⟨before, offset, same, lexed, ordinary⟩
  · exact Or.inr ⟨before, offset, same, failed, ordinary⟩

/-- A failure is drawn once and given again and again; begun again, the stream gives its first token. -/
example :
    (ofSource "a #").answers [.next, .draw, .draw, .next, .restart, .draw] =
      [some (.token ⟨.symbol, "a", 0, 1⟩), some (.failure 2), none, some (.failure 2), none,
       some (.token ⟨.symbol, "a", 0, 1⟩)] := by
  rfl

end TokenStream

end Definiens
