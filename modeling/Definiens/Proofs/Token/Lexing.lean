import Definiens.Proofs.Text.Runs
import Definiens.Proofs.Token.Items

/-!
# Lexing

What a source gives can be told without scanners and streams.  `Lexeme.first?` says which lexeme a text
begins with, and `Item.Lexed` how a text falls into gaps and lexemes, one behind the other, until there is
nothing but a gap or no lexeme begins.  The items of a stream are what the text that it has ahead falls
into.
-/

namespace Definiens

open Text

/-! ## The first lexeme of a text -/

namespace Lexeme

/-- The lexeme that a text begins with and its kind, by the first rule that applies. -/
def first? (text : List Char) : Option (Kind × List Char) :=
  let run := text.takeWhile fun c => !isDelimiter c
  let symbol := text.takeWhile isSymbolic
  match Kind.ofKeyword? run, text.head?.bind Kind.ofMark? with
  | some kind, _ => some (kind, run)
  | none, some kind => some (kind, text.take 1)
  | none, none =>
    if typeOpening <+: text then
      if typeClosing ∈ text then
        some (.type, text.takeWhile (· != typeClosing) ++ [typeClosing])
      else
        none
    else if symbol = [] then
      none
    else
      some (.symbol, symbol)

variable {rule : Lexeme} {rules : List Lexeme} {s : Scanner}

theorem read_of_found {scanned : Scanner} {kind : Kind}
    (found : rule.scan s = (scanned, .found kind)) :
    read (rule :: rules) s = (.token (scanned.token kind), scanned.commit) := by
  simp only [read, found]

theorem read_of_absent (settled : s.held = []) (absent : (rule.scan s).2 = .absent) :
    read (rule :: rules) s = read rules s := by
  obtain ⟨count, hcount⟩ := rule.scan_eq_advance s
  have scan : rule.scan s = (s.advance count, .absent) := Prod.ext hcount absent
  simp only [read, scan, Scanner.reset_advance settled]

theorem read_of_unclosed (settled : s.held = []) (unclosed : (rule.scan s).2 = .unclosed) :
    read (rule :: rules) s = (.failure s.committed, s) := by
  obtain ⟨count, hcount⟩ := rule.scan_eq_advance s
  have scan : rule.scan s = (s.advance count, .unclosed) := Prod.ext hcount unclosed
  simp only [read, scan, Scanner.reset_advance settled, Scanner.committed_advance]

theorem advance_of_isPrefix (place : Nat) {text lexeme : List Char} (begins : lexeme <+: text) :
    (⟨place, [], text⟩ : Scanner).advance lexeme.length =
      ⟨place, lexeme, text.drop lexeme.length⟩ := by
  rw [Scanner.advance, ← List.prefix_iff_eq_take.mp begins]
  rfl

theorem read_of_isPrefix {place : Nat} {text lexeme : List Char} {kind : Kind}
    (begins : lexeme <+: text)
    (found : rule.scan ⟨place, [], text⟩ =
      ((⟨place, [], text⟩ : Scanner).advance lexeme.length, .found kind)) :
    read (rule :: rules) ⟨place, [], text⟩ =
      (.token ⟨kind, .ofList lexeme, place, byteLength lexeme⟩,
        ⟨place + byteLength lexeme, [], text.drop lexeme.length⟩) := by
  rw [read_of_found found, advance_of_isPrefix place begins]
  rfl

/-- Reading by all rules finds the first lexeme, and fails in its place if there is none. -/
theorem read_eq_first (place : Nat) (text : List Char) :
    read all ⟨place, [], text⟩ =
      match first? text with
      | some (kind, lexeme) =>
        (.token ⟨kind, .ofList lexeme, place, byteLength lexeme⟩,
          ⟨place + byteLength lexeme, [], text.drop lexeme.length⟩)
      | none => (.failure place, ⟨place, [], text⟩) := by
  have held : ((⟨place, [], text⟩ : Scanner).advance
      ((⟨place, [], text⟩ : Scanner).runLength fun c => !isDelimiter c)).held =
        text.takeWhile fun c => !isDelimiter c :=
    take_length_takeWhile _ text
  rw [first?, all]
  cases keyword : Kind.ofKeyword? (text.takeWhile fun c => !isDelimiter c) with
  | some kind =>
    exact read_of_isPrefix (List.takeWhile_prefix _) (by simp only [scan, scanKeyword, held, keyword]; rfl)
  | none =>
    rw [read_of_absent rfl (by simp only [scan, scanKeyword, held, keyword])]
    cases mark : text.head?.bind Kind.ofMark? with
    | some kind =>
      obtain ⟨c, first, -⟩ := Option.bind_eq_some_iff.mp mark
      obtain ⟨behind, rfl⟩ := List.head?_eq_some_iff.mp first
      exact read_of_isPrefix (List.prefix_append [c] behind) (by simp only [scan, scanMark, mark]; rfl)
    | none =>
      rw [read_of_absent rfl (by simp only [scan, scanMark, mark])]
      by_cases opened : typeOpening <+: text
      · by_cases closed : typeClosing ∈ text
        · simp only [opened, closed, if_true]
          exact read_of_isPrefix (takeWhile_ne_append_isPrefix closed)
            (by simp [scan, scanTypeLiteral, Scanner.runLength, opened, closed])
        · simp only [opened, closed, if_true, if_false]
          exact read_of_unclosed rfl (by simp [scan, scanTypeLiteral, opened, closed])
      · rw [read_of_absent rfl (by simp [scan, scanTypeLiteral, opened])]
        simp only [opened, if_false]
        by_cases none : text.takeWhile isSymbolic = []
        · simp only [none, if_true]
          rw [read_of_absent rfl (by simp [scan, scanSymbol, Scanner.runLength, none])]
          rfl
        · simp only [none, if_false]
          exact read_of_isPrefix (List.takeWhile_prefix _) (by simp [scan, scanSymbol, Scanner.runLength, none])

theorem first?_isPrefix {text lexeme : List Char} {kind : Kind}
    (found : first? text = some (kind, lexeme)) : lexeme <+: text := by
  rw [first?] at found
  split at found
  next =>
    cases found
    exact List.takeWhile_prefix _
  next =>
    cases found
    exact List.take_prefix 1 text
  next =>
    split at found
    next opened =>
      split at found
      next closed =>
        cases found
        exact takeWhile_ne_append_isPrefix closed
      next => cases found
    next =>
      split at found
      next => cases found
      next =>
        cases found
        exact List.takeWhile_prefix _

theorem first?_proper {text lexeme : List Char} {kind : Kind}
    (found : first? text = some (kind, lexeme)) : lexeme ≠ [] ∧ kind ≠ .finish := by
  have read := read_eq_first 0 text
  simp only [found] at read
  rcases read_cases all (s := ⟨0, [], text⟩) rfl with
    ⟨token, after, hread, notFinish, -, shorter⟩ | hread
  · rw [read] at hread
    cases hread
    refine ⟨?_, notFinish⟩
    rintro rfl
    exact absurd shorter (Nat.lt_irrefl _)
  · rw [read] at hread
    cases hread

end Lexeme

/-! ## The lexemes of a text -/

/-- What a text falls into that begins at a place: gaps and lexemes, and at the end the finish behind the
last gap, or a failure where no lexeme begins. -/
inductive Item.Lexed : Nat → List Char → List Item → Prop where
  | finish {start : Nat} {gap : List Char} (blank : ∀ c ∈ gap, isGap c = true) :
      Lexed start gap [.token (.finish (start + byteLength gap))]
  | failure {start : Nat} {gap : List Char} {c : Char} {behind : List Char}
      (blank : ∀ c ∈ gap, isGap c = true) (solid : isGap c = false)
      (missing : Lexeme.first? (c :: behind) = none) :
      Lexed start (gap ++ c :: behind) [.failure (start + byteLength gap)]
  | token {start : Nat} {gap lexeme behind : List Char} {kind : Kind} {items : List Item}
      (blank : ∀ c ∈ gap, isGap c = true)
      (solid : ∀ c ∈ (lexeme ++ behind).head?, isGap c = false)
      (found : Lexeme.first? (lexeme ++ behind) = some (kind, lexeme))
      (others : Lexed (start + byteLength gap + byteLength lexeme) behind items) :
      Lexed start (gap ++ (lexeme ++ behind))
        (.token ⟨kind, .ofList lexeme, start + byteLength gap, byteLength lexeme⟩ :: items)

namespace Item.Lexed

variable {start : Nat} {gap ahead text : List Char} {items items' : List Item}

/-- What a text falls into is the finish behind a gap, a failure where no lexeme begins, or a lexeme and what
the text behind that falls into. -/
theorem cases_of_gap (lexed : Lexed start (gap ++ ahead) items) (blank : ∀ c ∈ gap, isGap c = true)
    (solid : ∀ c ∈ ahead.head?, isGap c = false) :
    (ahead = [] ∧ items = [.token (.finish (start + byteLength gap))]) ∨
      (ahead ≠ [] ∧ Lexeme.first? ahead = none ∧ items = [.failure (start + byteLength gap)]) ∨
      ∃ kind lexeme behind others, ahead = lexeme ++ behind ∧
        Lexeme.first? ahead = some (kind, lexeme) ∧
        Lexed (start + byteLength gap + byteLength lexeme) behind others ∧
        items = .token ⟨kind, .ofList lexeme, start + byteLength gap, byteLength lexeme⟩ :: others := by
  generalize same : gap ++ ahead = text at lexed
  cases lexed with
  | finish blank' =>
    rw [← List.append_nil text] at same
    obtain ⟨rfl, rfl⟩ := longest_run_unique blank solid blank' (by simp) same
    exact Or.inl ⟨rfl, rfl⟩
  | failure blank' solid' missing =>
    obtain ⟨rfl, rfl⟩ := longest_run_unique blank solid blank' (by simpa using solid') same
    exact Or.inr (Or.inl ⟨List.cons_ne_nil _ _, missing, rfl⟩)
  | token blank' solid' found others =>
    obtain ⟨rfl, rfl⟩ := longest_run_unique blank solid blank' solid' same
    exact Or.inr (Or.inr ⟨_, _, _, _, rfl, found, others, rfl⟩)

theorem unique (lexed : Lexed start text items) (lexed' : Lexed start text items') : items = items' := by
  induction lexed generalizing items' with
  | @finish start gap blank =>
    rw [← List.append_nil gap] at lexed'
    rcases lexed'.cases_of_gap blank (by simp) with
      ⟨-, rfl⟩ | ⟨some, -⟩ | ⟨kind, lexeme, behind, others, empty, found, -⟩
    · rfl
    · exact absurd rfl some
    · cases (List.append_eq_nil_iff.mp empty.symm).1
      exact absurd rfl (Lexeme.first?_proper found).1
  | failure blank solid missing =>
    rcases lexed'.cases_of_gap blank (by simpa using solid) with
      ⟨empty, -⟩ | ⟨-, -, rfl⟩ | ⟨kind, lexeme, behind, others, -, found, -⟩
    · cases empty
    · rfl
    · rw [missing] at found
      cases found
  | token blank solid found others ih =>
    rcases lexed'.cases_of_gap blank solid with
      ⟨empty, -⟩ | ⟨-, missing, -⟩ | ⟨kind, lexeme, behind, others', same, found', lexed'', rfl⟩
    · cases (List.append_eq_nil_iff.mp empty).1
      exact absurd rfl (Lexeme.first?_proper found).1
    · rw [found] at missing
      cases missing
    · rw [found] at found'
      cases found'
      cases List.append_cancel_left same
      rw [ih lexed'']

end Item.Lexed

namespace TokenStream

/-- The stream goes on from a settled place, and knows where its text ends. -/
structure Ready (stream : TokenStream) : Prop where
  running : stream.halt = none
  settled : stream.scanner.held = []
  finish_eq : stream.finish = stream.scanner.committed + byteLength stream.scanner.rest

theorem ready_ofSource (source : String) : (ofSource source).Ready := ⟨rfl, rfl, rfl⟩

theorem skipGap_eq {s : Scanner} (settled : s.held = []) :
    s.skipGap = ⟨s.committed + byteLength (s.rest.takeWhile isGap), [], s.rest.dropWhile isGap⟩ := by
  rcases s with ⟨committed, held, rest⟩
  cases settled
  simp only [Scanner.skipGap, Scanner.commit, Scanner.peek, Scanner.advance, Scanner.runLength,
    List.nil_append, take_length_takeWhile, drop_length_takeWhile]

/-- What a ready stream lexes is the finish behind a gap, a failure where no lexeme begins, or a lexeme,
behind which the stream is ready again. -/
theorem Ready.lex_cases {stream : TokenStream} (ready : stream.Ready) :
    let start := stream.scanner.committed
    ∃ gap ahead, (∀ c ∈ gap, isGap c = true) ∧ (∀ c ∈ ahead.head?, isGap c = false) ∧
      stream.scanner.rest = gap ++ ahead ∧
      ((ahead = [] ∧ ∃ after,
          stream.lex = (.token (.finish (start + byteLength gap)), after) ∧ after.halt ≠ none) ∨
        (ahead ≠ [] ∧ Lexeme.first? ahead = none ∧ ∃ after,
          stream.lex = (.failure (start + byteLength gap), after) ∧ after.halt ≠ none) ∨
        ∃ kind lexeme behind after, ahead = lexeme ++ behind ∧
          Lexeme.first? ahead = some (kind, lexeme) ∧
          stream.lex = (.token ⟨kind, .ofList lexeme, start + byteLength gap, byteLength lexeme⟩,
            after) ∧
          after.Ready ∧ after.scanner.rest = behind ∧
          after.scanner.committed = start + byteLength gap + byteLength lexeme) := by
  intro start
  obtain ⟨running, settled, finish_eq⟩ := ready
  have cut : stream.scanner.rest =
      stream.scanner.rest.takeWhile isGap ++ stream.scanner.rest.dropWhile isGap :=
    List.takeWhile_append_dropWhile.symm
  refine ⟨_, _, fun c => belongs_of_mem_takeWhile, fun c => not_belongs_of_head?_dropWhile, cut, ?_⟩
  rw [cut, byteLength_append] at finish_eq
  simp only [lex, skipGap_eq settled]
  generalize stream.scanner.rest.takeWhile isGap = gap at *
  generalize stream.scanner.rest.dropWhile isGap = ahead at *
  cases ahead with
  | nil =>
    rw [byteLength_nil, Nat.add_zero] at finish_eq
    rw [finish_eq]
    exact Or.inl ⟨rfl, _, rfl, by simp⟩
  | cons c others =>
    rw [Lexeme.read_eq_first]
    cases found : Lexeme.first? (c :: others) with
    | none => exact Or.inr (Or.inl ⟨List.cons_ne_nil c others, rfl, _, rfl, by simp⟩)
    | some first =>
      obtain ⟨kind, lexeme⟩ := first
      obtain ⟨behind, whole⟩ := Lexeme.first?_isPrefix found
      rw [← whole, byteLength_append] at finish_eq
      refine Or.inr (Or.inr ⟨kind, lexeme, behind, _, whole.symm, rfl, rfl, ⟨running, rfl, ?_⟩, ?_, rfl⟩)
      · simp only [← whole, List.drop_left]
        omega
      · simp only [← whole, List.drop_left]

theorem Ready.lexed {stream : TokenStream} (ready : stream.Ready) :
    Item.Lexed stream.scanner.committed stream.scanner.rest stream.items := by
  generalize hbound : stream.pending = bound
  induction bound using Nat.strongRecOn generalizing stream with
  | ind bound ih =>
    have shorter := pending_lex_lt ready.running
    rw [items_of_running ready.running]
    obtain ⟨gap, ahead, blank, solid, cut, lexed⟩ := ready.lex_cases
    rw [cut]
    rcases lexed with ⟨rfl, after, hlex, stopped⟩ | ⟨some, missing, after, hlex, stopped⟩ |
      ⟨kind, lexeme, behind, after, rfl, found, hlex, ready', hrest, hcommitted⟩
    · obtain ⟨halt, stopped⟩ := Option.ne_none_iff_exists'.mp stopped
      rw [hlex, items_of_stopped stopped, List.append_nil]
      exact .finish blank
    · obtain ⟨halt, stopped⟩ := Option.ne_none_iff_exists'.mp stopped
      rw [hlex, items_of_stopped stopped]
      cases ahead with
      | nil => exact absurd rfl some
      | cons c behind => exact .failure blank (solid c rfl) missing
    · rw [hlex] at shorter ⊢
      have others := ih after.pending (hbound ▸ shorter) ready' rfl
      rw [hrest, hcommitted] at others
      exact .token blank solid found others

end TokenStream

/-- The items of a source are what the trimmed source falls into. -/
theorem lexed_items (source : String) :
    Item.Lexed (trimmedOffset source.toList) (trim source.toList) (TokenStream.ofSource source).items :=
  (TokenStream.ready_ofSource source).lexed

end Definiens
