import Definiens.Grammar.Reading

/-!
# Silent sessions

Keeping a journal changes nothing but the journal: every parser of the grammar goes the same way in a
session that nobody observes.  So what is parsed in a silent session is what an observed one tells of.
-/

namespace Definiens

namespace Session

@[simp]
theorem silence_position (s : Session) : s.silence.position = s.position :=
  rfl

@[simp]
theorem silence_remaining (s : Session) : s.silence.remaining = s.remaining :=
  rfl

@[simp]
theorem silence_allowance (s : Session) : s.silence.allowance = s.allowance :=
  rfl

@[simp]
theorem silence_furthestOffset (s : Session) : s.silence.furthestOffset = s.furthestOffset :=
  rfl

@[simp]
theorem silence_observed (source : String) : (observed source).silence = silent source :=
  rfl

theorem silence_record (entry : Entry) (s : Session) :
    (s.record entry).silence = s.silence.record entry := by
  rcases s with ⟨cursor, _ | entries⟩ <;> rfl

@[simp]
theorem silence_note (event : Event) (s : Session) :
    (s.note event).silence = s.silence.note event :=
  silence_record _ s

theorem silence_foldl_note (items : List Item) (s : Session) :
    (items.foldl (fun s item => s.note (.lexed item)) s).silence =
      items.foldl (fun s item => s.note (.lexed item)) s.silence := by
  induction items generalizing s with
  | nil => rfl
  | cons item items ih => simp [ih]

@[simp]
theorem move_silence (move : Move) (s : Session) :
    s.silence.move move = ((s.move move).1, (s.move move).2.silence) := by
  simp only [Session.move, silence_foldl_note, silence_record]
  rfl

end Session

namespace Parser

variable {α β : Type}

/-- A parser that goes the same way whether it is observed or not. -/
def Oblivious (p : Parser α) : Prop := ∀ s, p s.silence = ((p s).1, (p s).2.silence)

namespace Oblivious

theorem pure (value : α) : Oblivious (Pure.pure value : Parser α) :=
  fun _ => rfl

theorem fail : Oblivious (fail : Parser α) :=
  fun _ => rfl

theorem andThen {p : Parser α} {next : α → Parser β} (first : Oblivious p)
    (second : ∀ value, Oblivious (next value)) : Oblivious (p.andThen next) := by
  intro s
  have h := first s
  simp only [Parser.andThen, h]
  rcases p s with ⟨_ | _ | _, s⟩
  · exact second _ s
  · rfl
  · rfl

theorem bind {p : Parser α} {next : α → Parser β} (first : Oblivious p)
    (second : ∀ value, Oblivious (next value)) : Oblivious (p >>= next) :=
  andThen first second

theorem orElse {p q : Parser α} (first : Oblivious p) (second : Oblivious q) :
    Oblivious (p.orElse q) := by
  intro s
  have h := first s
  simp only [Parser.orElse, h]
  rcases p s with ⟨_ | _ | _, s⟩
  · rfl
  · exact second s
  · rfl

theorem firstOf {ps : List (Parser α)} (each : ∀ p ∈ ps, Oblivious p) :
    Oblivious (firstOf ps) := by
  induction ps with
  | nil => exact fail
  | cons p ps ih =>
    exact orElse (each p List.mem_cons_self) (ih fun q hq => each q (List.mem_cons_of_mem _ hq))

theorem optional {p : Parser α} (h : Oblivious p) : Oblivious (optional p) := by
  intro s
  have h := h s
  simp only [Parser.optional, h]
  rcases p s with ⟨_ | _ | _, s⟩ <;> rfl

theorem ofOption (value : Option α) : Oblivious (ofOption value) := by
  cases value with
  | none => exact fail
  | some value => exact pure value

theorem nextToken : Oblivious nextToken := by
  intro s
  simp only [Parser.nextToken, Session.move_silence]
  rcases s.move .next with ⟨(_ | _) | _ | _ | _, s⟩ <;> rfl

theorem stepBack : Oblivious stepBack := by
  intro s
  simp only [Parser.stepBack, Session.move_silence]

theorem expect (kind : Kind) : Oblivious (expect kind) := by
  refine bind nextToken fun token => ?_
  split
  · exact pure token
  · exact fail

theorem attempt (rule : Rule) {p : Parser α} (h : Oblivious p) : Oblivious (attempt rule p) := by
  intro s
  have h := h ((s.note (.attempt rule s.position)).move .checkpoint).2
  simp only [Parser.attempt, Session.silence_position, ← Session.silence_note,
    Session.move_silence, h]
  rcases p _ with ⟨_ | _ | _, s⟩ <;>
    simp only [Session.silence_position, ← Session.silence_note, Session.move_silence]

theorem moreTerms {term : Parser Term} (h : Oblivious term) (rounds : Nat) :
    Oblivious (moreTerms term rounds) := by
  induction rounds with
  | zero => exact pure []
  | succ rounds ih =>
    refine bind (optional nextToken) fun token? => ?_
    split
    · exact pure []
    · split
      · exact bind h fun next => bind ih fun others => pure (next :: others)
      · exact bind stepBack fun _ => pure []

/-- Every rule is oblivious if the rules that it mentions are. -/
theorem body {call : (rule : Rule) → Parser rule.Result} (h : ∀ rule, Oblivious (call rule))
    (rounds : Nat) (rule : Rule) : Oblivious (rule.body call rounds) := by
  have arguments : Oblivious (Parser.arguments (call .termList)) :=
    bind (expect _) fun _ => bind (h .termList) fun args => bind (expect _) fun _ => pure args
  cases rule with
  | definition =>
    exact bind (expect _) fun _ => bind (expect _) fun _ => bind (expect _) fun _ =>
      bind (h .formula) fun _ => bind (expect _) fun _ => pure _
  | formula =>
    refine firstOf fun p member => ?_
    simp only [List.mem_cons, List.not_mem_nil, or_false] at member
    rcases member with rfl | rfl | rfl | rfl | rfl | rfl <;> exact h _
  | binaryConnective =>
    exact bind (h .binaryLhs) fun _ => bind nextToken fun _ => bind (ofOption _) fun _ =>
      bind (h .formula) fun _ => pure _
  | binaryLhs =>
    refine firstOf fun p member => ?_
    simp only [List.mem_cons, List.not_mem_nil, or_false] at member
    rcases member with rfl | rfl | rfl | rfl | rfl <;> exact h _
  | parenthesized =>
    exact bind (expect _) fun _ => bind (h .formula) fun _ => bind (expect _) fun _ => pure _
  | quantifier =>
    exact bind nextToken fun _ => bind (ofOption _) fun _ => bind (h .var) fun _ =>
      bind (h .formula) fun _ => pure _
  | negation => exact bind (expect _) fun _ => bind (h .formula) fun _ => pure _
  | equality =>
    exact bind (h .term) fun _ => bind (expect _) fun _ => bind (h .term) fun _ => pure _
  | predicate =>
    exact bind nextToken fun _ => bind (ofOption _) fun _ => bind arguments fun _ => pure _
  | term => exact orElse (h .function) (bind (h .var) fun _ => pure _)
  | function => exact bind (expect _) fun _ => bind arguments fun _ => pure _
  | var => exact bind (expect _) fun _ => pure _
  | termList =>
    refine bind (optional (h .term)) fun first? => ?_
    split
    · exact pure []
    · exact bind (moreTerms (h .term) rounds) fun _ => pure _
  | atEnd => exact expect _

theorem run (allowance : Nat) (rule : Rule) : Oblivious (run allowance rule) := by
  induction allowance generalizing rule with
  | zero => exact fail
  | succ allowance ih => exact attempt rule (body ih allowance rule)

theorem call (rule : Rule) : Oblivious (call rule) :=
  fun s => run s.allowance rule s

theorem whole : Oblivious whole :=
  bind (call .definition) fun _ => bind (call .atEnd) fun _ => pure _

theorem drainUpTo (count : Nat) : Oblivious (drainUpTo count) := by
  induction count with
  | zero => exact pure ()
  | succ count ih =>
    refine bind (optional nextToken) fun token? => ?_
    split
    · exact pure ()
    · split
      · exact pure ()
      · exact ih

theorem drain : Oblivious drain :=
  fun s => drainUpTo (s.remaining + 1) s

end Oblivious

end Parser

theorem Session.read_silence (s : Session) :
    s.silence.read = (s.read.1, s.read.2.silence) := by
  simp only [Session.read, Parser.Oblivious.whole s]
  rcases Parser.whole s with ⟨_ | _ | _, s⟩
  · rfl
  · simp only [Session.refuse, Parser.Oblivious.drain s, Session.silence_furthestOffset]
    rcases Parser.drain s with ⟨_ | _ | _, s⟩ <;> simp
  · rfl

/-- What is parsed is what an observer is told of. -/
theorem parse_eq_observed (source : String) :
    parse source = (Session.observed source).read.1 := by
  rw [parse, ← Session.silence_observed, Session.read_silence]

end Definiens
