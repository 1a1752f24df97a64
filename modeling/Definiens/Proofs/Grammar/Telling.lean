import Definiens.Grammar.Silence
import Definiens.Proofs.Grammar.Heed
import Definiens.Proofs.Grammar.Moments
import Definiens.Proofs.Grammar.Refusal

/-!
# What an observer is told of lexing

Whoever observes how a source is parsed is told of each of its items once, in order and to the last one,
just as if the source were only lexed, however often the parser goes back.  This rests on two facts: the
items told are those of the log, at every moment, and in the end the log holds all the items.
-/

namespace Definiens

def Event.lexed? : Event → Option Item
  | .lexed item => some item
  | .attempt _ _ => none
  | .matched _ _ _ => none
  | .noMatch _ _ => none
  | .refused _ => none

/-! ## Lexing by itself -/

namespace TokenStream

/-- The notices of at most so many draws, up to the first empty one. -/
def noticesUpTo : Nat → TokenStream → List Item
  | 0, _ => []
  | count + 1, stream =>
    match Supply.draw stream with
    | ⟨some _, notices, rest⟩ => notices ++ noticesUpTo count rest
    | ⟨none, notices, _⟩ => notices

def notices (stream : TokenStream) : List Item := noticesUpTo stream.pending stream

theorem noticesUpTo_eq_drawUpTo (count : Nat) (stream : TokenStream) :
    noticesUpTo count stream = (drawUpTo count stream).1 := by
  induction count generalizing stream with
  | zero => rfl
  | succ count ih =>
    cases running : stream.halt with
    | none =>
      rw [drawUpTo_succ_of_running running, noticesUpTo, draw_of_running running]
      simp [ih]
    | some halt =>
      rw [drawUpTo_of_stopped running, noticesUpTo, draw_of_stopped running]

/-- A stream gives notice of each item that it still has to give. -/
theorem notices_eq_items (stream : TokenStream) : stream.notices = stream.items :=
  noticesUpTo_eq_drawUpTo stream.pending stream

end TokenStream

theorem Item.Complete.succ_eq_length {items : List Item} (complete : Complete items) {place : Nat}
    {item : Item} (here : items[place]? = some item)
    (ends : ∀ token, item = .token token → token.kind = .finish) : place + 1 = items.length := by
  induction complete generalizing place with
  | finish offset =>
    obtain ⟨inside, -⟩ := List.getElem?_eq_some_iff.mp here
    exact Nat.le_antisymm inside (Nat.succ_le_succ (Nat.zero_le place))
  | failure offset =>
    obtain ⟨inside, -⟩ := List.getElem?_eq_some_iff.mp here
    exact Nat.le_antisymm inside (Nat.succ_le_succ (Nat.zero_le place))
  | token notFinish others ih =>
    cases place with
    | zero =>
      cases here
      exact absurd (ends _ rfl) notFinish
    | succ place => exact congrArg (· + 1) (ih here)

/-! ## The journal -/

namespace Session

variable {s : Session}

theorem isSome_record (observed : s.journal.isSome) (entry : Entry) :
    (s.record entry).journal.isSome := by
  rcases s with ⟨cursor, _ | entries⟩
  · cases observed
  · rfl

theorem history_record (observed : s.journal.isSome) (entry : Entry) :
    (s.record entry).history = s.history ++ [entry] := by
  rcases s with ⟨cursor, _ | entries⟩
  · cases observed
  · exact List.reverse_cons

theorem events_note (observed : s.journal.isSome) (event : Event) :
    (s.note event).events = s.events ++ [event] := by
  rw [events, note, history_record observed, List.filterMap_append]
  rfl

theorem events_foldl_note (observed : s.journal.isSome) (lexed : List Item) :
    (lexed.foldl (fun s item => s.note (.lexed item)) s).journal.isSome ∧
      (lexed.foldl (fun s item => s.note (.lexed item)) s).events =
        s.events ++ lexed.map Event.lexed := by
  induction lexed generalizing s with
  | nil => exact ⟨observed, (List.append_nil _).symm⟩
  | cons item lexed ih =>
    have noted : (s.note (.lexed item)).journal.isSome := isSome_record observed _
    obtain ⟨observed', told⟩ := ih noted
    refine ⟨observed', told.trans ?_⟩
    rw [events_note observed, List.append_assoc]
    rfl

theorem events_move (observed : s.journal.isSome) (move : Move) :
    (s.move move).2.journal.isSome ∧
      (s.move move).2.events = s.events ++ (s.cursor.step move).notices.map Event.lexed := by
  have placed : ({ s with cursor := (s.cursor.step move).cursor } : Session).journal.isSome :=
    observed
  have moved : (Session.record (.move move) { s with cursor := (s.cursor.step move).cursor }).events =
      s.events := by
    rw [events, history_record placed, List.filterMap_append]
    exact List.append_nil _
  have told := events_foldl_note (isSome_record placed (.move move)) (s.cursor.step move).notices
  rw [moved] at told
  exact told

/-- What has been told in an observed session is what has been logged, and that nothing is refused. -/
structure Told (s : Session) : Prop where
  observed : s.journal.isSome
  lexed : s.events.filterMap Event.lexed? = s.cursor.log.toList
  unrefused : ∀ offset, Event.refused offset ∉ s.events

theorem told_observed (source : String) : (observed source).Told :=
  ⟨rfl, rfl, fun _ => List.not_mem_nil⟩

theorem filterMap_lexed (lexed : List Item) :
    (lexed.map Event.lexed).filterMap Event.lexed? = lexed := by
  induction lexed with
  | nil => rfl
  | cons item lexed ih => exact congrArg (item :: ·) ih

end Session

theorem Cursor.log_step (c : Cursor TokenStream Item) (move : Move) :
    (c.step move).cursor.log.toList = c.log.toList ++ (c.step move).notices := by
  cases move with
  | next =>
    rcases logged : c.log[c.position]? with _ | value
    · cases running : c.supply.halt with
      | none => simp [step, Cursor.next, logged, TokenStream.draw_of_running running, advance]
      | some halt => simp [step, Cursor.next, logged, TokenStream.draw_of_stopped running]
    · simp [step, Cursor.next, logged, advance]
  | checkpoint => exact (List.append_nil _).symm
  | rollback =>
    simp only [step, rollback]
    cases c.checkpoints <;> exact (List.append_nil _).symm
  | commit => exact (List.append_nil _).symm
  | stepBack =>
    simp only [step, stepBack]
    cases c.position <;> exact (List.append_nil _).symm

/-- Every move tells what it logs, and the course of rules is told besides. -/
theorem Session.told_kept : Kept Told where
  move := by
    intro s told move
    obtain ⟨observed, events⟩ := events_move told.observed move
    refine ⟨observed, ?_, fun offset member => ?_⟩
    · rw [events, List.filterMap_append, told.lexed, filterMap_lexed, cursor_move, Cursor.log_step]
    · rw [events] at member
      rcases List.mem_append.mp member with member | member
      · exact told.unrefused offset member
      · simp at member
  note := by
    intro s rule told event course
    have events := events_note told.observed event
    refine ⟨isSome_record told.observed _, ?_, fun offset member => ?_⟩
    · rw [events, List.filterMap_append, told.lexed, cursor_note]
      cases event <;> first | exact List.append_nil _ | cases course
    · rw [events] at member
      rcases List.mem_append.mp member with member | member
      · exact told.unrefused offset member
      · cases List.mem_singleton.mp member
        cases course

/-! ## Lexing to the end -/

theorem Reader.heeds_whole : Heeds whole :=
  .bind (Rule.heeds_read .definition) fun d => .bind (Rule.heeds_read .atEnd) fun _ => .pure d

namespace Parser

variable {items : List Item} {s : Session}

/-- A source that is read whole, or fails, has been lexed to its end. -/
theorem log_whole (complete : Item.Complete items) (along : s.cursor.Over items)
    (ended : (whole s).1 ≠ .noMatch) : (whole s).2.cursor.log.toList = items := by
  have told := whole_refines items s along
  have heeds := (Reader.heeds_whole items s.position).outcome
  have finish := @Reader.matched_whole items s.position
  generalize whole s = step at *
  generalize Reader.whole items s.position = reading at *
  rcases step with ⟨outcome, s'⟩
  rcases reading with ⟨⟨d, stop⟩ | _ | offset, reach⟩
  · -- a match ends behind the finish, and nothing stands behind that
    obtain ⟨along', -, -, rfl, rfl⟩ := told
    obtain ⟨middle, token, -, here, ends, stop⟩ := finish.mp rfl
    have last := complete.succ_eq_length here (by rintro _ ⟨⟩; exact ends)
    exact along'.log_eq_items (last ▸ stop ▸ along'.position_le)
  · obtain ⟨-, -, -, rfl⟩ := told
    exact absurd rfl ended
  · -- the failure has been looked at, and it is the last item
    obtain ⟨along', -, size, -⟩ := told
    obtain ⟨place, high, here⟩ := heeds
    have last := complete.succ_eq_length here nofun
    dsimp only at high size
    have all : items.length ≤ s'.cursor.log.size := by omega
    exact along'.log_eq_items all

theorem log_drainUpTo {count : Nat} (complete : Item.Complete items)
    (along : s.cursor.Over items) (enough : items.length - s.position < count) :
    (drainUpTo count s).2.cursor.log.toList = items := by
  induction count generalizing s with
  | zero => omega
  | succ count ih =>
    obtain ⟨s', read, along', -, size, position⟩ := nextToken_over along
    have behind : s.position ≤ s.cursor.log.size := along.position_le
    -- an item with nothing behind it is logged with all that stand before it
    have last : items.length ≤ s.position + 1 → s'.cursor.log.toList = items :=
      fun low => along'.log_eq_items (by omega)
    rw [drainUpTo_succ, read]
    rcases here : items[s.position]? with _ | token | offset
    · have outside := List.getElem?_eq_none_iff.mp here
      exact last (Nat.le_succ_of_le outside)
    · dsimp only
      split
      next finish =>
        exact last (Nat.le_of_eq (complete.succ_eq_length here
          (by rintro _ ⟨⟩; exact Token.is_eq_true.mp finish)).symm)
      next =>
        obtain ⟨inside, -⟩ := List.getElem?_eq_some_iff.mp here
        rw [if_pos inside] at position
        exact ih along' (by omega)
    · exact last (Nat.le_of_eq (complete.succ_eq_length here nofun).symm)

theorem log_drain (complete : Item.Complete items) (along : s.cursor.Over items) :
    (drain s).2.cursor.log.toList = items :=
  log_drainUpTo complete along (Nat.lt_succ_of_le (le_remaining along))

end Parser

/-! ## What is told in the end -/

/-- The items that go with what lexing the whole of a source answers. -/
inductive Item.Answered : Except ReadError (List Token) → List Item → Prop where
  | tokens {before : List Token} (offset : Nat) (ordinary : ∀ token ∈ before, token.kind ≠ .finish) :
      Answered (.ok (before ++ [.finish offset])) ((before ++ [Token.finish offset]).map Item.token)
  | failure {before : List Token} (offset : Nat) (ordinary : ∀ token ∈ before, token.kind ≠ .finish) :
      Answered (.error (.lexing offset)) (before.map Item.token ++ [.failure offset])

theorem answered_tokenize (source : String) :
    Item.Answered (tokenize source) (TokenStream.ofSource source).items := by
  rcases tokenize_cases source with
    ⟨before, offset, tokenized, hitems, ordinary⟩ | ⟨before, offset, tokenized, hitems, ordinary⟩
  · rw [tokenized, hitems]
    exact .tokens offset ordinary
  · rw [tokenized, hitems]
    exact .failure offset ordinary

/-- The events that go with what parsing a source answers: a refusal is told last, and no other one. -/
inductive Event.Answered : Except ReadError Definition → List Event → Prop where
  | definition {told : List Event} (d : Definition) (unrefused : ∀ place, .refused place ∉ told) :
      Answered (.ok d) told
  | lexing {told : List Event} (offset : Nat) (unrefused : ∀ place, .refused place ∉ told) :
      Answered (.error (.lexing offset)) told
  | unmatched {before : List Event} (offset : Nat) (only : ∀ place, .refused place ∉ before) :
      Answered (.error (.unmatched offset)) (before ++ [.refused offset])

namespace Session

variable {items : List Item} {s : Session}

theorem Told.refused (told : s.Told) (offset : Nat) :
    (s.note (.refused offset)).events.filterMap Event.lexed? = s.cursor.log.toList ∧
      Event.Answered (.error (.unmatched offset)) (s.note (.refused offset)).events := by
  rw [events_note told.observed, List.filterMap_append, told.lexed]
  exact ⟨List.append_nil _, .unmatched offset told.unrefused⟩

theorem read_told (complete : Item.Complete items) (along : s.cursor.Over items) (told : s.Told) :
    s.read.2.events.filterMap Event.lexed? = items ∧
      Event.Answered s.read.1 s.read.2.events := by
  have told' := Parser.Keeps.whole told_kept s told
  have along' := (Parser.whole_refines items s along).along
  have logged := Parser.log_whole complete along
  rw [read]
  generalize Parser.whole s = ended at *
  rcases ended with ⟨d | _ | offset, s'⟩
  · exact ⟨told'.lexed.trans (logged (by simp)), .definition d told'.unrefused⟩
  · have drained := Parser.Keeps.drain told_kept s' told'
    have logged := Parser.log_drain complete along'
    dsimp only [refuse]
    generalize Parser.drain s' = ended at *
    rcases ended with ⟨_ | _ | offset, s''⟩
    · exact logged ▸ drained.refused s'.furthestOffset
    · exact logged ▸ drained.refused s'.furthestOffset
    · exact ⟨drained.lexed.trans logged, .lexing offset drained.unrefused⟩
  · exact ⟨told'.lexed.trans (logged (by simp)), .lexing offset told'.unrefused⟩

end Session

/-- An observer of the parsing is told of lexing as when the source is lexed by itself: of each token
once and in order, with the finish as the last one and nowhere else, or of the tokens before the failure
and then of the failure.  Of a refusal it is told if that is the answer, once and at the end. -/
theorem parseEvents_tell_lexing (source : String) :
    (parseEvents source).filterMap Event.lexed? = (TokenStream.ofSource source).notices ∧
      Item.Answered (tokenize source) ((parseEvents source).filterMap Event.lexed?) ∧
      Event.Answered (parse source) (parseEvents source) := by
  have complete : Item.Complete (TokenStream.ofSource source).items :=
    TokenStream.items_complete rfl
  have along : (Session.observed source).cursor.Over (TokenStream.ofSource source).items :=
    Cursor.over_ofSupply _
  obtain ⟨lexed, answered⟩ := Session.read_told complete along (Session.told_observed source)
  rw [← parseEvents] at lexed answered
  rw [parse_eq_observed, lexed, TokenStream.notices_eq_items]
  exact ⟨rfl, answered_tokenize source, answered⟩

end Definiens
