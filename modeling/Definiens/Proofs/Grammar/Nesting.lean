import Definiens.Grammar.Silence
import Definiens.Proofs.Grammar.Descending
import Definiens.Proofs.Grammar.Refusal
import Definiens.Proofs.Grammar.Replay

/-!
# Rules nest like brackets

What is told of rules is told in brackets: a rule that begins is the first one to end of those in progress,
and it ends once.  What matches directly inside a match lies within it, one match behind the other.  This
holds of every course, and so of every rule that is called and of every source that is parsed, whatever
becomes of it.
-/

namespace Definiens

/-- A rule that has been tried: where it began, and where its match ended if there was one. -/
structure Bracket where
  rule : Rule
  start : Nat
  stop? : Option Nat
  deriving DecidableEq, Repr

namespace Bracket

def span? (b : Bracket) : Option (Nat × Nat) := b.stop?.map fun stop => (b.start, stop)

/-- No rule begins before the first position, and the matches lie between the positions, each behind the
one before it. -/
structure Within (start stop : Nat) (brackets : List Bracket) : Prop where
  start_le : ∀ b ∈ brackets, start ≤ b.start
  apart : (brackets.filterMap span?).Pairwise fun former latter => former.2 ≤ latter.1
  inside : ∀ span ∈ brackets.filterMap span?, start ≤ span.1 ∧ span.1 ≤ span.2 ∧ span.2 ≤ stop

namespace Within

variable {start middle stop : Nat} {brackets : List Bracket}

theorem nil (start stop : Nat) : Within start stop [] := ⟨by simp, .nil, by simp⟩

theorem mono (within : Within middle stop brackets) (le : start ≤ middle) : Within start stop brackets where
  start_le b member := Nat.le_trans le (within.start_le b member)
  apart := within.apart
  inside span member :=
    let ⟨low, forward, high⟩ := within.inside span member
    ⟨Nat.le_trans le low, forward, high⟩

theorem cons_matched (within : Within middle stop brackets) (rule : Rule) (forward : start ≤ middle)
    (le : middle ≤ stop) : Within start stop (⟨rule, start, some middle⟩ :: brackets) where
  start_le := by
    intro b member
    rcases List.mem_cons.mp member with rfl | member
    · exact Nat.le_refl _
    · exact (within.mono forward).start_le b member
  apart := List.pairwise_cons.mpr ⟨fun span member => (within.inside span member).1, within.apart⟩
  inside := by
    intro span member
    rcases List.mem_cons.mp member with rfl | member
    · exact ⟨Nat.le_refl _, forward, le⟩
    · exact (within.mono forward).inside span member

theorem cons_noMatch (within : Within start stop brackets) (rule : Rule) :
    Within start stop (⟨rule, start, none⟩ :: brackets) where
  start_le := by
    intro b member
    rcases List.mem_cons.mp member with rfl | member
    · exact Nat.le_refl _
    · exact within.start_le b member
  apart := within.apart
  inside := within.inside

end Within

end Bracket

namespace Course

/-- What is told of the rules on a course: an event when a rule begins and one when it ends, with the
events of the rules inside between them. -/
def told : Course → List Event
  | .done => []
  | .read _ later => later.told
  | .peek _ later => later.told
  | .attempt rule start inside (some stop) later =>
    .attempt rule start :: (inside.told ++ .matched rule start stop :: later.told)
  | .attempt rule start inside none later =>
    .attempt rule start :: (inside.told ++ .noMatch rule start :: later.told)

def brackets : Course → List Bracket
  | .done => []
  | .read _ later => later.brackets
  | .peek _ later => later.brackets
  | .attempt rule start _ stop? later => ⟨rule, start, stop?⟩ :: later.brackets

/-- Inside every rule on the course no rule begins before it, and the matches that are directly inside lie
one behind the other, and within the match if the rule has matched. -/
def Nested : Course → Prop
  | .done => True
  | .read _ later => later.Nested
  | .peek _ later => later.Nested
  | .attempt _ start inside (some stop) later =>
    Bracket.Within start stop inside.brackets ∧ inside.Nested ∧ later.Nested
  | .attempt _ start inside none later =>
    (∃ last, Bracket.Within start last inside.brackets) ∧ inside.Nested ∧ later.Nested

theorem brackets_append (course others : Course) :
    (course.append others).brackets = course.brackets ++ others.brackets := by
  induction course with
  | done => rfl
  | read lexed later ih => exact ih
  | peek lexed later ih => exact ih
  | attempt rule start inside stop? later _ ih => exact congrArg (_ :: ·) ih

/-- The rules on a course nest, whatever they are and however they end. -/
theorem Runs.nested {items : List Item} {bound start stop : Nat} {course : Course}
    (runs : course.Runs items bound start stop) :
    Bracket.Within start stop course.brackets ∧ course.Nested := by
  induction runs with
  | done => exact ⟨.nil _ _, trivial⟩
  | read lexed behind ih =>
    refine ⟨ih.1.mono ?_, ih.2⟩
    split
    · exact Nat.le_succ _
    · exact Nat.le_refl _
  | peek lexed ahead behind ih => exact ih
  | matched rule lower within behind ih ih' =>
    exact ⟨ih'.1.cons_matched rule within.start_le behind.start_le, ih.1, ih.2, ih'.2⟩
  | noMatch rule lower within behind ih ih' =>
    exact ⟨ih'.1.cons_noMatch rule, ⟨_, ih.1⟩, ih.2, ih'.2⟩

def ruleEvents (entries : List Entry) : List Event :=
  (entries.filterMap Entry.event?).filter (·.rule?.isSome)

theorem ruleEvents_append (entries others : List Entry) :
    ruleEvents (entries ++ others) = ruleEvents entries ++ ruleEvents others := by
  rw [ruleEvents, List.filterMap_append, List.filter_append]
  rfl

theorem ruleEvents_reading (lexed : List Item) : ruleEvents (Entry.reading lexed) = [] := by
  induction lexed with
  | nil => rfl
  | cons item lexed ih => exact ih

theorem ruleEvents_entries (course : Course) : ruleEvents course.entries = course.told := by
  induction course with
  | done => rfl
  | read lexed later ih => rw [entries, ruleEvents_append, ruleEvents_reading, ih, List.nil_append, told]
  | peek lexed later ih =>
    rw [entries, ruleEvents_append, ruleEvents_reading, List.nil_append, told]
    exact ih
  | attempt rule start inside stop? later ih ih' =>
    have parted : ruleEvents (inside.entries ++ (Entry.closing rule start stop? ++ later.entries)) =
        inside.told ++ (ruleEvents (Entry.closing rule start stop?) ++ later.told) := by
      rw [ruleEvents_append, ruleEvents_append, ih, ih']
    cases stop? with
    | none => exact congrArg (Event.attempt rule start :: ·) parted
    | some stop => exact congrArg (Event.attempt rule start :: ·) parted

/-! ## Whole readings -/

/-- The session has taken the course and then has perhaps refused the source. -/
def Closes (trace : Course) (items : List Item) (bound : Nat) (s : Session) (refusal? : Option Nat)
    (last : Session) : Prop :=
  ∃ s', trace.Leads items bound s s' ∧ last = refusal?.elim s' fun offset => s'.note (.refused offset)

namespace Closes

variable {items : List Item} {bound : Nat} {s s' last : Session} {trace others : Course}
  {refusal? : Option Nat}

theorem of_leads (leads : trace.Leads items bound s s') : trace.Closes items bound s none s' :=
  ⟨s', leads, rfl⟩

theorem enters (closes : trace.Closes items bound s refusal? last) :
    s.Enters (trace.entries ++ refusal?.toList.map fun offset => .event (.refused offset)) last := by
  obtain ⟨s', leads, rfl⟩ := closes
  cases refusal? with
  | none => exact leads.enters.trans (.refl s')
  | some offset => exact leads.enters.trans (.note s' (.refused offset))

theorem behind (leads : trace.Leads items bound s s') (closes : others.Closes items bound s' refusal? last) :
    (trace.append others).Closes items bound s refusal? last :=
  let ⟨_, leads', ends⟩ := closes
  ⟨_, leads.trans leads', ends⟩

end Closes

end Course

namespace Session

variable {items : List Item} {s : Session} (bound : Nat)

theorem drainUpTo_leads (along : s.cursor.Over items) (count : Nat) :
    ∃ course : Course,
      course.Leads items bound s (Parser.drainUpTo count s).2 ∧ course.brackets = [] := by
  induction count generalizing s with
  | zero => exact ⟨.done, .refl along, rfl⟩
  | succ count ih =>
    obtain ⟨lexed, reads⟩ := @Parser.nextToken_leads items bound s along
    rw [Parser.drainUpTo_succ]
    generalize Parser.nextToken s = ended at *
    rcases ended with ⟨token | _ | offset, s'⟩
    · dsimp only
      split
      · exact ⟨_, reads, rfl⟩
      · obtain ⟨course, goes, none⟩ := ih reads.along
        exact ⟨_, reads.trans goes, none⟩
    · exact ⟨_, reads, rfl⟩
    · exact ⟨_, reads, rfl⟩

theorem refuse_closes (along : s.cursor.Over items) :
    ∃ (trace : Course) (refusal? : Option Nat),
      trace.Closes items bound s refusal? s.refuse.2 ∧ trace.brackets = [] := by
  obtain ⟨course, goes, none⟩ := drainUpTo_leads bound along (s.remaining + 1)
  rw [← Parser.drain] at goes
  rw [refuse]
  generalize Parser.drain s = ended at *
  rcases ended with ⟨_ | _ | offset, s'⟩
  · exact ⟨course, some s.furthestOffset, ⟨s', goes, rfl⟩, none⟩
  · exact ⟨course, some s.furthestOffset, ⟨s', goes, rfl⟩, none⟩
  · exact ⟨course, .none, ⟨s', goes, rfl⟩, none⟩

/-- What has come of reading a source whole that has been lexed to some items: the definition is tried,
and the end behind it if there is one, and these have matched exactly if the source is a definition. -/
theorem read_closes (along : s.cursor.Over items) {bound : Nat}
    (room : 4 * (items.length - s.position) + 6 < bound) :
    let first := Parser.call .definition s
    let second := Parser.call .atEnd first.2
    ∃ (trace : Course) (refusal? : Option Nat), trace.Closes items bound s refusal? s.read.2 ∧
      trace.brackets = ⟨.definition, s.position, stop? first⟩ ::
        (stop? first).toList.map (fun stop => ⟨.atEnd, stop, stop? second⟩) ∧
      ((∃ d, s.read.1 = .ok d) ↔ (stop? first).isSome ∧ (stop? second).isSome) := by
  intro first second
  have first_eq : Parser.call .definition s = first := rfl
  have second_eq : Parser.call .atEnd first.2 = second := rfl
  clear_value second first
  obtain ⟨inside, tried⟩ : Rule.Traced items bound .definition s first :=
    first_eq ▸ Parser.call_traced along (Nat.lt_of_le_of_lt (Rule.need_le _ _) room)
  have forward := tried.runs.start_le
  obtain ⟨inside', tried'⟩ : Rule.Traced items bound .atEnd first.2 second :=
    second_eq ▸ Parser.call_traced tried.along
      (Nat.lt_of_le_of_lt (Rule.need_le _ _) (by omega))
  obtain ⟨course, refusal?, closes, none⟩ := refuse_closes bound tried.along
  obtain ⟨course', refusal?', closes', none'⟩ := refuse_closes bound tried'.along
  simp only [read, Parser.whole, Bind.bind, Parser.andThen, first_eq]
  rcases first with ⟨d | _ | offset, s'⟩
  · simp only [second_eq]
    rcases second with ⟨token | _ | offset, s''⟩
    · exact ⟨_, _, .of_leads (tried.trans tried'), rfl, iff_of_true ⟨d, rfl⟩ ⟨rfl, rfl⟩⟩
    · refine ⟨_, _, .behind (tried.trans tried') closes', ?_, ?_⟩
      · rw [Course.brackets_append, none']
        rfl
      · simp [stop?, Outcome.isMatch]
    · refine ⟨_, _, .of_leads (tried.trans tried'), ?_, ?_⟩
      · rfl
      · simp [stop?, Outcome.isMatch]
  · refine ⟨_, _, .behind tried closes, ?_, ?_⟩
    · rw [Course.brackets_append, none]
      rfl
    · simp [stop?, Outcome.isMatch]
  · refine ⟨_, _, .of_leads tried, ?_, ?_⟩
    · rfl
    · simp [stop?, Outcome.isMatch]

end Session

/-! ## What is told of rules -/

/-- What the second session tells, that has come from the first one, is a course and then a refusal if there
is one.  Its events are true, each at its moment, the rules that it tells of nest, and when all of it has
been replayed the cursor is that of the session, and nothing is in progress. -/
structure Course.Faithful (trace : Course) (refusal? : Option Nat) (begun ended : Session) : Prop where
  history : ended.history =
    begun.history ++ (trace.entries ++ refusal?.toList.map fun offset => .event (.refused offset))
  truth : ∀ before event behind,
    trace.entries ++ refusal?.toList.map (fun offset => .event (.refused offset)) =
      before ++ .event event :: behind →
    event.Holds ((Standing.mk begun.cursor []).after before) behind
  nested : trace.Nested
  last : (Standing.mk begun.cursor []).after trace.entries = ⟨ended.cursor, []⟩

theorem Course.Closes.faithful {items : List Item} {bound : Nat} {s last : Session} {trace : Course}
    {refusal? : Option Nat} (closes : trace.Closes items bound s refusal? last) (positive : 0 < bound)
    (along : s.cursor.Over items) (observed : s.journal.isSome) :
    trace.Faithful refusal? s last := by
  have told := closes.enters.history_eq observed
  obtain ⟨s', leads, rfl⟩ := closes
  obtain ⟨fine, after⟩ := leads.replayed along positive refusal?
  refine ⟨told, ?_, leads.runs.nested.2, ?_⟩
  · intro before event behind parted
    rw [parted] at fine
    exact fine.split.truth event behind rfl
  · cases refusal? with
    | none => exact after
    | some offset => exact after.trans (by simp)

theorem Course.Faithful.ruleEvents_eq {trace : Course} {refusal? : Option Nat} {begun ended : Session}
    (faithful : trace.Faithful refusal? begun ended) (nothing : begun.history = []) :
    ended.events.filter (·.rule?.isSome) = trace.told := by
  have refused : ruleEvents (refusal?.toList.map fun offset => .event (.refused offset)) = [] := by
    cases refusal? <;> rfl
  have parted := congrArg ruleEvents faithful.history
  rw [nothing, List.nil_append, ruleEvents_append, ruleEvents_entries, refused, List.append_nil] at parted
  exact parted

/-- For every rule that is called where a source begins, the events told of rules are those of one bracket
with brackets inside, whatever becomes of the call; this bracket ends as a match exactly if the rule has
matched, and then where the session stands.  For the parsing of the source they are those of the brackets of
a definition and, behind a definition, of the end, which have both matched exactly if the source is a
definition.  All of these nest, and all of these events are true. -/
theorem rules_nest_like_brackets (source : String) :
    (∀ rule : Rule,
      let ended := Parser.call rule (Session.observed source)
      ∃ inside : Course,
        let trace := Course.attempt rule 0 inside (Session.stop? ended) .done
        trace.Faithful none (Session.observed source) ended.2 ∧
          ended.2.events.filter (·.rule?.isSome) = trace.told) ∧
      let first := Parser.call .definition (Session.observed source)
      let second := Parser.call .atEnd first.2
      ∃ (trace : Course) (refusal? : Option Nat),
        trace.Faithful refusal? (Session.observed source) (Session.observed source).read.2 ∧
          (parseEvents source).filter (·.rule?.isSome) = trace.told ∧
          trace.brackets = ⟨.definition, 0, Session.stop? first⟩ ::
            (Session.stop? first).toList.map (fun stop => ⟨.atEnd, stop, Session.stop? second⟩) ∧
          ((∃ d, parse source = .ok d) ↔
            (Session.stop? first).isSome ∧ (Session.stop? second).isSome) := by
  have along : (Session.observed source).cursor.Over (TokenStream.ofSource source).items :=
    Cursor.over_ofSupply _
  refine ⟨fun rule => ?_, ?_⟩
  · intro ended
    obtain ⟨inside, tried⟩ : rule.Traced (TokenStream.ofSource source).items _ _ ended :=
      Parser.call_traced along (Nat.lt_succ_self _)
    have faithful := (Course.Closes.of_leads tried).faithful (Nat.succ_pos _) along rfl
    exact ⟨inside, faithful, faithful.ruleEvents_eq rfl⟩
  · obtain ⟨trace, refusal?, closes, brackets, whole⟩ := Session.read_closes along (Nat.lt_succ_self _)
    have faithful := closes.faithful (Nat.succ_pos _) along rfl
    refine ⟨trace, refusal?, faithful, faithful.ruleEvents_eq rfl, brackets, ?_⟩
    rw [parse_eq_observed]
    exact whole

/-- A symbol is read as a term by the second way to read one. -/
example :
    (Parser.call .term (Session.observed "a")).2.events.filter (·.rule?.isSome) =
      [.attempt .term 0, .attempt .function 0, .noMatch .function 0, .attempt .var 0, .matched .var 0 1,
       .matched .term 0 1] := by
  rfl

end Definiens
