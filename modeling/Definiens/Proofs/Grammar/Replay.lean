import Definiens.Proofs.Grammar.Course

/-!
# Replaying a journal

A journal can be replayed, entry by entry: moves move the cursor again, and rules begin and end.  While the
entries of a course are replayed, every event is true at its moment, the rules in progress need less and
less from the outermost to the innermost one, and so they are all different, and there are no more of them
than the outermost one needs.
-/

namespace Definiens

/-- How things stand while a journal is replayed. -/
structure Standing where
  cursor : Cursor TokenStream Item
  /-- The rules that have begun and not ended, the innermost first, with the positions they began at. -/
  inProgress : List (Rule × Nat)

namespace Standing

def step (m : Standing) : Entry → Standing
  | .move move => { m with cursor := (m.cursor.step move).cursor }
  | .event (.attempt rule start) => { m with inProgress := (rule, start) :: m.inProgress }
  | .event (.matched _ _ _) => { m with inProgress := m.inProgress.tail }
  | .event (.noMatch _ _) => { m with inProgress := m.inProgress.tail }
  | .event (.lexed _) => m
  | .event (.refused _) => m

def after (m : Standing) (entries : List Entry) : Standing := entries.foldl step m

theorem cursor_after (m : Standing) (entries : List Entry) :
    (m.after entries).cursor = m.cursor.after (entries.filterMap Entry.move?) := by
  induction entries generalizing m with
  | nil => rfl
  | cons entry entries ih =>
    refine (ih (m.step entry)).trans ?_
    cases entry with
    | move move => rfl
    | event event => cases event <;> rfl

theorem after_cons (m : Standing) (entry : Entry) (entries : List Entry) :
    m.after (entry :: entries) = (m.step entry).after entries :=
  rfl

theorem after_append (m : Standing) (entries others : List Entry) :
    m.after (entries ++ others) = (m.after entries).after others :=
  List.foldl_append

theorem inProgress_after_reading (lexed : List Item) (m : Standing) :
    (m.after (Entry.reading lexed)).inProgress = m.inProgress := by
  have unchanged (m : Standing) : m.after (lexed.map fun item => .event (.lexed item)) = m := by
    induction lexed with
    | nil => rfl
    | cons item lexed ih => exact ih
  rw [Entry.reading, after_cons, unchanged]
  rfl

theorem inProgress_after_closing (rule : Rule) (start : Nat) (stop? : Option Nat) (m : Standing) :
    (m.after (Entry.closing rule start stop?)).inProgress = m.inProgress.tail := by
  cases stop? <;> rfl

/-- Something that depends on how things stand, and on what is to follow, holds at every moment. -/
def Throughout (P : Standing → List Entry → Prop) : Standing → List Entry → Prop
  | m, [] => P m []
  | m, entry :: entries => P m (entry :: entries) ∧ Throughout P (m.step entry) entries

theorem Throughout.split {P : Standing → List Entry → Prop} {m : Standing} {before behind : List Entry}
    (holds : Throughout P m (before ++ behind)) : P (m.after before) behind := by
  induction before generalizing m with
  | nil =>
    cases behind with
    | nil => exact holds
    | cons entry entries => exact holds.1
  | cons entry before ih => exact ih holds.2

end Standing

/-- An event is true as things stand, and the move that goes with it follows: a rule begins where the
cursor is, the rule that ends is the one that has begun last, a match ends where the cursor is, and
without a match the cursor returns to where the rule began. -/
inductive Event.Holds (m : Standing) : Event → List Entry → Prop where
  | attempt (rule : Rule) (behind : List Entry) :
      Event.Holds m (.attempt rule m.cursor.position) (.move .checkpoint :: behind)
  | matched {rule : Rule} {start : Nat} (innermost : m.inProgress.head? = some (rule, start))
      (behind : List Entry) :
      Event.Holds m (.matched rule start m.cursor.position) (.move .commit :: behind)
  | noMatch {rule : Rule} {start : Nat} (innermost : m.inProgress.head? = some (rule, start))
      (back : (m.cursor.step .rollback).cursor.position = start) (behind : List Entry) :
      Event.Holds m (.noMatch rule start) (.move .rollback :: behind)
  | lexed (item : Item) (behind : List Entry) : Event.Holds m (.lexed item) behind
  | refused (offset : Nat) (behind : List Entry) : Event.Holds m (.refused offset) behind

/-- Things stand well: not so many places are saved as the limit, the rules in progress are different, and
the next event is true. -/
structure Standing.Fine (limit : Nat) (m : Standing) (behind : List Entry) : Prop where
  depth_lt : m.cursor.depth < limit
  distinct : m.inProgress.Nodup
  truth : ∀ event rest, behind = .event event :: rest → event.Holds m rest

theorem Standing.Fine.of_move {limit : Nat} {m : Standing} {move : Move} {behind : List Entry}
    (depth_lt : m.cursor.depth < limit) (distinct : m.inProgress.Nodup) :
    m.Fine limit (.move move :: behind) :=
  ⟨depth_lt, distinct, by simp⟩

/-! ## Courses -/

/-- Rules may begin that need less than the bound: no rule in progress needs less than that, and there is
room for so many. -/
structure Standing.Ready (items : List Item) (bound limit : Nat) (m : Standing) : Prop where
  along : m.cursor.Over items
  room : m.cursor.depth + bound ≤ limit
  ordered : m.inProgress.Pairwise fun inner outer =>
    inner.1.need (items.length - inner.2) < outer.1.need (items.length - outer.2)
  least : ∀ outer ∈ m.inProgress, bound ≤ outer.1.need (items.length - outer.2)

/-- The second standing is the first one with the cursor at another place of the same items. -/
structure Standing.Reaches (items : List Item) (stop : Nat) (m m' : Standing) : Prop where
  along : m'.cursor.Over items
  checkpoints : m'.cursor.checkpoints = m.cursor.checkpoints
  position : m'.cursor.position = stop
  inProgress : m'.inProgress = m.inProgress

theorem Standing.Reaches.trans {items : List Item} {middle stop : Nat} {m m' m'' : Standing}
    (first : m.Reaches items middle m') (second : m'.Reaches items stop m'') : m.Reaches items stop m'' :=
  ⟨second.along, second.checkpoints.trans first.checkpoints, second.position,
    second.inProgress.trans first.inProgress⟩

namespace Standing.Ready

variable {items : List Item} {bound limit start stop : Nat} {m m' : Standing} {rest : List Entry}

theorem distinct (ready : m.Ready items bound limit) : m.inProgress.Nodup := by
  refine ready.ordered.imp fun less same => ?_
  rw [same] at less
  exact Nat.lt_irrefl _ less

theorem depth_lt (ready : m.Ready items bound limit) (positive : 0 < bound) : m.cursor.depth < limit :=
  Nat.lt_of_lt_of_le (Nat.lt_add_of_pos_right positive) ready.room

theorem fine (ready : m.Ready items bound limit) (positive : 0 < bound) {behind : List Entry}
    (truth : ∀ event rest, behind = .event event :: rest → event.Holds m rest) : m.Fine limit behind :=
  ⟨ready.depth_lt positive, ready.distinct, truth⟩

theorem of_reaches (ready : m.Ready items bound limit) (reaches : m.Reaches items stop m') :
    m'.Ready items bound limit := by
  obtain ⟨along, checkpoints, -, inProgress⟩ := reaches
  refine ⟨along, ?_, ?_, ?_⟩
  · rw [Cursor.depth, checkpoints]
    exact ready.room
  · rw [inProgress]
    exact ready.ordered
  · rw [inProgress]
    exact ready.least

/-- Behind the beginning of a rule that needs less than the bound, rules may begin that need less. -/
theorem opened (ready : m.Ready items bound limit) {rule : Rule}
    (lower : rule.need (items.length - m.cursor.position) < bound) :
    Standing.Ready items (rule.need (items.length - m.cursor.position)) limit
      ⟨m.cursor.checkpoint, (rule, m.cursor.position) :: m.inProgress⟩ where
  along := ready.along.elsewhere (Nat.le_refl _)
  room := by
    have room := ready.room
    simp only [Cursor.depth, Cursor.checkpoint, List.length_cons] at room ⊢
    omega
  ordered := by
    refine List.pairwise_cons.mpr ⟨fun outer member => ?_, ready.ordered⟩
    exact Nat.lt_of_lt_of_le lower (ready.least outer member)
  least := by
    intro outer member
    rcases List.mem_cons.mp member with rfl | member
    · exact Nat.le_refl _
    · exact Nat.le_trans (Nat.le_of_lt lower) (ready.least outer member)

/-! ### Single steps -/

theorem move (ready : m.Ready items bound limit) (positive : 0 < bound) {move : Move}
    {behind : List Entry} : m.Fine limit (.move move :: behind) :=
  .of_move (ready.depth_lt positive) ready.distinct

theorem lexed (ready : m.Ready items bound limit) (positive : 0 < bound) (items' : List Item)
    (later : Throughout (Fine limit) m rest) :
    Throughout (Fine limit) m ((items'.map fun item => .event (.lexed item)) ++ rest) := by
  induction items' with
  | nil => exact later
  | cons item items' ih =>
    refine ⟨ready.fine positive ?_, ih⟩
    rintro event rest ⟨⟩
    exact .lexed item _

theorem reading (ready : m.Ready items bound limit) (positive : 0 < bound) (items' : List Item)
    (later : ∀ m', m.Reaches items
      (if m.cursor.position < items.length then m.cursor.position + 1 else m.cursor.position) m' →
        Throughout (Fine limit) m' rest) :
    Throughout (Fine limit) m (Entry.reading items' ++ rest) := by
  obtain ⟨-, along, checkpoints, -, position⟩ := ready.along.next
  rw [← Cursor.cursor_step_next] at along checkpoints position
  have reaches : m.Reaches items _ (m.step (.move .next)) := ⟨along, checkpoints, position, rfl⟩
  exact ⟨ready.move positive, (ready.of_reaches reaches).lexed positive items' (later _ reaches)⟩

theorem stepBack (ready : m.Ready items bound limit) (positive : 0 < bound)
    (place : m.cursor.position = start + 1)
    (later : ∀ m', m.Reaches items start m' → Throughout (Fine limit) m' rest) :
    Throughout (Fine limit) m (.move .stepBack :: rest) := by
  have stepped := Cursor.cursor_step_stepBack place
  refine ⟨ready.move positive, later _ ?_⟩
  rw [step, stepped]
  exact ⟨ready.along.elsewhere (by omega), rfl, rfl, rfl⟩

theorem opening (ready : m.Ready items bound limit) (positive : 0 < bound) {rule : Rule}
    (lower : rule.need (items.length - m.cursor.position) < bound)
    (later : Throughout (Fine limit)
      ⟨m.cursor.checkpoint, (rule, m.cursor.position) :: m.inProgress⟩ rest) :
    Throughout (Fine limit) m (.event (.attempt rule m.cursor.position) :: .move .checkpoint :: rest) := by
  have opened := ready.opened lower
  refine ⟨ready.fine positive ?_, .of_move (ready.depth_lt positive) opened.distinct, later⟩
  rintro event rest ⟨⟩
  exact .attempt rule _

/-- A rule ends: it is in progress no more, and then a move goes with that. -/
theorem closing (ready : m.Ready items bound limit) {rule : Rule} {middle : Nat}
    (lower : rule.need (items.length - m.cursor.position) < bound)
    (inside : Standing.Reaches items middle
      ⟨m.cursor.checkpoint, (rule, m.cursor.position) :: m.inProgress⟩ m')
    {event : Event} {move : Move} (truth : event.Holds m' (.move move :: rest))
    (ends : m'.step (.event event) = ⟨m'.cursor, m'.inProgress.tail⟩)
    (later : Throughout (Fine limit) ⟨(m'.cursor.step move).cursor, m.inProgress⟩ rest) :
    Throughout (Fine limit) m' (.event event :: .move move :: rest) := by
  have ready' := (ready.opened lower).of_reaches inside
  have positive : 0 < rule.need (items.length - m.cursor.position) := rule.need_pos _
  have others : m'.inProgress.tail = m.inProgress := by rw [inside.inProgress, List.tail_cons]
  rw [others] at ends
  refine ⟨ready'.fine positive ?_, ?_⟩
  · rintro event' rest' ⟨⟩
    exact truth
  · rw [ends]
    exact ⟨.of_move (ready'.depth_lt positive) ready.distinct, later⟩

end Standing.Ready

open Standing

/-- While a course is replayed from where it begins, things stand well at every moment, and in the end the
cursor is where the course leads. -/
theorem Course.Runs.throughout {items : List Item} {bound limit start stop : Nat} {course : Course}
    (runs : course.Runs items bound start stop) {m : Standing} (ready : m.Ready items bound limit)
    (positive : 0 < bound) (place : m.cursor.position = start) {rest : List Entry}
    (later : ∀ m', m.Reaches items stop m' → Throughout (Fine limit) m' rest) :
    Throughout (Fine limit) m (course.entries ++ rest) := by
  -- along the course; what follows a part of it is replayed from wherever the part leads
  induction runs generalizing m rest with
  | done => exact later m ⟨ready.along, rfl, place, rfl⟩
  | read lexed behind ih =>
    rw [Course.entries, List.append_assoc]
    refine ready.reading positive lexed fun m' reaches => ?_
    rw [place] at reaches
    exact ih (ready.of_reaches reaches) positive reaches.position
      fun last reaches' => later last (reaches.trans reaches')
  | peek lexed ahead behind ih =>
    rw [Course.entries, List.append_assoc]
    refine ready.reading positive lexed fun m' reaches => ?_
    rw [place, if_pos ahead] at reaches
    refine (ready.of_reaches reaches).stepBack positive reaches.position fun m'' back => ?_
    exact ih ((ready.of_reaches reaches).of_reaches back) positive back.position
      fun last reaches' => later last ((reaches.trans back).trans reaches')
  | matched rule lower within behind ih ih' =>
    subst place
    simp only [Course.entries, Entry.closing, List.cons_append, List.nil_append, List.append_assoc]
    refine ready.opening positive lower (ih (ready.opened lower) (rule.need_pos _) rfl fun m' inside => ?_)
    have innermost : m'.inProgress.head? = some (rule, m.cursor.position) := by
      rw [inside.inProgress, List.head?_cons]
    have committed : m.Reaches items _ ⟨(m'.cursor.step .commit).cursor, m.inProgress⟩ :=
      ⟨inside.along.elsewhere (Nat.le_refl _), congrArg List.tail inside.checkpoints, inside.position, rfl⟩
    have truth := Event.Holds.matched innermost
    rw [inside.position] at truth
    refine ready.closing lower inside (truth _) rfl ?_
    exact ih' (ready.of_reaches committed) positive committed.position
      fun last reaches => later last (committed.trans reaches)
  | noMatch rule lower within behind ih ih' =>
    subst place
    simp only [Course.entries, Entry.closing, List.cons_append, List.nil_append, List.append_assoc]
    refine ready.opening positive lower (ih (ready.opened lower) (rule.need_pos _) rfl fun m' inside => ?_)
    have innermost : m'.inProgress.head? = some (rule, m.cursor.position) := by
      rw [inside.inProgress, List.head?_cons]
    have saved : m'.cursor.checkpoints = m.cursor.position :: m.cursor.checkpoints := inside.checkpoints
    have stepped := Cursor.cursor_step_rollback saved
    have forward : m.cursor.position ≤ m'.cursor.position := inside.position ▸ within.start_le
    have back : m.Reaches items m.cursor.position ⟨(m'.cursor.step .rollback).cursor, m.inProgress⟩ := by
      rw [stepped]
      exact ⟨inside.along.elsewhere forward, rfl, rfl, rfl⟩
    refine ready.closing lower inside (.noMatch innermost back.position _) rfl ?_
    exact ih' (ready.of_reaches back) positive back.position
      fun last reaches => later last (back.trans reaches)

/-! ## Journals of sessions -/

/-- Every rule that begins on a course ends on it. -/
theorem Course.inProgress_after (course : Course) (m : Standing) :
    (m.after course.entries).inProgress = m.inProgress := by
  induction course generalizing m with
  | done => rfl
  | read lexed later ih =>
    rw [entries, Standing.after_append, ih, Standing.inProgress_after_reading]
  | peek lexed later ih =>
    rw [entries, Standing.after_append, Standing.after_cons, ih]
    exact Standing.inProgress_after_reading lexed m
  | attempt rule start inside stop? later ih ih' =>
    rw [entries, Standing.after_cons, Standing.after_cons, Standing.after_append, Standing.after_append, ih',
      Standing.inProgress_after_closing, ih]
    rfl

namespace Course.Leads

variable {items : List Item} {bound : Nat} {course : Course} {s s' : Session}

/-- While the entries of a course of a session are replayed, and then some refusal, things stand well; in
the end the cursor is that of the session, and nothing is in progress. -/
theorem replayed (leads : course.Leads items bound s s') (along : s.cursor.Over items)
    (positive : 0 < bound) (refusal : Option Nat) :
    Throughout (Fine (s.depth + bound)) ⟨s.cursor, []⟩
        (course.entries ++ refusal.toList.map fun offset => .event (.refused offset)) ∧
      (Standing.mk s.cursor []).after course.entries = ⟨s'.cursor, []⟩ := by
  have ready : Standing.Ready items bound (s.depth + bound) ⟨s.cursor, []⟩ :=
    ⟨along, Nat.le_refl _, .nil, by simp⟩
  refine ⟨leads.runs.throughout ready positive rfl fun m reaches => ?_, ?_⟩
  · have ready' := ready.of_reaches reaches
    cases refusal with
    | none => exact ready'.fine positive (by simp)
    | some offset =>
      refine ⟨ready'.fine positive ?_, ready'.fine positive (by simp)⟩
      rintro event rest ⟨⟩
      exact .refused offset _
  · have cursor := Standing.cursor_after ⟨s.cursor, []⟩ course.entries
    have inProgress := course.inProgress_after ⟨s.cursor, []⟩
    rw [← leads.enters.cursor] at cursor
    exact congrArg₂ Standing.mk cursor inProgress

end Course.Leads

end Definiens
