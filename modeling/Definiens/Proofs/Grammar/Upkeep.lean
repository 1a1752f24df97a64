import Definiens.Grammar.Reading
import Definiens.Proofs.Grammar.Alike

/-!
# What every parser keeps

A parser changes a session by moves of its cursor and by notes of the course of rules, and in no other
way.  A property that these keep is therefore kept by every parser, through all that it tries and gives
up, and it holds at every moment of a session in which it holds at the beginning.
-/

namespace Definiens

def Event.rule? : Event → Option Rule
  | .attempt rule _ => some rule
  | .matched rule _ _ => some rule
  | .noMatch rule _ => some rule
  | .lexed _ => none
  | .refused _ => none

/-- A property of sessions that no move takes away, and no note of the course of a rule. -/
structure Session.Kept (P : Session → Prop) : Prop where
  move {s : Session} (holds : P s) (move : Move) : P (s.move move).2
  note {s : Session} {rule : Rule} (holds : P s) (event : Event) (told : event.rule? = some rule) :
    P (s.note event)

namespace Parser

variable {α β : Type}

def Keeps (P : Session → Prop) (p : Parser α) : Prop := ∀ s, P s → P (p s).2

namespace Keeps

variable {P : Session → Prop}

theorem pure (value : α) : Keeps P (Pure.pure value : Parser α) :=
  fun _ holds => holds

theorem fail : Keeps P (fail : Parser α) :=
  fun _ holds => holds

theorem bind {p : Parser α} {next : α → Parser β} (first : Keeps P p)
    (second : ∀ value, Keeps P (next value)) : Keeps P (p >>= next) := by
  intro s holds
  have holds := first s holds
  simp only [Bind.bind, andThen]
  generalize p s = ended at *
  rcases ended with ⟨value | _ | offset, s'⟩
  · exact second value s' holds
  · exact holds
  · exact holds

theorem orElse {p q : Parser α} (first : Keeps P p) (second : Keeps P q) :
    Keeps P (p.orElse q) := by
  intro s holds
  have holds := first s holds
  simp only [Parser.orElse]
  generalize p s = ended at *
  rcases ended with ⟨value | _ | offset, s'⟩
  · exact holds
  · exact second s' holds
  · exact holds

theorem optional {p : Parser α} (h : Keeps P p) : Keeps P (optional p) := by
  intro s holds
  have holds := h s holds
  simp only [Parser.optional]
  generalize p s = ended at *
  rcases ended with ⟨value | _ | offset, s'⟩ <;> exact holds

section

variable (kept : Session.Kept P)
include kept

theorem nextToken : Keeps P nextToken := by
  intro s holds
  have holds := kept.move holds .next
  simp only [Parser.nextToken]
  generalize s.move .next = moved at *
  rcases moved with ⟨(token | offset) | _ | _ | _, s'⟩ <;> exact holds

theorem stepBack : Keeps P stepBack :=
  fun _ holds => kept.move holds .stepBack

theorem ifNext (kind : Kind) {yes no : Parser α} (found : Keeps P yes) (absent : Keeps P no) :
    Keeps P (ifNext kind yes no) := by
  apply bind (optional (nextToken kept))
  intro token?
  cases token? with
  | none => exact absent
  | some token =>
    dsimp only
    split
    · exact found
    · exact bind (stepBack kept) fun _ => absent

theorem attempt (rule : Rule) {p : Parser α} (h : Keeps P p) : Keeps P (attempt rule p) := by
  intro s holds
  have begun : P ((s.note (.attempt rule s.position)).move .checkpoint).2 :=
    kept.move (kept.note holds (.attempt rule s.position) rfl) .checkpoint
  have holds' := h _ begun
  simp only [Parser.attempt]
  generalize p _ = ended at *
  rcases ended with ⟨value | _ | offset, s'⟩
  · exact kept.move (kept.note holds' (.matched rule s.position s'.position) rfl) .commit
  · exact kept.move (kept.note holds' (.noMatch rule s.position) rfl) .rollback
  · exact kept.move (kept.note holds' (.noMatch rule s.position) rfl) .rollback

theorem of_alike {call : (rule : Rule) → Parser rule.Result}
    {look : (rule : Rule) → Reader rule.Result} (calls : ∀ rule, Keeps P (call rule))
    {p : Parser α} {q : Reader α} (made : Alike call look α p q) : Keeps P p := by
  induction made with
  | pure value => exact pure value
  | fail => exact fail
  | nextToken => exact nextToken kept
  | call rule => exact calls rule
  | optional rule => exact optional (calls rule)
  | orElse rule others ih => exact orElse (calls rule) ih
  | bind first second ih ih' => exact bind ih ih'
  | ifNext kind found absent ih ih' => exact ifNext kept kind ih ih'

theorem run (allowance : Nat) (rule : Rule) : Keeps P (run allowance rule) := by
  induction allowance generalizing rule with
  | zero => exact fail
  | succ allowance ih =>
    exact attempt kept rule
      (of_alike kept ih (rule.alike (Parser.run allowance) (Reader.run allowance) allowance))

theorem call (rule : Rule) : Keeps P (call rule) :=
  fun s => run kept s.allowance rule s

theorem whole : Keeps P whole :=
  bind (call kept .definition) fun _ => bind (call kept .atEnd) fun _ => pure _

theorem drainUpTo (count : Nat) : Keeps P (drainUpTo count) := by
  induction count with
  | zero => exact pure ()
  | succ count ih =>
    apply bind (optional (nextToken kept))
    intro token?
    cases token? with
    | none => exact pure ()
    | some token =>
      dsimp only
      split
      · exact pure ()
      · exact ih

theorem drain : Keeps P drain :=
  fun s => drainUpTo kept (s.remaining + 1) s

end

end Keeps

end Parser

end Definiens
