import Definiens.Proofs.Grammar.Calls
import Definiens.Proofs.Grammar.Telling

/-!
# What has not been looked at

How far a rule looks ahead is not bounded: a connective that is given up may have had a right side of any
length.  But all that a session has looked at it has logged.  Behind that a source may go on in any way, or
fail, or end, without a difference to any call.
-/

namespace Definiens

/-- The items of a source are not the beginning of others. -/
theorem Item.Complete.eq_of_isPrefix {items items' : List Item} (complete : Complete items)
    (complete' : Complete items') (begins : items <+: items') : items' = items := by
  obtain ⟨before, last, rfl, ends, -⟩ := complete.split
  obtain ⟨others, rfl⟩ := begins
  have here : (before.map Item.token ++ [last] ++ others)[before.length]? = some last := by simp
  have behind := complete'.succ_eq_length here (by rintro token rfl; cases ends; rfl)
  have none : others = [] := by simpa using behind
  rw [none, List.append_nil]

namespace Rule

variable {items items' : List Item} {start seen : Nat}

/-- Where two sources agree on the items that a reading looks at, they are read alike; and as many items are
looked at. -/
theorem read_eq_of_agree (complete : Item.Complete items) (complete' : Item.Complete items') {rule : Rule}
    (within : min (rule.read items start).reach items.length ≤ seen)
    (agree : items'.take seen = items.take seen) :
    rule.read items' start = rule.read items start ∧
      min (rule.read items' start).reach items'.length = min (rule.read items start).reach items.length := by
  rcases Nat.lt_or_ge seen items.length with more | all
  · -- there is more than has been looked at, so the reading has looked at no end
    have near : (rule.read items start).reach ≤ seen := by omega
    have same : rule.read items' start = rule.read items start := by
      refine rule.local_read items items' start fun place inside => ?_
      have before : place < seen := Nat.lt_of_lt_of_le inside near
      rw [← List.getElem?_take_of_lt before, agree, List.getElem?_take_of_lt before]
    have length := congrArg List.length agree
    rw [List.length_take, List.length_take] at length
    rw [same]
    exact ⟨rfl, by omega⟩
  · rw [List.take_of_length_le all] at agree
    rw [complete.eq_of_isPrefix complete' (agree ▸ List.take_prefix seen items')]
    exact ⟨rfl, rfl⟩

end Rule

namespace Session

variable {items items' : List Item} {s s' : Session} {seen : Nat}

theorem calls_cons (rule : Rule) (rules : List Rule) (s : Session) :
    s.calls (rule :: rules) =
      (⟨rule, (Parser.call rule s).1, (Parser.call rule s).2.position⟩ ::
        ((Parser.call rule s).2.calls rules).1, ((Parser.call rule s).2.calls rules).2) :=
  rfl

theorem size_le_calls (along : s.cursor.Over items) (rules : List Rule) :
    s.cursor.log.size ≤ (s.calls rules).2.cursor.log.size := by
  induction rules generalizing s with
  | nil => exact Nat.le_refl _
  | cons rule rules ih =>
    have size := (Parser.call_refines rule items s along).size
    have first : s.cursor.log.size ≤ (Parser.call rule s).2.cursor.log.size := by omega
    exact Nat.le_trans first (ih (over_call along rule))

/-- The second session goes over other items, and stands at the same place with as much logged. -/
structure Abreast (items items' : List Item) (s s' : Session) : Prop where
  along : s.cursor.Over items
  along' : s'.cursor.Over items'
  position : s'.position = s.position
  size : s'.cursor.log.size = s.cursor.log.size

variable (complete : Item.Complete items) (complete' : Item.Complete items')
  (agree : items'.take seen = items.take seen)
include complete complete' agree

/-- One call comes to the same in two sessions, if their sources agree on what is logged behind it. -/
theorem Abreast.call (pair : Abreast items items' s s') {rule : Rule}
    (within : (Parser.call rule s).2.cursor.log.size ≤ seen) :
    (⟨rule, (Parser.call rule s').1, (Parser.call rule s').2.position⟩ : Reply) =
        ⟨rule, (Parser.call rule s).1, (Parser.call rule s).2.position⟩ ∧
      Abreast items items' (Parser.call rule s).2 (Parser.call rule s').2 := by
  obtain ⟨along, along', position, logged⟩ := pair
  have size := (Parser.call_refines rule items s along).size
  have size' := (Parser.call_refines rule items' s' along').size
  have near : min (rule.read items s.position).reach items.length ≤ seen := by omega
  obtain ⟨same, looked⟩ := Rule.read_eq_of_agree complete complete' near agree
  have reply : (⟨rule, (Parser.call rule s').1, (Parser.call rule s').2.position⟩ : Reply) =
      ⟨rule, (Parser.call rule s).1, (Parser.call rule s).2.position⟩ := by
    rw [call_eq_reply along, call_eq_reply along', position, Rule.reply, same, ← Rule.reply]
  refine ⟨reply, over_call along rule, over_call along' rule, congrArg Reply.position reply, ?_⟩
  rw [size, size', position, logged, looked]

theorem Abreast.calls (pair : Abreast items items' s s') {rules : List Rule}
    (within : (s.calls rules).2.cursor.log.size ≤ seen) :
    (s'.calls rules).1 = (s.calls rules).1 ∧
      Abreast items items' (s.calls rules).2 (s'.calls rules).2 := by
  induction rules generalizing s s' with
  | nil => exact ⟨rfl, pair⟩
  | cons rule rules ih =>
    have first := Nat.le_trans (size_le_calls (over_call pair.along rule) rules) within
    obtain ⟨reply, pair'⟩ := pair.call complete complete' agree first
    obtain ⟨replies, last⟩ := ih pair' within
    exact ⟨by rw [calls_cons, calls_cons, reply, replies], last⟩

end Session

/-- After any calls on a session of a source, so many items have been logged.  On any other source that has the
same items up to there, whatever it has behind them, the same calls have the same outcomes at the same
positions, and in the end the same items are logged, and no more. -/
theorem calls_look_no_further {source source' : String} {journal journal' : Option (List Entry)}
    {rules : List Rule} {seen : Nat}
    (logged : ((Session.moment source [] journal).calls rules).2.cursor.log.size = seen)
    (agree : (TokenStream.ofSource source').items.take seen = (TokenStream.ofSource source).items.take seen) :
    ((Session.moment source' [] journal').calls rules).1 = ((Session.moment source [] journal).calls rules).1 ∧
      ((Session.moment source' [] journal').calls rules).2.cursor.log.size = seen ∧
      ((Session.moment source' [] journal').calls rules).2.cursor.log =
        ((Session.moment source [] journal).calls rules).2.cursor.log := by
  have pair : Session.Abreast (TokenStream.ofSource source).items (TokenStream.ofSource source').items
      (Session.moment source [] journal) (Session.moment source' [] journal') :=
    ⟨Session.over_moment, Session.over_moment, rfl, rfl⟩
  obtain ⟨replies, along, along', -, size⟩ :=
    pair.calls (TokenStream.items_complete rfl) (TokenStream.items_complete rfl) agree (Nat.le_of_eq logged)
  refine ⟨replies, size.trans logged, Array.toList_inj.mp ?_⟩
  rw [along.log_eq, along'.log_eq, size, logged, agree]

/-- In front of a failure `x = x` matches, and the connective behind it is given up after six more tokens.  It
matches as well, and no more is looked at, if the source is nothing but these tokens. -/
theorem equality_in_front_of_abandoned :
    ((Session.moment "x = x and f(a,) #" [] none).calls [.formula, .negation]).2.cursor.log.size = 9 ∧
      (TokenStream.ofSource "x = x and f(a,)").items.take 9 =
        (TokenStream.ofSource "x = x and f(a,) #").items.take 9 ∧
      ((Session.moment "x = x and f(a,)" [] none).calls [.formula, .negation]).1 =
        ((Session.moment "x = x and f(a,) #" [] none).calls [.formula, .negation]).1 ∧
      ((Session.moment "x = x and f(a,)" [] none).calls [.formula, .negation]).1.map Reply.position = [3, 3] ∧
      ((Session.moment "x = x and f(a,)" [] none).calls [.formula, .negation]).2.cursor.log.size = 9 := by
  have logged :
      ((Session.moment "x = x and f(a,) #" [] none).calls [.formula, .negation]).2.cursor.log.size = 9 := by
    decide +kernel
  have agree : (TokenStream.ofSource "x = x and f(a,)").items.take 9 =
      (TokenStream.ofSource "x = x and f(a,) #").items.take 9 := by
    decide +kernel
  obtain ⟨replies, size, -⟩ := @calls_look_no_further "x = x and f(a,) #" "x = x and f(a,)" none none
    [.formula, .negation] 9 logged agree
  have positions :
      ((Session.moment "x = x and f(a,) #" [] none).calls [.formula, .negation]).1.map Reply.position =
        [3, 3] := by
    decide +kernel
  exact ⟨logged, agree, replies, (congrArg (List.map Reply.position) replies).trans positions, size⟩

end Definiens
