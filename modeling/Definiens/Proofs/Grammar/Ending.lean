import Definiens.Proofs.Grammar.Nesting
import Definiens.Proofs.Grammar.Telling

/-!
# Reading ends

At every moment of a source, every rule that is called comes to its end.  Its allowance is never used up,
nor are the rounds of a list of terms, so nothing but the grammar ends a reading; and on the way no more
places are saved than four for each item ahead and six besides.  Draining ends at the last item.
-/

namespace Definiens

/-! ## Draining -/

def Parser.drainUpToOr (spent : Parser Unit) : Nat → Parser Unit
  | 0 => spent
  | count + 1 => do
    match ← optional nextToken with
    | none => pure ()
    | some token => if token.is .finish then pure () else drainUpToOr spent count

/-- What draining some items comes to: a failure is the last of them if it is there at all. -/
def Item.drained (items : List Item) : Outcome Unit :=
  match items.getLast? with
  | some (.failure offset) => .failed offset
  | some (.token _) => .matched ()
  | none => .matched ()

namespace Item.Complete

variable {items : List Item} {place : Nat}

/-- Something stands behind every token but the finish. -/
theorem succ_lt_length (complete : Complete items) {token : Token}
    (here : items[place]? = some (.token token)) (ordinary : token.kind ≠ .finish) : place + 1 < items.length := by
  induction complete generalizing place with
  | finish offset =>
    cases place with
    | zero =>
      cases here
      exact absurd rfl ordinary
    | succ place => simp at here
  | failure offset =>
    cases place with
    | zero => cases here
    | succ place => simp at here
  | token notFinish others ih =>
    cases place with
    | zero =>
      cases others <;> simp
    | succ place =>
      have behind := ih here
      rw [List.length_cons]
      omega

end Item.Complete

theorem Item.drained_of_last {items : List Item} {place : Nat} {item : Item}
    (here : items[place]? = some item) (last : place + 1 = items.length) :
    drained (items.drop place) = drained [item] := by
  obtain ⟨inside, rfl⟩ := List.getElem?_eq_some_iff.mp here
  rw [List.drop_eq_getElem_cons inside, List.drop_eq_nil_of_le (Nat.le_of_eq last.symm)]

theorem Item.drained_succ {items : List Item} {place : Nat} (behind : place + 1 < items.length) :
    drained (items.drop (place + 1)) = drained (items.drop place) := by
  rw [List.drop_eq_getElem_cons (Nat.lt_of_succ_lt behind), drained, drained,
    List.drop_eq_getElem_cons behind, List.getLast?_cons_cons]

namespace Parser

variable {items : List Item} {s : Session}

theorem drainUpToOr_succ (spent : Parser Unit) (count : Nat) (s : Session) :
    drainUpToOr spent (count + 1) s =
      match nextToken s with
      | (.matched token, s) => if token.is .finish then (.matched (), s) else drainUpToOr spent count s
      | (.noMatch, s) => (.matched (), s)
      | (.failed offset, s) => (.failed offset, s) := by
  rw [drainUpToOr]
  simp only [Bind.bind, andThen, optional]
  rcases nextToken s with ⟨token | _ | offset, s'⟩
  · dsimp only
    split <;> rfl
  · rfl
  · rfl

/-- Where draining has enough to spare for the items ahead, what would be done without is of no account. -/
theorem drainUpToOr_eq (spent : Parser Unit) {count count' : Nat} (along : s.cursor.Over items)
    (enough : items.length - s.position < count)
    (enough' : items.length - s.position < count') :
    drainUpToOr spent count s = drainUpTo count' s := by
  induction count generalizing s count' with
  | zero => omega
  | succ count ih =>
    cases count' with
    | zero => omega
    | succ count' =>
      obtain ⟨s', read, along', -, -, position⟩ := nextToken_over along
      rw [drainUpToOr_succ, drainUpTo_succ, read]
      rcases here : items[s.position]? with _ | token | offset
      · rfl
      · obtain ⟨inside, -⟩ := List.getElem?_eq_some_iff.mp here
        rw [if_pos inside] at position
        have same : drainUpToOr spent count s' = drainUpTo count' s' := ih along' (by omega) (by omega)
        dsimp only
        rw [same]
      · rfl

theorem cursor_nextToken (s : Session) : (nextToken s).2.cursor = s.cursor.after [.next] := by
  rw [snd_nextToken, Session.cursor_move]
  rfl

/-- Draining reads one item after another up to the last one, and then no more. -/
theorem drainUpTo_stops (complete : Item.Complete items) {count : Nat} (along : s.cursor.Over items)
    (enough : items.length - s.position < count) :
    (drainUpTo count s).1 = Item.drained (items.drop s.position) ∧
      (drainUpTo count s).2.position = items.length ∧
      (drainUpTo count s).2.cursor =
        s.cursor.after (List.replicate (max 1 (items.length - s.position)) .next) := by
  -- on the count, which exceeds the number of items ahead
  induction count generalizing s with
  | zero => omega
  | succ count ih =>
    have within : s.position ≤ items.length := Nat.le_trans along.position_le along.size_le
    have moved := cursor_nextToken s
    obtain ⟨s', read, along', -, -, position⟩ := nextToken_over along
    rw [read] at moved
    rw [drainUpTo_succ, read]
    rcases here : items[s.position]? with _ | token | offset
    · have outside := List.getElem?_eq_none_iff.mp here
      have atEnd : s.position = items.length := Nat.le_antisymm within outside
      rw [if_neg (by omega)] at position
      refine ⟨?_, position.trans atEnd, ?_⟩
      · rw [List.drop_eq_nil_of_le outside]
        rfl
      · rw [atEnd, Nat.sub_self]
        exact moved
    · obtain ⟨inside, -⟩ := List.getElem?_eq_some_iff.mp here
      rw [if_pos inside] at position
      dsimp only
      split
      next finish =>
        have last := complete.succ_eq_length here (by rintro _ ⟨⟩; exact Token.is_eq_true.mp finish)
        refine ⟨(Item.drained_of_last here last).symm, position.trans last, ?_⟩
        rw [show max 1 (items.length - s.position) = 1 by omega]
        exact moved
      next other =>
        have behind := complete.succ_lt_length here (mt Token.is_eq_true.mpr other)
        obtain ⟨outcome, last, cursor⟩ := ih along' (by omega)
        rw [position] at outcome cursor
        refine ⟨outcome.trans (Item.drained_succ behind), last, ?_⟩
        rw [cursor, moved, ← Cursor.after_append,
          show max 1 (items.length - s.position) = 1 + max 1 (items.length - (s.position + 1)) by omega,
          List.replicate_add]
        rfl
    · obtain ⟨inside, -⟩ := List.getElem?_eq_some_iff.mp here
      rw [if_pos inside] at position
      have last := complete.succ_eq_length here (by simp)
      refine ⟨(Item.drained_of_last here last).symm, position.trans last, ?_⟩
      rw [show max 1 (items.length - s.position) = 1 by omega]
      exact moved

end Parser

/-! ## Rounds of a list of terms -/

namespace Parser

variable {items : List Item} {s s' s'' : Session}

/-- A round in which a comma and a term are found goes over both of them, and the list goes on behind. -/
theorem moreTerms_round (along : s.cursor.Over items) {token : Token} {next : Term} {allowance : Nat}
    (read : nextToken s = (.matched token, s')) (comma : token.is .comma = true)
    (found : run allowance .term s' = (.matched next, s'')) (rounds : Nat) :
    s.position + 2 ≤ s''.position ∧
      moreTerms (run allowance .term) (rounds + 1) s =
        (do
          let others ← moreTerms (run allowance .term) rounds
          pure (next :: others)) s'' := by
  obtain ⟨read', ended, along', -, -, position⟩ := nextToken_over along
  rw [read] at ended
  obtain ⟨outcome, rfl⟩ := Prod.mk.inj ended
  have inside : s.position < items.length := by
    rcases here : items[s.position]? with _ | item
    · rw [here] at outcome
      cases outcome
    · exact (List.getElem?_eq_some_iff.mp here).1
  rw [if_pos inside] at position
  have leaves := run_leaves along' allowance .term
  rw [found] at leaves
  have forward := (leaves.forward rfl).2 (by decide)
  refine ⟨?_, ?_⟩
  · dsimp only at forward
    omega
  · simp only [moreTerms, Bind.bind, andThen, optional, read, comma, if_true, found]

end Parser

/-- While a source is parsed, no more places are ever saved than four for each of its items and six. -/
theorem parsing_saves_few (source : String) (before behind : List Entry)
    (parted : (Session.observed source).read.2.history = before ++ behind) :
    ((Standing.mk (Session.observed source).cursor []).after before).cursor.depth ≤
      4 * (TokenStream.ofSource source).items.length + 6 := by
  have along : (Session.observed source).cursor.Over (TokenStream.ofSource source).items :=
    Cursor.over_ofSupply _
  obtain ⟨trace, refusal?, closes, -⟩ := Session.read_closes along (Nat.lt_succ_self _)
  have told := closes.enters.history_eq rfl
  obtain ⟨s', leads, -⟩ := closes
  obtain ⟨throughout, -⟩ := leads.replayed along (Nat.succ_pos _) refusal?
  have entered : trace.entries ++ refusal?.toList.map (fun offset => .event (.refused offset)) =
      before ++ behind := told.symm.trans parted
  rw [entered] at throughout
  have shallow := throughout.split.depth_lt
  have nothing : (Session.observed source).depth = 0 := rfl
  have begins : (Session.observed source).position = 0 := rfl
  omega

/-- At every moment of a source every rule that is called comes to its end: an allowance of four for each
item ahead and six besides is never used up.  Until then no more places are saved than so many besides those
that were saved before, and no rule begins where it has begun before and is still in progress.  Where a list
of terms goes on, it goes over two tokens at least.  Draining reads the items ahead, up to the last one, and
no more; it fails exactly if the last one is a failure. -/
theorem reading_ends_at_every_moment (source : String) (moves : List Move) (journal : Option (List Entry)) :
    let items := (TokenStream.ofSource source).items
    let s := Session.moment source moves journal
    (∀ rule : Rule,
      (∀ spent exhausted allowance, 4 * (items.length - s.position) + 6 ≤ allowance →
        Parser.runOr spent exhausted allowance rule s = Parser.call rule s) ∧
      ∃ made, s.Enters made (Parser.call rule s).2 ∧ ∀ before behind, made = before ++ behind →
        let m := (Standing.mk s.cursor []).after before
        m.cursor.depth ≤ s.depth + 4 * (items.length - s.position) + 6 ∧ m.inProgress.Nodup ∧
          ∀ event rest, behind = .event event :: rest → event.Holds m rest) ∧
      (∀ allowance rounds token next s' s'', Parser.nextToken s = (.matched token, s') →
        token.is .comma = true → Parser.run allowance .term s' = (.matched next, s'') →
        s.position + 2 ≤ s''.position ∧
          Parser.moreTerms (.run allowance .term) (rounds + 1) s =
            (do
              let others ← Parser.moreTerms (.run allowance .term) rounds
              pure (next :: others)) s'') ∧
      (∀ spent count, items.length - s.position < count →
        Parser.drainUpToOr spent count s = Parser.drain s) ∧
      (Parser.drain s).1 = Item.drained (items.drop s.position) ∧
      (Parser.drain s).2.position = items.length ∧
      (Parser.drain s).2.cursor =
        s.cursor.after (List.replicate (max 1 (items.length - s.position)) .next) := by
  intro items s
  have along : s.cursor.Over items := Session.over_moment
  have complete : Item.Complete items := TokenStream.items_complete rfl
  have enough : items.length - s.position < s.remaining + 1 := Nat.lt_succ_of_le (Parser.le_remaining along)
  refine ⟨fun rule => ⟨?_, ?_⟩, ?_, ?_, Parser.drainUpTo_stops complete along enough⟩
  · intro spent exhausted allowance room
    exact Parser.runOr_eq_run spent exhausted along (Parser.need_le_allowance along rule)
      (Nat.le_trans (rule.need_le _) room)
  · obtain ⟨inside, tried⟩ :=
      Parser.call_traced along (Nat.lt_succ_self (rule.need (items.length - s.position)))
    refine ⟨_, tried.enters, fun before behind parted => ?_⟩
    obtain ⟨throughout, -⟩ := tried.replayed along (Nat.succ_pos _) none
    rw [parted, Option.toList_none, List.map_nil, List.append_nil] at throughout
    have fine := throughout.split
    have shallow := fine.depth_lt
    have need := rule.need_le (items.length - s.position)
    exact ⟨by omega, fine.distinct, fine.truth⟩
  · intro allowance rounds token next s' s'' read comma found
    exact Parser.moreTerms_round along read comma found rounds
  · intro spent count room
    exact Parser.drainUpToOr_eq spent along room enough

end Definiens
