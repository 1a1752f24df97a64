import Definiens.Text.Blank

/-!
# Runs and trimming

A run of characters of one class ends where a character stands that is not of the class, or at the end.  A
text is trimmed of two runs of blank characters: it is cut in three, a front and a back that are blank, and
a core between them that has no blank character at either end.  There is one such cut.
-/

namespace Definiens.Text

/-! ## Runs -/

section

variable {belongs : Char → Bool} {text run behind : List Char}

theorem belongs_of_mem_takeWhile {c : Char} (member : c ∈ text.takeWhile belongs) :
    belongs c = true :=
  List.all_eq_true.mp List.all_takeWhile c member

theorem not_belongs_of_head?_dropWhile {c : Char} (first : c ∈ (text.dropWhile belongs).head?) :
    belongs c = false := by
  have stops := List.head?_dropWhile_not belongs text
  rw [Option.mem_def.mp first] at stops
  exact stops

theorem take_length_takeWhile (belongs : Char → Bool) (text : List Char) :
    text.take (text.takeWhile belongs).length = text.takeWhile belongs :=
  (List.prefix_iff_eq_take.mp (List.takeWhile_prefix belongs)).symm

theorem drop_length_takeWhile (belongs : Char → Bool) (text : List Char) :
    text.drop (text.takeWhile belongs).length = text.dropWhile belongs := by
  have behind := @List.drop_left _ (text.takeWhile belongs) (text.dropWhile belongs)
  rwa [List.takeWhile_append_dropWhile] at behind

theorem takeWhile_eq_nil (stops : ∀ c ∈ text.head?, belongs c = false) :
    text.takeWhile belongs = [] := by
  cases text with
  | nil => rfl
  | cons c text => exact List.takeWhile_cons_of_neg (by simp [stops c rfl])

theorem dropWhile_eq_self (stops : ∀ c ∈ text.head?, belongs c = false) :
    text.dropWhile belongs = text := by
  cases text with
  | nil => rfl
  | cons c text => exact List.dropWhile_cons_of_neg (by simp [stops c rfl])

theorem takeWhile_ne_append_isPrefix {c : Char} (member : c ∈ text) :
    text.takeWhile (· != c) ++ [c] <+: text := by
  induction text with
  | nil => cases member
  | cons d text ih =>
    by_cases same : d = c
    · rw [same, List.takeWhile_cons_of_neg (by simp)]
      exact List.prefix_append [c] text
    · rw [List.takeWhile_cons_of_pos (by simpa using same), List.cons_append]
      exact List.cons_prefix_cons.mpr ⟨rfl, ih (List.mem_of_ne_of_mem (Ne.symm same) member)⟩

/-- A run with nothing of its class behind it is the longest one. -/
theorem takeWhile_append_eq (within : ∀ c ∈ run, belongs c = true)
    (stops : ∀ c ∈ behind.head?, belongs c = false) :
    (run ++ behind).takeWhile belongs = run := by
  rw [List.takeWhile_append_of_pos within, takeWhile_eq_nil stops, List.append_nil]

theorem dropWhile_append_eq (within : ∀ c ∈ run, belongs c = true)
    (stops : ∀ c ∈ behind.head?, belongs c = false) :
    (run ++ behind).dropWhile belongs = behind := by
  rw [List.dropWhile_append_of_pos within, dropWhile_eq_self stops]

/-- There is one way to cut a text behind the longest run. -/
theorem longest_run_unique {run' behind' : List Char} (within : ∀ c ∈ run, belongs c = true)
    (stops : ∀ c ∈ behind.head?, belongs c = false) (within' : ∀ c ∈ run', belongs c = true)
    (stops' : ∀ c ∈ behind'.head?, belongs c = false) (same : run ++ behind = run' ++ behind') :
    run = run' ∧ behind = behind' := by
  have runs := congrArg (List.takeWhile belongs) same
  have rests := congrArg (List.dropWhile belongs) same
  rw [takeWhile_append_eq within stops, takeWhile_append_eq within' stops'] at runs
  rw [dropWhile_append_eq within stops, dropWhile_append_eq within' stops'] at rests
  exact ⟨runs, rests⟩

end

/-! ## Trimming -/

/-- The text is cut into what trimming takes away in front, what it leaves, and what it takes away
behind. -/
structure Trimmed (text front core back : List Char) : Prop where
  split : text = front ++ core ++ back
  front_blank : ∀ c ∈ front, isBlank c = true
  back_blank : ∀ c ∈ back, isBlank c = true
  head_eq : ∀ c ∈ core.head?, isBlank c = false
  last_eq : ∀ c ∈ core.getLast?, isBlank c = false
  /-- A text that is all blank is all front. -/
  back_eq : core = [] → back = []

theorem trimmed_trim (text : List Char) :
    ∃ back, Trimmed text (text.takeWhile isBlank) (trim text) back := by
  obtain ⟨rest, hrest⟩ : ∃ rest, rest = text.dropWhile isBlank := ⟨_, rfl⟩
  have cut : rest = trim text ++ (rest.reverse.takeWhile isBlank).reverse := by
    rw [trim, trimStart, trimEnd, ← hrest, ← List.reverse_append, List.takeWhile_append_dropWhile,
      List.reverse_reverse]
  have rest_head : ∀ c ∈ rest.head?, isBlank c = false := by
    intro c first
    rw [hrest] at first
    exact not_belongs_of_head?_dropWhile first
  refine ⟨(rest.reverse.takeWhile isBlank).reverse, ?_, ?_, ?_, ?_, ?_, ?_⟩
  · rw [List.append_assoc, ← cut, hrest, List.takeWhile_append_dropWhile]
  · exact fun c member => belongs_of_mem_takeWhile member
  · intro c member
    exact belongs_of_mem_takeWhile (List.mem_reverse.mp member)
  · intro c first
    apply rest_head
    rw [cut, List.head?_append, Option.mem_def.mp first]
    rfl
  · intro c last
    rw [trim, trimStart, trimEnd, List.getLast?_reverse] at last
    exact not_belongs_of_head?_dropWhile last
  · intro empty
    rw [empty, List.nil_append] at cut
    -- what is left begins with no blank character and is nothing but blank ones
    cases rest with
    | nil => rfl
    | cons c rest =>
      have member : c ∈ ((c :: rest).reverse.takeWhile isBlank).reverse := cut ▸ List.mem_cons_self
      have blank := belongs_of_mem_takeWhile (List.mem_reverse.mp member)
      rw [rest_head c rfl] at blank
      cases blank

theorem Trimmed.eq {text front core back : List Char} (trimmed : Trimmed text front core back) :
    front = text.takeWhile isBlank ∧ core = trim text := by
  obtain ⟨split, front_blank, back_blank, head_eq, last_eq, back_eq⟩ := trimmed
  have stops : ∀ c ∈ (core ++ back).head?, isBlank c = false := by
    cases core with
    | nil => simp [back_eq rfl]
    | cons d core => exact head_eq
  rw [List.append_assoc] at split
  refine ⟨?_, ?_⟩
  · rw [split, takeWhile_append_eq front_blank stops]
  · have turned : ∀ c ∈ core.reverse.head?, isBlank c = false := by
      rw [List.head?_reverse]
      exact last_eq
    rw [trim, trimStart, trimEnd, split, dropWhile_append_eq front_blank stops, List.reverse_append,
      dropWhile_append_eq (fun c member => back_blank c (List.mem_reverse.mp member)) turned,
      List.reverse_reverse]

/-- Trimming takes away the blanks around a text that is not blank at its ends. -/
theorem trim_append_eq {text front core back : List Char} (split : text = front ++ core ++ back)
    (front_blank : ∀ c ∈ front, isBlank c = true) (back_blank : ∀ c ∈ back, isBlank c = true)
    (head_eq : ∀ c ∈ core.head?, isBlank c = false) (last_eq : ∀ c ∈ core.getLast?, isBlank c = false) :
    trim text = core := by
  cases core with
  | nil =>
    -- a text that is all blank is all front
    have blank : ∀ c ∈ front ++ back, isBlank c = true :=
      fun c member => (List.mem_append.mp member).elim (front_blank c) (back_blank c)
    have trimmed : Trimmed text (front ++ back) [] [] :=
      ⟨by simpa using split, blank, by simp, by simp, by simp, fun _ => rfl⟩
    exact trimmed.eq.2.symm
  | cons c core =>
    have trimmed : Trimmed text front (c :: core) back :=
      ⟨split, front_blank, back_blank, head_eq, last_eq, fun none => absurd none (List.cons_ne_nil c core)⟩
    exact trimmed.eq.2.symm

end Definiens.Text
