import Definiens.Proofs.Text.Slices
import Definiens.Proofs.Token.Classes
import Definiens.Proofs.Token.Pulls
import Mathlib.Logic.Relation

/-!
# Where a scanner can be

An item is lexed in small steps.  The gap is looked over and settled; then a rule looks over what it needs,
which is settled as a token, or given back before the next rule is tried.  A rule that finds nothing to look
over gives up where it stands, and gives nothing back.  Whatever the source is, no step leads a scanner out of
the trimmed text or into a character, and every item gets it on or stops the stream.
-/

namespace Definiens

open Text

/-! ## What a rule looks over -/

namespace Scanner

theorem peek_advance (count : Nat) (s : Scanner) :
    (s.advance count).peek = s.peek + byteLength (s.rest.take count) := by
  simp [peek, advance, Nat.add_assoc]

theorem peek_of_settled {s : Scanner} (settled : s.held = []) : s.peek = s.committed := by
  simp [peek, settled]

theorem peek_advance_runLength (belongs : Char → Bool) {s : Scanner} (settled : s.held = []) :
    (s.advance (s.runLength belongs)).peek = s.committed + byteLength (s.rest.takeWhile belongs) := by
  rw [peek_advance, peek_of_settled settled, runLength, take_length_takeWhile]

end Scanner

namespace Lexeme

/-- The rule finds nothing to look over. -/
def givesUp (s : Scanner) : Lexeme → Bool
  | .keyword => s.runLength (fun c => !isDelimiter c) == 0
  | .mark => s.rest.isEmpty
  | .typeLiteral => false
  | .symbol => s.runLength isSymbolic == 0

/-- How many bytes of the text a rule looks over to come to a verdict.  A mark is a single byte, and a type
literal takes one more than stand in front of the first closing bracket. -/
def stride (text : List Char) : Lexeme → Verdict → Nat
  | .keyword, _ => byteLength (text.takeWhile fun c => !isDelimiter c)
  | .mark, .found _ => 1
  | .typeLiteral, .found _ => byteLength (text.takeWhile (· != typeClosing)) + 1
  | .symbol, .found _ => byteLength (text.takeWhile isSymbolic)
  | _, _ => 0

variable {rule : Lexeme} {s : Scanner}

theorem absent_of_givesUp (settled : s.held = []) (gives : rule.givesUp s = true) :
    (rule.scan s).2 = .absent := by
  cases rule with
  | keyword =>
    have empty : s.runLength (fun c => !isDelimiter c) = 0 := by simpa [givesUp] using gives
    have noKeyword : Kind.ofKeyword? [] = none := by decide
    simp only [scan, scanKeyword, empty, Scanner.advance_zero, settled, noKeyword]
  | mark =>
    have empty : s.rest = [] := by simpa [givesUp] using gives
    simp only [scan, scanMark, empty, List.head?_nil, Option.bind_none]
  | typeLiteral => cases gives
  | symbol =>
    have empty : s.runLength isSymbolic = 0 := by simpa [givesUp] using gives
    simp only [scan, scanSymbol, empty, if_true]

theorem utf8Size_of_mark {c : Char} {kind : Kind} (found : Kind.ofMark? c = some kind) :
    c.utf8Size = 1 := by
  have table : ∀ entry ∈ marks, entry.1.utf8Size = 1 := by decide
  exact table _ (Kind.ofMark?_eq_some_iff.mp found)

/-- What a rule looks over takes as many bytes as its stride. -/
theorem peek_scan (rule : Lexeme) (settled : s.held = []) :
    (rule.scan s).1.peek = s.committed + rule.stride s.rest (rule.scan s).2 := by
  cases rule with
  | keyword =>
    have run := s.peek_advance_runLength (fun c => !isDelimiter c) settled
    simp only [scan, scanKeyword]
    split <;> exact run
  | mark =>
    simp only [scan, scanMark]
    split
    next kind found =>
      obtain ⟨c, first, known⟩ := Option.bind_eq_some_iff.mp found
      obtain ⟨behind, ahead⟩ := List.head?_eq_some_iff.mp first
      rw [s.peek_advance, Scanner.peek_of_settled settled, ahead]
      simp [stride, utf8Size_of_mark known]
    next => exact Scanner.peek_of_settled settled
  | typeLiteral =>
    simp only [scan, scanTypeLiteral]
    split
    next =>
      split
      next closed =>
        have taken := List.prefix_iff_eq_take.mp (takeWhile_ne_append_isPrefix closed)
        rw [List.length_append, List.length_singleton] at taken
        have bracket : typeClosing.utf8Size = 1 := by decide
        rw [s.peek_advance, Scanner.peek_of_settled settled, Scanner.runLength, ← taken, stride,
          byteLength_append, byteLength_cons, bracket, byteLength_nil]
      next => exact Scanner.peek_of_settled settled
    next => exact Scanner.peek_of_settled settled
  | symbol =>
    simp only [scan, scanSymbol]
    split
    next => exact Scanner.peek_of_settled settled
    next => exact s.peek_advance_runLength isSymbolic settled

end Lexeme

/-! ## Inside the text -/

/-- The marks of the scanner stand in order between the places where the trimmed source begins and ends, all
of them at boundaries of characters, and what it holds and has ahead are the slices between them. -/
structure Scanner.Within (source : String) (finish : Nat) (s : Scanner) : Prop where
  finish_eq : finish = trimmedOffset source.toList + byteLength (trim source.toList)
  start_le : trimmedOffset source.toList ≤ s.committed
  committed_le : s.committed ≤ s.peek
  peek_le : s.peek ≤ finish
  finish_le : finish ≤ source.utf8ByteSize
  valid : ∀ place ∈ [trimmedOffset source.toList, s.committed, s.peek, finish],
    (⟨place⟩ : String.Pos.Raw).IsValid source
  held_slice : Slice source s.committed s.held s.peek
  ahead_slice : Slice source s.peek s.rest finish

namespace Scanner.Within

variable {source : String} {finish : Nat} {s : Scanner}

theorem of_slices (finish_eq : finish = trimmedOffset source.toList + byteLength (trim source.toList))
    (start_le : trimmedOffset source.toList ≤ s.committed)
    (held_slice : Slice source s.committed s.held s.peek)
    (ahead_slice : Slice source s.peek s.rest finish) : s.Within source finish where
  finish_eq := finish_eq
  start_le := start_le
  committed_le := held_slice.start_le
  peek_le := ahead_slice.start_le
  finish_le := ahead_slice.stop_valid.le_utf8ByteSize
  valid := by
    have begins : (⟨trimmedOffset source.toList⟩ : String.Pos.Raw).IsValid source :=
      isValid_of_split List.takeWhile_append_dropWhile.symm
    simp only [List.forall_mem_cons]
    exact ⟨begins, held_slice.start_valid, held_slice.stop_valid, ahead_slice.stop_valid, nofun⟩
  held_slice := held_slice
  ahead_slice := ahead_slice

theorem advance (within : s.Within source finish) (count : Nat) : (s.advance count).Within source finish := by
  have ahead := within.ahead_slice
  rw [← List.take_append_drop count s.rest] at ahead
  obtain ⟨taken, left⟩ := ahead.parts
  rw [← s.peek_advance count] at taken left
  exact of_slices within.finish_eq within.start_le (within.held_slice.append taken) left

theorem commit (within : s.Within source finish) : s.commit.Within source finish := by
  have empty : Slice source s.peek [] s.peek := by
    have ahead := within.ahead_slice
    rw [← List.nil_append s.rest] at ahead
    exact ahead.parts.1
  exact of_slices within.finish_eq (Nat.le_trans within.start_le within.committed_le) empty
    within.ahead_slice

theorem reset (within : s.Within source finish) : s.reset.Within source finish := by
  have whole := within.held_slice.append within.ahead_slice
  have empty : Slice source s.committed [] s.committed := by
    rw [← List.nil_append (s.held ++ s.rest)] at whole
    exact whole.parts.1
  exact of_slices within.finish_eq within.start_le empty whole

/-- Nothing is ahead of a settled scanner exactly if it stands at the end. -/
theorem finish_le_committed_iff (within : s.Within source finish) (settled : s.held = []) :
    finish ≤ s.committed ↔ s.rest = [] := by
  have stop_eq := within.ahead_slice.stop_eq
  rw [peek_of_settled settled] at stop_eq
  constructor
  · intro atEnd
    exact eq_nil_of_byteLength_eq_zero (by omega)
  · intro empty
    rw [stop_eq, empty, byteLength_nil]
    exact Nat.le_refl _

end Scanner.Within

/-! ## The steps of lexing an item -/

/-- How far the lexing of an item has come. -/
inductive Stage where
  | begun
  | gap
  | trying (rules : List Lexeme)
  /-- A rule has come to a verdict; these are to be tried after it. -/
  | scanned (rule : Lexeme) (verdict : Verdict) (rules : List Lexeme)
  | lexed (item : Item)
  deriving DecidableEq, Repr

/-- Nothing has been looked over that is neither settled nor given back. -/
def Stage.isSettled : Stage → Bool
  | .gap | .scanned _ _ _ => false
  | .begun | .trying _ | .lexed _ => true

structure Moment where
  stage : Stage
  stream : TokenStream
  deriving DecidableEq, Repr

namespace Moment

def moved (moment : Moment) (stage : Stage) (scanner : Scanner) : Moment :=
  ⟨stage, { moment.stream with scanner }⟩

def stopped (moment : Moment) (item : Item) (scanner : Scanner) (halt : Halt) : Moment :=
  ⟨.lexed item, { moment.stream with scanner, halt := some halt }⟩

def step (moment : Moment) : Option Moment :=
  let s := moment.stream.scanner
  match moment.stage with
  | .begun => some (moment.moved .gap (s.advance (s.runLength isGap)))
  | .gap =>
    if moment.stream.finish ≤ s.commit.committed then
      some (moment.stopped (.token (.finish moment.stream.finish)) s.commit .finished)
    else
      some (moment.moved (.trying Lexeme.all) s.commit)
  | .trying [] => some (moment.stopped (.failure s.committed) s (.failed s.committed))
  | .trying (rule :: rules) =>
    if rule.givesUp s then
      some (moment.moved (.trying rules) s)
    else
      some (moment.moved (.scanned rule (rule.scan s).2 rules) (rule.scan s).1)
  | .scanned _ (.found kind) _ => some (moment.moved (.lexed (.token (s.token kind))) s.commit)
  | .scanned _ .absent rules => some (moment.moved (.trying rules) s.reset)
  | .scanned _ .unclosed _ =>
    some (moment.stopped (.failure s.committed) s.reset (.failed s.committed))
  | .lexed _ => none

def LeadsTo : Moment → Moment → Prop := Relation.ReflTransGen fun moment next => moment.step = some next

/-- The scanner is inside the text and holds nothing unless it is being moved. -/
structure Sound (source : String) (moment : Moment) : Prop where
  within : moment.stream.scanner.Within source moment.stream.finish
  settled : moment.stage.isSettled = true → moment.stream.scanner.held = []
  strides : ∀ rule verdict rules, moment.stage = .scanned rule verdict rules →
    moment.stream.scanner.peek =
      moment.stream.scanner.committed + rule.stride moment.stream.scanner.unsettled verdict

variable {source : String} {moment next : Moment} {item : Item}

theorem Sound.of_settled {stage : Stage} {stream : TokenStream} (between : stage.isSettled = true)
    (within : stream.scanner.Within source stream.finish) (held : stream.scanner.held = []) :
    Sound source ⟨stage, stream⟩ where
  within := within
  settled _ := held
  strides rule verdict rules scanned := by
    cases scanned
    cases between

/-- Every step keeps the scanner inside the text. -/
theorem Sound.step (sound : moment.Sound source) (stepped : moment.step = some next) :
    next.Sound source := by
  obtain ⟨stage, stream⟩ := moment
  obtain ⟨within, settled, -⟩ := sound
  cases stage with
  | begun =>
    cases stepped
    refine ⟨within.advance _, fun between => ?_, fun _ _ _ scanned => ?_⟩
    · cases between
    · cases scanned
  | gap =>
    simp only [Moment.step] at stepped
    split at stepped
    next =>
      cases stepped
      exact .of_settled rfl within.commit rfl
    next =>
      cases stepped
      exact .of_settled rfl within.commit rfl
  | trying rules =>
    have held := settled rfl
    cases rules with
    | nil =>
      cases stepped
      exact .of_settled rfl within held
    | cons rule rules =>
      simp only [Moment.step] at stepped
      split at stepped
      next =>
        cases stepped
        exact .of_settled rfl within held
      next =>
        cases stepped
        obtain ⟨count, looked⟩ := rule.scan_eq_advance stream.scanner
        refine ⟨looked ▸ within.advance count, fun between => ?_, fun _ _ _ scanned => ?_⟩
        · cases between
        · cases scanned
          have unsettled : stream.scanner.rest = (rule.scan stream.scanner).1.unsettled := by
            rw [looked, Scanner.unsettled_advance, Scanner.unsettled, held, List.nil_append]
          have committed : stream.scanner.committed = (rule.scan stream.scanner).1.committed := by
            rw [looked, Scanner.committed_advance]
          have strode := rule.peek_scan held
          rwa [unsettled, committed] at strode
  | scanned rule verdict rules =>
    cases verdict with
    | found kind =>
      cases stepped
      exact .of_settled rfl within.commit rfl
    | absent =>
      cases stepped
      exact .of_settled rfl within.reset rfl
    | unclosed =>
      cases stepped
      exact .of_settled rfl within.reset rfl
  | lexed item => cases stepped

theorem Sound.leadsTo (sound : moment.Sound source) (leads : moment.LeadsTo next) : next.Sound source := by
  induction leads with
  | refl => exact sound
  | tail _ stepped ih => exact ih.step stepped

/-- There is one way on from a moment, so that every moment on the way to an item leads to it. -/
theorem LeadsTo.to_lexed {stream : TokenStream} (leads : moment.LeadsTo next)
    (ends : moment.LeadsTo ⟨.lexed item, stream⟩) : next.LeadsTo ⟨.lexed item, stream⟩ := by
  have oneWay : Relator.RightUnique fun moment next : Moment => moment.step = some next := by
    intro moment next next' stepped stepped'
    rw [stepped] at stepped'
    exact Option.some.inj stepped'
  rcases Relation.ReflTransGen.total_of_right_unique oneWay leads ends with onward | onward
  · exact onward
  · rcases Relation.ReflTransGen.cases_head_iff.mp onward with same | ⟨_, stepped, -⟩
    · rw [← same]
      exact .refl
    · cases stepped

end Moment

namespace TokenStream

def received (stream : TokenStream) : Item × Scanner → TokenStream
  | (.token _, scanner) => { stream with scanner }
  | (.failure offset, scanner) => { stream with scanner, halt := some (.failed offset) }

/-- The steps of the rules lead to the item that is read by them, although not every one gives back. -/
theorem leadsTo_read (stream : TokenStream) (settled : stream.scanner.held = []) (rules : List Lexeme) :
    Moment.LeadsTo ⟨.trying rules, stream⟩
      ⟨.lexed (Lexeme.read rules stream.scanner).1,
        stream.received (Lexeme.read rules stream.scanner)⟩ := by
  induction rules with
  | nil => exact .single rfl
  | cons rule rules ih =>
    by_cases gives : rule.givesUp stream.scanner = true
    · rw [Lexeme.read_of_absent settled (Lexeme.absent_of_givesUp settled gives)]
      have stepped : Moment.step ⟨.trying (rule :: rules), stream⟩ = some ⟨.trying rules, stream⟩ := by
        simp only [Moment.step, gives, if_true]
        rfl
      exact .head stepped ih
    · obtain ⟨count, looked⟩ := rule.scan_eq_advance stream.scanner
      have stepped : Moment.step ⟨.trying (rule :: rules), stream⟩ =
          some ⟨.scanned rule (rule.scan stream.scanner).2 rules,
            { stream with scanner := stream.scanner.advance count }⟩ := by
        simp only [Moment.step, gives, looked]
        rfl
      refine .head stepped ?_
      have back := Scanner.reset_advance settled count
      cases verdict : (rule.scan stream.scanner).2 with
      | found kind =>
        rw [Lexeme.read_of_found (Prod.ext looked verdict)]
        exact .single rfl
      | absent =>
        rw [Lexeme.read_of_absent settled verdict]
        have again : Moment.step ⟨.scanned rule .absent rules,
            { stream with scanner := stream.scanner.advance count }⟩ = some ⟨.trying rules, stream⟩ := by
          simp only [Moment.step, Moment.moved, back]
        exact .head again ih
      | unclosed =>
        rw [Lexeme.read_of_unclosed settled verdict]
        have ended : Moment.step ⟨.scanned rule .unclosed rules,
            { stream with scanner := stream.scanner.advance count }⟩ =
              some ⟨.lexed (.failure stream.scanner.committed),
                stream.received (.failure stream.scanner.committed, stream.scanner)⟩ := by
          simp only [Moment.step, Moment.stopped, back]
          rfl
        exact .single ended

variable {source : String} {stream : TokenStream}

theorem leadsTo_lex (within : stream.scanner.Within source stream.finish) :
    Moment.LeadsTo ⟨.begun, stream⟩ ⟨.lexed stream.lex.1, stream.lex.2⟩ := by
  have looked : Moment.step ⟨.begun, stream⟩ = some ⟨.gap,
    { stream with scanner := stream.scanner.advance (stream.scanner.runLength isGap) }⟩ := rfl
  refine .head looked ?_
  have atEnd : stream.finish ≤ stream.scanner.skipGap.committed ↔ stream.scanner.skipGap.rest = [] :=
    (within.advance _).commit.finish_le_committed_iff rfl
  rw [lex]
  cases ahead : stream.scanner.skipGap.rest with
  | nil =>
    refine .single ?_
    simp only [Moment.step]
    exact if_pos (atEnd.mpr ahead)
  | cons c behind =>
    have notEnd : ¬ stream.finish ≤ stream.scanner.skipGap.committed := fun reached => by
      rw [atEnd.mp reached] at ahead
      cases ahead
    have begun : Moment.step ⟨.gap,
        { stream with scanner := stream.scanner.advance (stream.scanner.runLength isGap) }⟩ =
          some ⟨.trying Lexeme.all, { stream with scanner := stream.scanner.skipGap }⟩ := by
      simp only [Moment.step]
      exact if_neg notEnd
    refine .head begun ?_
    have read := leadsTo_read { stream with scanner := stream.scanner.skipGap } rfl Lexeme.all
    dsimp only
    split
    next token scanner found =>
      simp only [found] at read
      exact read
    next offset scanner failed =>
      simp only [failed] at read
      exact read

/-! ## From call to call -/

/-- Where a stream of the source stands while it is not asked. -/
structure Rests (source : String) (stream : TokenStream) : Prop where
  source_eq : stream.source = source
  within : stream.scanner.Within source stream.finish
  settled : stream.scanner.held = []

def after (stream : TokenStream) (pulls : List Pull) : TokenStream :=
  pulls.foldl (fun stream pull => (stream.pull pull).2) stream

theorem pull_of_running (running : stream.halt = none) {pull : Pull} (onward : pull ≠ .restart) :
    stream.pull pull = (some stream.lex.1, stream.lex.2) := by
  cases pull with
  | next => simp only [pull, next, running]
  | draw => simp only [pull, draw_of_running running]
  | restart => exact absurd rfl onward

theorem pull_of_stopped {halt : Halt} (stopped : stream.halt = some halt) {pull : Pull}
    (onward : pull ≠ .restart) : (stream.pull pull).2 = stream := by
  cases pull with
  | next => cases halt <;> simp only [pull, next, stopped]
  | draw => simp only [pull, draw_of_stopped stopped]
  | restart => exact absurd rfl onward

namespace Rests

theorem ofSource (source : String) : (ofSource source).Rests source := by
  obtain ⟨back, trimmed⟩ := trimmed_trim source.toList
  have ahead := Slice.of_split trimmed.split
  have empty := ahead
  rw [← List.nil_append (trim source.toList)] at empty
  exact ⟨rfl, .of_slices rfl (Nat.le_refl _) empty.parts.1 ahead, rfl⟩

theorem sound (rests : stream.Rests source) : Moment.Sound source ⟨.begun, stream⟩ :=
  .of_settled rfl rests.within rests.settled

theorem lex (rests : stream.Rests source) : stream.lex.2.Rests source := by
  obtain ⟨within, settled, -⟩ := rests.sound.leadsTo (leadsTo_lex rests.within)
  exact ⟨(source_lex stream).trans rests.source_eq, within, settled rfl⟩

theorem pull (rests : stream.Rests source) (pull : Pull) : (stream.pull pull).2.Rests source := by
  by_cases again : pull = .restart
  · rw [again, TokenStream.pull, restart, rests.source_eq]
    exact ofSource source
  · cases running : stream.halt with
    | none =>
      rw [pull_of_running running again]
      exact rests.lex
    | some halt =>
      rw [pull_of_stopped running again]
      exact rests

theorem after (rests : stream.Rests source) (pulls : List Pull) : (stream.after pulls).Rests source := by
  induction pulls generalizing stream with
  | nil => exact rests
  | cons pull pulls ih => exact ih (rests.pull pull)

/-- With every item a stream gets on or stops. -/
theorem gets_on (rests : stream.Rests source) (running : stream.halt = none) :
    stream.scanner.committed < stream.lex.2.scanner.committed ∨ stream.lex.2.halt ≠ none := by
  have stop_eq := rests.within.ahead_slice.stop_eq
  rw [Scanner.peek_of_settled rests.settled] at stop_eq
  obtain ⟨gap, ahead, -, -, -, lexed⟩ := Ready.lex_cases ⟨running, rests.settled, stop_eq⟩
  rcases lexed with ⟨-, after, hlex, stopped⟩ | ⟨-, -, after, hlex, stopped⟩ |
    ⟨kind, lexeme, behind, after, -, found, hlex, -, -, committed⟩
  · rw [hlex]
    exact Or.inr stopped
  · rw [hlex]
    exact Or.inr stopped
  · have some := List.length_pos_iff.mpr (Lexeme.first?_proper found).1
    have size := length_le_byteLength lexeme
    rw [hlex]
    refine Or.inl ?_
    rw [committed]
    omega

end Rests

/-- However a stream of a source is asked, its scanner stands inside the text, and nothing is held between two
calls.  A stream that has stopped stays as it is.  Any other lexes an item: it gets on or stops, and at every
moment on the way its scanner is inside the text, with nothing held when a rule begins or has not applied, and
with so many bytes held as the stride of the rule tells when one has come to a verdict. -/
theorem scanner_stays_in_text (source : String) (pulls : List Pull) :
    let stream := (ofSource source).after pulls
    stream.scanner.Within source stream.finish ∧ stream.scanner.peek = stream.scanner.committed ∧
      (∀ halt pull, stream.halt = some halt → pull ≠ .restart → (stream.pull pull).2 = stream) ∧
      (stream.halt = none →
        (∀ pull, pull ≠ .restart → stream.pull pull = (some stream.lex.1, stream.lex.2)) ∧
        (stream.scanner.committed < stream.lex.2.scanner.committed ∨ stream.lex.2.halt ≠ none) ∧
        ∀ moment, Moment.LeadsTo ⟨.begun, stream⟩ moment →
          moment.LeadsTo ⟨.lexed stream.lex.1, stream.lex.2⟩ ∧
          moment.stream.scanner.Within source moment.stream.finish ∧
          (moment.stage.isSettled = true →
            moment.stream.scanner.peek = moment.stream.scanner.committed) ∧
          ∀ rule verdict rules, moment.stage = .scanned rule verdict rules →
            moment.stream.scanner.peek = moment.stream.scanner.committed +
              rule.stride moment.stream.scanner.unsettled verdict) := by
  intro stream
  have rests : stream.Rests source := (Rests.ofSource source).after pulls
  refine ⟨rests.within, Scanner.peek_of_settled rests.settled,
    fun halt pull stopped onward => pull_of_stopped stopped onward, fun running => ?_⟩
  refine ⟨fun pull onward => pull_of_running running onward, rests.gets_on running, fun moment leads => ?_⟩
  obtain ⟨within, settled, strides⟩ := rests.sound.leadsTo leads
  exact ⟨leads.to_lexed (leadsTo_lex rests.within), within,
    fun between => Scanner.peek_of_settled (settled between), strides⟩

/-- A type literal is looked over to behind its closing bracket, whatever stands in front of that. -/
example :
    (Moment.step ⟨.trying [.typeLiteral], ofSource " type[é] "⟩).map
      (fun moment => (moment.stream.scanner.committed, moment.stream.scanner.peek)) = some (1, 9) := by
  rfl

end TokenStream

end Definiens
