import Definiens.Command
import Definiens.Proofs.Grammar.Refusal
import Definiens.Proofs.Text.Quoting
import Definiens.Proofs.Token.Tiling

/-!
# The two commands agree

One command lexes its source to the end before it parses it, and the other one only parses it.  They refuse
the same inputs and end with the same line, because a failure of the lexer is reported by the parser before
anything else.  What comes before that line is what the listing tells of the tokens.
-/

namespace Definiens

open Text

/-! ## Lines -/

namespace ReadError

/-- The line that tells why a source is refused. -/
def line (error : ReadError) : String :=
  "Error: Custom \x7b kind: InvalidInput, error: \"" ++ error.message ++ "\" \x7d\n"

/-- Nothing in the words of a refusal needs quoting. -/
theorem isPlain_message (error : ReadError) : ∀ c ∈ error.message.toList, isPlain c = true := by
  have numeral (n : Nat) : ∀ c ∈ (toString n).toList, isPlain c = true :=
    fun _ member => isPlain_of_isDigit (isDigit_of_mem_numeral member)
  intro c member
  cases error with
  | lexing offset =>
    have words : ("error lexing at offset ".toList.all isPlain) = true := by rfl
    rcases List.mem_append.mp (String.toList_append ▸ member) with inside | inside
    · exact List.all_eq_true.mp words c inside
    · exact numeral offset c inside
  | unmatched offset =>
    have words : ("input is not a definition (stopped at offset ".toList.all isPlain) = true := by rfl
    have closing : (")".toList.all isPlain) = true := by rfl
    rcases List.mem_append.mp (String.toList_append ▸ member) with inside | inside
    · rcases List.mem_append.mp (String.toList_append ▸ inside) with inside | inside
      · exact List.all_eq_true.mp words c inside
      · exact numeral offset c inside
    · exact List.all_eq_true.mp closing c inside

theorem line_eq (error : ReadError) :
    "Error: " ++ (InputError.unread error).listing.line ++ "\n" = error.line := by
  have joined (message : String) : "Error: " ++ ("Custom" ++ " \x7b" ++ " " ++
      ("kind" ++ ": " ++ "InvalidInput" ++ ", " ++ ("error" ++ ": " ++ ("\"" ++ message ++ "\""))) ++ " " ++
      "\x7d") ++ "\n" = "Error: Custom \x7b kind: InvalidInput, error: \"" ++ message ++ "\" \x7d\n" := by
    apply String.toList_inj.mp
    simp
  simp only [InputError.listing, InputError.kindName, InputError.message, Listing.record, List.map_cons,
    List.map_nil, Listing.line, Listing.lineParts, Enclosure.opening, Enclosure.padding, Enclosure.closing,
    quoted_plain error.isPlain_message]
  exact joined error.message

end ReadError

def Token.lines (tokens : List Token) : String :=
  String.join (tokens.map fun token => token.display ++ "\n")

namespace Printout

theorem refusal_unread (told : String) (error : ReadError) :
    refusal told (.unread error) = ⟨1, "", told ++ error.line⟩ := by
  have err : told ++ "Error: " ++ (InputError.unread error).listing.line ++ "\n" = told ++ error.line := by
    have line := congrArg (told ++ ·) error.line_eq
    simpa only [String.append_assoc] using line
  exact congrArg (Printout.mk 1 "") err

theorem refusal_notUtf8 : refusal "" .notUtf8 = ⟨1, "",
    "Error: Error \x7b kind: InvalidData, message: \"stream did not contain valid UTF-8\" \x7d\n"⟩ := by
  rfl

theorem ofReading_error {told : String} {shown : Definition → String} (error : ReadError) :
    ofReading told shown (.error error) = ⟨1, "", told ++ error.line⟩ :=
  refusal_unread told error

end Printout

/-! ## One source -/

namespace Command

/-- What the listing makes of a source if sources are parsed in the given way. -/
def listBy (parser : String → Except ReadError Definition) (source : String) : Printout :=
  let told := Token.lines (yieldedTokens source)
  match tokenize source with
  | .ok _ => .ofReading told spellOut (parser source)
  | .error error => .refusal told (.unread error)

theorem listBy_parse (source : String) : listBy parse source = listing.runSource source := by
  rw [listBy, tokenize, runSource]
  cases Item.tokens (TokenStream.ofSource source).items <;> rfl

/-- How far a source is lexed, behind the given tokens, and what that means for parsing it. -/
inductive Told (source : String) (tokens : List Token) : Prop where
  | throughout (lexed : tokenize source = .ok tokens)
      (unfailing : ∀ place, parse source ≠ .error (.lexing place))
  | upTo {place : Nat} (items : (TokenStream.ofSource source).items = tokens.map Item.token ++ [.failure place])
      (failed : tokenize source = .error (.lexing place)) (refused : parse source = .error (.lexing place))
      (unparsed : ∀ parser, listing.runSource source = listBy parser source)

theorem parse_ne_lexing {source : String} {tokens : List Token} {finish : Token}
    (items : (TokenStream.ofSource source).items = (tokens ++ [finish]).map Item.token) (place : Nat) :
    parse source ≠ .error (.lexing place) := by
  intro refused
  cases ended : (wholeReading source).outcome with
  | matched result =>
    rw [parse_eq_ok.mpr ⟨result.2, ended⟩] at refused
    cases refused
  | failed offset =>
    obtain ⟨other, here⟩ := Reader.steady_whole.failed ended
    have member := List.mem_of_getElem? here
    simp [items] at member
  | noMatch =>
    obtain ⟨_, token, -, -, -, parsed⟩ := parse_of_noMatch_of_tokens items ended
    rw [parsed] at refused
    cases refused

theorem told_yieldedTokens (source : String) : Told source (yieldedTokens source) := by
  rcases tokenize_cases source with
    ⟨tokens, place, lexed, items, -⟩ | ⟨tokens, place, failed, items, ordinary⟩
  · have yielded : yieldedTokens source = tokens ++ [.finish place] := by
      rw [yieldedTokens, items, Item.filterMap_token?]
    rw [yielded]
    exact .throughout lexed (parse_ne_lexing items)
  · have yielded : yieldedTokens source = tokens := by
      rw [yieldedTokens, items, List.filterMap_append, Item.filterMap_token?]
      exact List.append_nil tokens
    rw [yielded]
    refine .upTo items failed (parse_of_failure items ordinary) fun parser => ?_
    rw [← listBy_parse, listBy, listBy, failed]

theorem runSource_graph (source : String) :
    graph.runSource source = .ofReading "" Definition.dot (parse source) :=
  rfl

theorem runSource_listing (source : String) : listing.runSource source =
    .ofReading (Token.lines (yieldedTokens source)) spellOut (parse source) := by
  rw [← listBy_parse, listBy]
  cases told_yieldedTokens source with
  | throughout lexed => rw [lexed]
  | upTo items failed refused =>
    rw [failed, refused]
    rfl

end Command

/-! ## All inputs -/

/-- Both commands refuse an input that encodes no text, or the text of which is no definition, and leave the
same last line; before that the listing tells the tokens up to where lexing fails, or all of them. -/
theorem commands_agree (input : ByteArray) :
    (String.fromUTF8? input = none → ∀ command : Command, command.run input = ⟨1, "",
      "Error: Error \x7b kind: InvalidData, message: \"stream did not contain valid UTF-8\" \x7d\n"⟩) ∧
    ∀ source, String.fromUTF8? input = some source →
      (∀ command : Command, (command.run input).code = 0 ↔ ∃ d, parse source = .ok d) ∧
      ∃ tokens, Command.Told source tokens ∧
        (∀ d, parse source = .ok d → Command.graph.run input = ⟨0, d.dot, ""⟩ ∧
          Command.listing.run input = ⟨0, Command.spellOut d, Token.lines tokens⟩) ∧
        ∀ error, parse source = .error error → Command.graph.run input = ⟨1, "", error.line⟩ ∧
          Command.listing.run input = ⟨1, "", Token.lines tokens ++ error.line⟩ := by
  refine ⟨fun noText command => ?_, fun source text => ?_⟩
  · rw [Command.run, noText]
    exact Printout.refusal_notUtf8
  · have run (command : Command) : command.run input = command.runSource source := by
      rw [Command.run, text]
    have accepted (d : Definition) (parsed : parse source = .ok d) :
        Command.graph.run input = ⟨0, d.dot, ""⟩ ∧ Command.listing.run input =
          ⟨0, Command.spellOut d, Token.lines (yieldedTokens source)⟩ := by
      rw [run, run, Command.runSource_graph, Command.runSource_listing, parsed]
      exact ⟨rfl, rfl⟩
    have refused (error : ReadError) (parsed : parse source = .error error) :
        Command.graph.run input = ⟨1, "", error.line⟩ ∧ Command.listing.run input =
          ⟨1, "", Token.lines (yieldedTokens source) ++ error.line⟩ := by
      rw [run, run, Command.runSource_graph, Command.runSource_listing, parsed, Printout.ofReading_error,
        Printout.ofReading_error, String.empty_append]
      exact ⟨rfl, rfl⟩
    refine ⟨fun command => ?_, _, Command.told_yieldedTokens source, accepted, refused⟩
    cases parsed : parse source with
    | ok d =>
      obtain ⟨graph, listing⟩ := accepted d parsed
      cases command with
      | listing => simp [listing]
      | graph => simp [graph]
    | error error =>
      obtain ⟨graph, listing⟩ := refused error parsed
      cases command with
      | listing => simp [listing]
      | graph => simp [graph]

end Definiens
