import Definiens.Proofs.Command.Agreement
import Definiens.Proofs.Token.Display

/-!
# Reading the lines of a listing back

The listing tells the tokens of a source one to a line, and the line that refuses a source, if there is one,
comes last.  No token is displayed by the beginning of such a line, so that what the listing tells stops there,
and the lines before it are those of one sequence of tokens only.
-/

namespace Definiens

open Text

namespace Token

def line (token : Token) : List Char := token.display.toList ++ ['\n']

theorem toList_lines (tokens : List Token) : (lines tokens).toList = tokens.flatMap line := by
  induction tokens with
  | nil => rfl
  | cons token tokens ih =>
    rw [lines] at ih ⊢
    rw [List.map_cons, String.join_cons, String.toList_append, String.toList_append, ih, List.flatMap_cons]
    rfl

theorem legible_line : Legible line fun _ => True := by
  intro token other behind behind' _ _ same
  rw [line, line, List.append_assoc, List.append_assoc] at same
  obtain ⟨rfl, rest⟩ := legible_display (stops_cons rfl) (stops_cons rfl) same
  exact ⟨rfl, (List.cons.inj rest).2⟩

theorem exists_line_eq (error : ReadError) :
    ∃ words, error.line.toList = "Error".toList ++ (':' :: words) := by
  have begun : "Error: Custom \x7b kind: InvalidInput, error: \"".toList =
      "Error".toList ++ (':' :: " Custom \x7b kind: InvalidInput, error: \"".toList) := by decide
  have parts (front message back : String) :
      (front ++ message ++ back).toList = front.toList ++ (message ++ back).toList := by
    simp only [String.toList_append, List.append_assoc]
  have whole := (parts _ error.message "\" \x7d\n").trans
    (congrArg (· ++ (error.message ++ "\" \x7d\n").toList) begun)
  exact ⟨_, whole.trans (List.append_assoc _ _ _)⟩

/-- What may stand behind the lines of some tokens: nothing, or the line of a refusal. -/
inductive Ending : List Char → Prop where
  | nothing : Ending []
  | refusal (error : ReadError) : Ending error.line.toList

/-- No line of a token begins where the lines of the tokens end. -/
theorem Ending.ne_line {ending : List Char} (ends : Ending ending) (token : Token) (rest : List Char) :
    ending ≠ token.line ++ rest := by
  rw [line, List.append_assoc, toList_display]
  cases ends with
  | nothing => simp
  | refusal error =>
    -- the letters at the beginning would be the name of a kind
    intro same
    obtain ⟨words, spelled⟩ := exists_line_eq error
    rw [spelled] at same
    have letters : "Error".toList.all Char.isAlpha = true := by rfl
    obtain ⟨name, -⟩ := longest_run_unique (List.all_eq_true.mp letters) (stops_cons rfl)
      (fun _ member => (Kind.letter_of_mem_name member).1) (stops_cons rfl) same
    have other : ∀ kind : Kind, kind.name ≠ "Error" := by
      intro kind
      cases kind <;> decide
    exact other _ (String.toList_inj.mp name).symm

/-- Lines tell their tokens, whatever they end with. -/
theorem lines_append_inj {tokens others : List Token} {ending ending' : List Char} (ends : Ending ending)
    (ends' : Ending ending') (same : (lines tokens).toList ++ ending = (lines others).toList ++ ending') :
    tokens = others := by
  rw [toList_lines, toList_lines] at same
  exact (legible_line.flatMap ends.ne_line ends'.ne_line same).1

end Token

/-- What the listing writes about a source are the lines of its tokens and then an ending. -/
theorem Command.exists_ending (source : String) :
    ∃ ending, Token.Ending ending ∧ (Command.listing.runSource source).err.toList =
      (Token.lines (yieldedTokens source)).toList ++ ending := by
  rw [runSource_listing]
  cases parse source with
  | ok definition =>
    refine ⟨[], .nothing, ?_⟩
    rw [Printout.ofReading, List.append_nil]
  | error error =>
    rw [Printout.ofReading_error]
    exact ⟨_, .refusal error, String.toList_append⟩

/-- A token stands on one line, and no other token is displayed in the same way.  So the lines of some tokens
are the lines of no others, and what the listing writes about a source tells its tokens. -/
theorem display_is_unambiguous :
    (∀ token : Token, ∀ c ∈ token.display.toList, c ∉ lineBreaks) ∧
      (∀ token other : Token, token.display = other.display →
        token.kind = other.kind ∧ token.text = other.text ∧ token.offset = other.offset ∧
          token.length = other.length) ∧
      (∀ tokens others : List Token, Token.lines tokens = Token.lines others → tokens = others) ∧
      ∀ source source' : String,
        (Command.listing.runSource source).err = (Command.listing.runSource source').err →
          yieldedTokens source = yieldedTokens source' := by
  refine ⟨fun token c member => notMem_lineBreaks (Token.isUnprintable_of_mem_display member),
    fun token other same => ?_, fun tokens others same => ?_, fun source source' same => ?_⟩
  · cases Token.display_injective same
    exact ⟨rfl, rfl, rfl, rfl⟩
  · apply Token.lines_append_inj .nothing .nothing
    rw [same]
  · obtain ⟨ending, ends, told⟩ := Command.exists_ending source
    obtain ⟨ending', ends', told'⟩ := Command.exists_ending source'
    apply Token.lines_append_inj ends ends'
    rw [← told, ← told', same]

end Definiens
