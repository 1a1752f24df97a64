import Definiens.Grammar.Reading
import Definiens.Graph.Dot
import Definiens.Tree.Listing

/-!
# Commands

A command reads one definition and shows it: as a listing, with the tokens of the source told on the
way, or as a graph.  An input that is refused leaves nothing on the output.
-/

namespace Definiens

inductive Command where
  | listing
  | graph
  deriving DecidableEq, Repr

/-- What a command leaves behind: its exit code and what it has written. -/
structure Printout where
  code : Nat
  out : String
  err : String
  deriving DecidableEq, Repr

namespace Printout

def refusal (told : String) (error : InputError) : Printout :=
  ⟨1, "", told ++ "Error: " ++ error.listing.line ++ "\n"⟩

/-- The printout of a source that is read after some lines have been told. -/
def ofReading (told : String) (shown : Definition → String) :
    Except ReadError Definition → Printout
  | .ok definition => ⟨0, shown definition, told⟩
  | .error error => refusal told (.unread error)

end Printout

def Item.tokenLines (items : List Item) : String :=
  String.join ((items.filterMap Item.token?).map fun token => token.display ++ "\n")

namespace Command

def spellOut (definition : Definition) : String := definition.listing.render true ++ "\n"

def runSource (command : Command) (source : String) : Printout :=
  match command with
  | .listing =>
    let items := (TokenStream.ofSource source).items
    let told := Item.tokenLines items
    match Item.tokens items with
    | .ok _ => .ofReading told spellOut (parse source)
    | .error offset => .refusal told (.unread (.lexing offset))
  | .graph => .ofReading "" Definition.dot (parse source)

def run (command : Command) (input : ByteArray) : Printout :=
  match String.fromUTF8? input with
  | some source => command.runSource source
  | none => .refusal "" .notUtf8

def ofName? : String → Option Command
  | "listing" => some .listing
  | "graph" => some .graph
  | _ => none

end Command

end Definiens
