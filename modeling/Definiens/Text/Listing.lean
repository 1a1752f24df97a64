/-!
# Structured listings

A listing spells out a value: its name and, in an enclosure, its parts.  It is written on one line,
`Pair { left: 1, right: [2, 3] }`, or with every part on a line of its own, indented by four spaces
for each enclosure around it and closed by a comma.
-/

namespace Definiens.Text

inductive Enclosure where
  | braces
  | parens
  | brackets
  deriving DecidableEq, Repr

namespace Enclosure

/-- The mark before the parts; braces are set off from the name by a space. -/
def opening : Enclosure → String
  | .braces => " \x7b"
  | .parens => "("
  | .brackets => "["

def closing : Enclosure → String
  | .braces => "\x7d"
  | .parens => ")"
  | .brackets => "]"

/-- What stands between a mark and a part on the same line. -/
def padding : Enclosure → String
  | .braces => " "
  | .parens => ""
  | .brackets => ""

end Enclosure

inductive Listing where
  | word (text : String)
  | field (label : String) (value : Listing)
  | group (name : String) (enclosure : Enclosure) (parts : List Listing)

namespace Listing

def record (name : String) (fields : List (String × Listing)) : Listing :=
  .group name .braces (fields.map fun (label, value) => .field label value)

def wrapped (name : String) (value : Listing) : Listing := .group name .parens [value]

/-- The members of a list, which has no name. -/
def list (members : List Listing) : Listing := .group "" .brackets members

mutual

def line : Listing → String
  | .word text => text
  | .field label value => label ++ ": " ++ line value
  | .group name enclosure parts =>
    name ++ enclosure.opening ++ enclosure.padding ++ lineParts parts ++ enclosure.padding ++
      enclosure.closing

def lineParts : List Listing → String
  | [] => ""
  | [part] => line part
  | part :: parts => line part ++ ", " ++ lineParts parts

end

def indentation (depth : Nat) : String := String.ofList (List.replicate (4 * depth) ' ')

mutual

/-- The listing with its parts on lines of their own, inside `depth` enclosures. -/
def indented (depth : Nat) : Listing → String
  | .word text => text
  | .field label value => label ++ ": " ++ indented depth value
  | .group name enclosure [] => name ++ enclosure.opening ++ enclosure.closing
  | .group name enclosure (part :: parts) =>
    name ++ enclosure.opening ++ "\n" ++ indentedParts (depth + 1) (part :: parts) ++
      indentation depth ++ enclosure.closing

def indentedParts (depth : Nat) : List Listing → String
  | [] => ""
  | part :: parts =>
    indentation depth ++ indented depth part ++ ",\n" ++ indentedParts depth parts

end

/-- The listing as text: on one line, or spread over as many lines as it has parts. -/
def render (spread : Bool) (listing : Listing) : String :=
  if spread then listing.indented 0 else listing.line

end Listing

end Definiens.Text
