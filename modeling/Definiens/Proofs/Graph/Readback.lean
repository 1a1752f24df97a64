import Definiens.Graph.Dot
import Definiens.Proofs.Text.Legibility

/-!
# Reading a drawing back

Nothing in the text of a graph has to be taken on trust: what a node shows, its sort, the text of its token
and the place of that, can be read back from its statement, and so can the edges and the end of the graph.
The text of a token may hold anything, statements of nodes and edges included.  It is escaped, and the mark
behind it, which is not, shows where it ends.
-/

namespace Definiens

open Text

/-! ## Escaped texts -/

/-- The character begins a text, and is a mark that stands for itself there. -/
def ClosesField (behind : List Char) : Prop :=
  ∃ mark ∈ behind.head?, isRecordMark mark = true ∧ mark ≠ '\\'

theorem legible_escapeRecordChar : Legible escapeRecordChar fun _ => True := by
  intro c d behind behind' _ _ same
  have slash : isRecordMark '\\' = true := by decide
  unfold escapeRecordChar at same
  split at same
  next marked =>
    split at same
    next => simpa using same
    next plain =>
      -- an escaped mark begins with a backslash, which does not stand for itself
      cases same
      exact absurd slash plain
  next plain =>
    split at same
    next =>
      cases same
      exact absurd slash plain
    next => simpa using same

/-- An escaped text ends at the first mark that is not escaped. -/
theorem legible_escapeRecord : Legible (fun text => (escapeRecord text).toList) ClosesField := by
  have row : Legible (fun text : List Char => text.flatMap escapeRecordChar) ClosesField := by
    refine legible_escapeRecordChar.flatMap.mono ?_
    rintro behind ⟨mark, first, marked, notSlash⟩ c rest rfl
    unfold escapeRecordChar at first
    split at first
    next =>
      cases first
      exact notSlash rfl
    next plain =>
      cases first
      exact plain marked
  intro text other behind behind' stops stops' same
  simp only [escapeRecord, String.toList_ofList] at same
  obtain ⟨texts, rest⟩ := row stops stops' same
  exact ⟨String.toList_inj.mp texts, rest⟩

theorem escapeRecord_injective : Function.Injective escapeRecord := by
  intro text other same
  have closed : ClosesField ['"'] := ⟨'"', rfl, by decide, by decide⟩
  have shown : (escapeRecord text).toList ++ ['"'] = (escapeRecord other).toList ++ ['"'] := by rw [same]
  exact (legible_escapeRecord closed closed shown).1

/-- The marks of a text that stand for themselves, in order.  A backslash escapes the character behind it. -/
def bareMarks (escaped : Bool) : List Char → List Char
  | [] => []
  | c :: text =>
    if escaped then bareMarks false text
    else if c = '\\' then bareMarks true text
    else if isRecordMark c then c :: bareMarks false text
    else bareMarks false text

section

variable {text behind : List Char}

theorem bareMarks_plain (plain : ∀ c ∈ text, (!isRecordMark c) = true) :
    bareMarks false (text ++ behind) = bareMarks false behind := by
  induction text with
  | nil => rfl
  | cons c text ih =>
    obtain ⟨here, others⟩ := List.forall_mem_cons.mp plain
    have noSlash : c ≠ '\\' := by
      rintro rfl
      cases here
    rw [Bool.not_eq_true'] at here
    simp only [List.cons_append, bareMarks, noSlash, here, ih others, if_false, Bool.false_eq_true]

theorem bareMarks_escaped :
    bareMarks false (text.flatMap escapeRecordChar ++ behind) = bareMarks false behind := by
  induction text with
  | nil => rfl
  | cons c text ih =>
    rw [List.flatMap_cons, List.append_assoc]
    by_cases marked : isRecordMark c = true
    · rw [escapeRecordChar, if_pos marked]
      exact ih
    · have alone : ∀ d ∈ escapeRecordChar c, (!isRecordMark d) = true := by
        simp [escapeRecordChar, marked]
      rw [bareMarks_plain alone, ih]

theorem bareMarks_numeral (n : Nat) :
    bareMarks false ((toString n).toList ++ behind) = bareMarks false behind := by
  refine bareMarks_plain fun c member => ?_
  have digit := isDigit_of_mem_numeral member
  simp only [isRecordMark, Bool.not_eq_true', Bool.or_eq_false_iff, beq_eq_false_iff_ne]
  refine ⟨⟨⟨⟨⟨⟨?_, ?_⟩, ?_⟩, ?_⟩, ?_⟩, ?_⟩, ?_⟩
  all_goals
    rintro rfl
    cases digit

end

/-! ## Statements -/

/-- What the statement of a node shows. -/
structure Node.Fields where
  sort : String
  text : String
  offset : Nat
  /-- The sort is written as it is, and the field ends where a bar stands. -/
  plain : ∀ c ∈ sort.toList, (!isRecordMark c) = true

theorem Node.plain_sort (node : Node) : ∀ c ∈ node.sort.toList, (!isRecordMark c) = true := by
  cases node <;> simp [sort, isRecordMark]

def Node.fields (node : Node) : Node.Fields :=
  ⟨node.sort, node.token.text, node.token.offset, node.plain_sort⟩

def Node.Fields.dot (number : Nat) (fields : Node.Fields) : String :=
  "  " ++ dotName number ++ " [shape=record, label=\"" ++ ("\x7b" ++ fields.sort ++ "|" ++
    escapeRecord fields.text ++ "|@" ++ toString fields.offset ++ "\x7d") ++ "\"];\n"

theorem Node.dot_eq (number : Nat) (node : Node) : node.dot number = node.fields.dot number :=
  rfl

theorem Node.Fields.toList_dot (number : Nat) (fields : Node.Fields) (behind : List Char) :
    (fields.dot number).toList ++ behind =
      [' ', ' ', 'n'] ++ ((toString number).toList ++ (' ' :: ("[shape=record, label=\"".toList ++ ('\x7b' ::
        (fields.sort.toList ++ ('|' :: ((escapeRecord fields.text).toList ++ ('|' :: '@' ::
          ((toString fields.offset).toList ++ ('\x7d' :: ("\"];\n".toList ++ behind))))))))))) := by
  simp only [dot, dotName, String.toList_append, List.append_assoc]
  rfl

theorem Edge.toList_dot (edge : Edge) (behind : List Char) :
    edge.dot.toList ++ behind =
      [' ', ' ', 'n'] ++ ((toString edge.tail).toList ++ (' ' :: ("-> n".toList ++
        ((toString edge.head).toList ++ (';' :: '\n' :: behind))))) := by
  simp only [dot, dotName, String.toList_append, List.append_assoc]
  rfl

/-- The marks of a statement are the quotation marks and the marks of a record with three fields: the text of
the token adds none. -/
theorem Node.bareMarks_dot (number : Nat) (node : Node) :
    bareMarks false (node.dot number).toList = ['"', '\x7b', '|', '|', '\x7d', '"'] := by
  have quote (text : List Char) : bareMarks false (' ' :: ("[shape=record, label=\"".toList ++ text)) =
    '"' :: bareMarks false text := rfl
  have brace (text : List Char) : bareMarks false ('\x7b' :: text) = '\x7b' :: bareMarks false text := rfl
  have bar (text : List Char) : bareMarks false ('|' :: text) = '|' :: bareMarks false text := rfl
  have begins (text : List Char) : bareMarks false ([' ', ' ', 'n'] ++ text) = bareMarks false text := rfl
  have place (text : List Char) : bareMarks false ('@' :: text) = bareMarks false text := rfl
  rw [Node.dot_eq, ← List.append_nil (Node.Fields.dot _ _).toList, Node.Fields.toList_dot, begins,
    bareMarks_numeral, quote, brace, bareMarks_plain node.fields.plain, bar, escapeRecord,
    String.toList_ofList, bareMarks_escaped, bar, place, bareMarks_numeral]
  rfl

theorem legible_fields :
    Legible (fun entry : Nat × Node.Fields => (entry.2.dot entry.1).toList) fun _ => True := by
  rintro ⟨number, sort, text, offset, plain⟩ ⟨number', sort', text', offset', plain'⟩ behind behind' _ _ same
  rw [Node.Fields.toList_dot, Node.Fields.toList_dot] at same
  have bar (others : List Char) : ∀ c ∈ ('|' :: others).head?, (!isRecordMark c) = false :=
    stops_cons (by decide)
  have closed (others : List Char) : ClosesField ('|' :: others) := ⟨'|', rfl, by decide, by decide⟩
  obtain ⟨rfl, label⟩ := legible_numeral (stops_cons rfl) (stops_cons rfl) (List.append_cancel_left same)
  obtain ⟨sorts, field⟩ := longest_run_unique plain (bar _) plain' (bar _)
    (List.cons.inj (List.append_cancel_left (List.cons.inj label).2)).2
  obtain ⟨rfl, place⟩ := legible_escapeRecord (closed _) (closed _) (List.cons.inj field).2
  obtain ⟨rfl, rest⟩ := legible_numeral (stops_cons rfl) (stops_cons rfl)
    (List.cons.inj (List.cons.inj place).2).2
  cases String.toList_inj.mp sorts
  exact ⟨rfl, List.append_cancel_left (List.cons.inj rest).2⟩

theorem legible_edges : Legible (fun edge : Edge => edge.dot.toList) fun _ => True := by
  rintro ⟨tail, head⟩ ⟨tail', head'⟩ behind behind' _ _ same
  rw [Edge.toList_dot, Edge.toList_dot] at same
  obtain ⟨rfl, arrow⟩ := legible_numeral (stops_cons rfl) (stops_cons rfl) (List.append_cancel_left same)
  obtain ⟨rfl, rest⟩ := legible_numeral (stops_cons rfl) (stops_cons rfl)
    (List.append_cancel_left (List.cons.inj arrow).2)
  exact ⟨rfl, (List.cons.inj (List.cons.inj rest).2).2⟩

/-! ## Graphs -/

theorem ending_ne_edge (edge : Edge) (rest : List Char) : ['\x7d', '\n'] ≠ edge.dot.toList ++ rest := by
  rw [Edge.toList_dot]
  simp

theorem edges_ne_fields (edges : List Edge) (entry : Nat × Node.Fields) (rest : List Char) :
    edges.flatMap (fun edge => edge.dot.toList) ++ ['\x7d', '\n'] ≠
      (entry.2.dot entry.1).toList ++ rest := by
  rw [Node.Fields.toList_dot]
  cases edges with
  | nil => simp
  | cons edge edges =>
    rw [List.flatMap_cons, List.append_assoc, Edge.toList_dot]
    intro same
    obtain ⟨-, arrow⟩ := legible_numeral (stops_cons rfl) (stops_cons rfl) (List.append_cancel_left same)
    exact absurd (congrArg (·[1]?) arrow) (by simp)

namespace Graph

def entries (first : Nat) : List Node → List (Nat × Node.Fields)
  | [] => []
  | node :: nodes => (first, node.fields) :: entries (first + 1) nodes

theorem map_entries (first : Nat) (nodes : List Node) :
    (entries first nodes).map Prod.snd = nodes.map Node.fields := by
  induction nodes generalizing first with
  | nil => rfl
  | cons node nodes ih => rw [entries, List.map_cons, List.map_cons, ih]

theorem toList_dotNodes (first : Nat) (nodes : List Node) :
    (String.join (dotNodes first nodes)).toList =
      (entries first nodes).flatMap fun entry => (entry.2.dot entry.1).toList := by
  induction nodes generalizing first with
  | nil => rfl
  | cons node nodes ih =>
    rw [dotNodes, String.join_cons, String.toList_append, ih, entries, List.flatMap_cons, Node.dot_eq]

theorem toList_dotEdges (edges : List Edge) :
    (String.join (edges.map Edge.dot)).toList = edges.flatMap fun edge => edge.dot.toList := by
  induction edges with
  | nil => rfl
  | cons edge edges ih =>
    rw [List.map_cons, String.join_cons, String.toList_append, ih, List.flatMap_cons]

/-- The text of a graph tells what its nodes show, in the order of their numbers, and its edges. -/
theorem dot_inj {graph graph' : Graph} (same : graph.dot = graph'.dot) :
    graph.nodes.map Node.fields = graph'.nodes.map Node.fields ∧ graph.edges = graph'.edges := by
  have chars := congrArg String.toList same
  simp only [dot, String.toList_append, toList_dotNodes, toList_dotEdges, List.append_assoc] at chars
  have statements := List.append_cancel_left chars
  obtain ⟨nodes, lines⟩ := legible_fields.flatMap (edges_ne_fields _) (edges_ne_fields _) statements
  obtain ⟨edges, -⟩ := legible_edges.flatMap ending_ne_edge ending_ne_edge lines
  refine ⟨?_, edges⟩
  rw [← map_entries 0, nodes, map_entries]

end Graph

end Definiens
