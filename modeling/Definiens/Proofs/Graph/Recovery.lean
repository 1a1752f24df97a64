import Definiens.Proofs.Grammar.Anchors
import Definiens.Proofs.Grammar.Whole
import Definiens.Proofs.Graph.Readback
import Definiens.Proofs.Graph.Shape
import Definiens.Proofs.Token.Classes

/-!
# A drawing gives back its definition

A drawing shows no kinds, no lengths and no operators, and it does not say whether a predicate is a type or
membership.  They can be recovered all the same: a node of a tree stands on a lexeme of the source, the sort
of the node says which kinds that may have, and of those the spelling decides.
-/

namespace Definiens

open Text

/-! ## Lexemes by their spelling -/

/-- The token is a lexeme of its kind in front of some text, and has the length of its text. -/
structure Token.IsLexeme (token : Token) : Prop where
  classified : ∃ behind, Lexeme.Classified behind token.kind token.text.toList
  length_eq : token.length = byteLength token.text.toList

theorem isLexeme_of_yielded {source : String} {token : Token} (yielded : token ∈ yieldedTokens source)
    (proper : token.kind ≠ .finish) : token.IsLexeme := by
  obtain ⟨behind, ⟨-, -, -, -, here, -⟩, classified⟩ := exists_classified yielded proper
  exact ⟨⟨behind, classified⟩, Nat.add_left_cancel here.stop_eq⟩

theorem Token.IsLexeme.ofKeyword? {token : Token} (lexeme : token.IsLexeme)
    (keyword : token.kind ∈ keywords.map Prod.snd) :
    Kind.ofKeyword? token.text.toList = some token.kind := by
  obtain ⟨behind, classified⟩ := lexeme.classified
  generalize token.text.toList = text, token.kind = kind at *
  cases classified with
  | keyword listed apart => exact Kind.ofKeyword?_eq_some_iff.mpr ⟨_, listed, rfl⟩
  | mark listed noArrow =>
    have table : ∀ mark ∈ marks, mark.2 ∉ keywords.map Prod.snd := by decide
    exact absurd keyword (table _ listed)
  | typeLiteral => exact absurd keyword (by decide)
  | symbol => exact absurd keyword (by decide)

theorem Token.IsLexeme.text_ne_membership {token : Token} (lexeme : token.IsLexeme)
    (type : token.kind = .type) : token.text ≠ PredicateName.membershipSymbol := by
  obtain ⟨behind, classified⟩ := lexeme.classified
  intro spelled
  rw [spelled, type] at classified
  generalize text : PredicateName.membershipSymbol.toList = chars at classified
  cases classified with
  | keyword listed => exact absurd rfl (kind_of_mem_keywords listed).1
  | mark listed => exact absurd rfl (kind_of_mem_marks listed).1
  | typeLiteral => cases text

/-! ## Nodes by what they show -/

/-- The kind of the token on which a node of some sort stands, by the spelling of the token. -/
def Kind.ofShown (sort text : String) : Kind :=
  match sort with
  | "def" => .define
  | "equal" => .equals
  | "negation" => .bang
  | "type" => .type
  | "predicate" => if text = PredicateName.membershipSymbol then .symbol else .type
  | "variable" | "function" | "symbol" => .symbol
  | _ => (Kind.ofKeyword? text.toList).getD .finish

def Node.ofToken? (sort : String) (token : Token) : Option Node :=
  match sort with
  | "def" => some (.definition token)
  | "equal" => some (.equal token)
  | "negation" => some (.negation token)
  | "connective" => (Connective.ofKind? token.kind).map (.connective token)
  | "quantifier" => (Quantifier.ofKind? token.kind).map (.quantifier token)
  | "predicate" => (PredicateName.ofToken? token).map .predicate
  | "variable" => some (.var ⟨token⟩)
  | "function" => some (.function token)
  | "type" => some (.type ⟨token⟩)
  | "symbol" => some (.symbol ⟨token⟩)
  | _ => none

def Node.Fields.node? (fields : Node.Fields) : Option Node :=
  Node.ofToken? fields.sort
    ⟨Kind.ofShown fields.sort fields.text, fields.text, fields.offset, byteLength fields.text.toList⟩

namespace Node

variable {node : Node}

theorem ofToken?_eq (anchored : node.Anchored) : ofToken? node.sort node.token = some node := by
  cases node with
  | connective token op =>
    have known := Connective.ofKind?_eq_some.mpr anchored
    simp [ofToken?, sort, Node.token, known]
  | quantifier token kind =>
    have known := Quantifier.ofKind?_eq_some.mpr anchored
    simp [ofToken?, sort, Node.token, known]
  | predicate name =>
    have known := PredicateName.ofToken?_eq_some.mpr ⟨rfl, anchored⟩
    simp [ofToken?, sort, Node.token, known]
  | _ => rfl

theorem kind_eq (anchored : node.Anchored) (lexeme : node.token.IsLexeme) :
    Kind.ofShown node.sort node.token.text = node.token.kind := by
  cases node with
  | connective token op =>
    have keyword : token.kind ∈ keywords.map Prod.snd := by
      rw [show token.kind = op.kind from anchored]
      cases op <;> decide
    have known := lexeme.ofKeyword? keyword
    simp only [Node.token] at known
    simp [Kind.ofShown, sort, Node.token, known]
  | quantifier token kind =>
    have keyword : token.kind ∈ keywords.map Prod.snd := by
      rw [show token.kind = kind.kind from anchored]
      cases kind <;> decide
    have known := lexeme.ofKeyword? keyword
    simp only [Node.token] at known
    simp [Kind.ofShown, sort, Node.token, known]
  | predicate name =>
    cases anchored with
    | type type =>
      have apart := lexeme.text_ne_membership type
      simp only [Node.token, PredicateName.token] at apart
      simp [Kind.ofShown, sort, Node.token, PredicateName.token, type, apart]
    | membership symbol spelled =>
      simp [Kind.ofShown, sort, Node.token, PredicateName.token, symbol, spelled]
  | symbol literal => exact anchored.1.symm
  | _ => exact Eq.symm anchored

theorem node?_fields (anchored : node.Anchored) (lexeme : node.token.IsLexeme) :
    node.fields.node? = some node := by
  rw [Fields.node?]
  simp only [fields, kind_eq anchored lexeme, ← lexeme.length_eq]
  exact ofToken?_eq anchored

theorem Anchored.kind_ne_finish (anchored : node.Anchored) : node.token.kind ≠ .finish := by
  intro finish
  cases node with
  | connective token op => cases op <;> cases finish.symm.trans anchored
  | quantifier token kind => cases kind <;> cases finish.symm.trans anchored
  | predicate name =>
    cases anchored with
    | type type => cases finish.symm.trans type
    | membership symbol spelled => cases finish.symm.trans symbol
  | symbol literal => cases finish.symm.trans anchored.1
  | _ => cases finish.symm.trans anchored

end Node

/-! ## Trees that have been read -/

mutual

theorem Term.token_mem : (t : Term) → ∀ node ∈ t.outline.preorder, node.token ∈ t.tokens
  | .var v, node, member => by
    cases List.mem_singleton.mp member
    exact List.mem_singleton_self _
  | .function token args, node, member => by
    rcases List.mem_cons.mp member with rfl | below
    · exact List.mem_cons_self
    · exact List.mem_cons_of_mem _ (Term.token_mem_list args node below)

theorem Term.token_mem_list : (ts : List Term) → ∀ node ∈ Outline.preorders (Term.outlines ts),
    node.token ∈ Term.listTokens ts
  | [], _, member => nomatch member
  | t :: ts, node, member => by
    rcases List.mem_append.mp member with here | behind
    · exact List.mem_append_left _ (Term.token_mem t node here)
    · exact List.mem_append_right _ (Term.token_mem_list ts node behind)

end

theorem Formula.token_mem (f : Formula) : ∀ node ∈ f.outline.preorder, node.token ∈ f.tokens := by
  induction f with
  | equal token lhs rhs =>
    intro node member
    simp only [outline, Outline.preorder, Outline.preorders, List.append_nil, List.mem_cons,
      List.mem_append] at member
    rw [tokens, List.mem_append, List.mem_cons]
    rcases member with rfl | left | right
    · exact Or.inr (Or.inl rfl)
    · exact Or.inl (lhs.token_mem node left)
    · exact Or.inr (Or.inr (rhs.token_mem node right))
  | negation token inner ih =>
    intro node member
    simp only [outline, Outline.preorder, Outline.preorders, List.append_nil, List.mem_cons] at member
    rw [tokens, List.mem_cons]
    exact member.imp (congrArg Node.token) (ih node)
  | connective token op lhs rhs ihl ihr =>
    intro node member
    simp only [outline, Outline.preorder, Outline.preorders, List.append_nil, List.mem_cons,
      List.mem_append] at member
    rw [tokens, List.mem_append, List.mem_cons]
    rcases member with rfl | left | right
    · exact Or.inr (Or.inl rfl)
    · exact Or.inl (ihl node left)
    · exact Or.inr (Or.inr (ihr node right))
  | quantifier token kind bound body ih =>
    intro node member
    simp only [outline, Outline.preorder, Outline.preorders, List.append_nil, List.singleton_append,
      List.mem_cons] at member
    rw [tokens, List.mem_cons, List.mem_cons]
    exact member.imp (congrArg Node.token) (Or.imp (congrArg Node.token) (ih node))
  | predicate name args =>
    intro node member
    rw [outline, Outline.preorder, List.mem_cons] at member
    rw [tokens, List.mem_cons]
    exact member.imp (congrArg Node.token) (Term.token_mem_list args node)

theorem Definition.token_mem (d : Definition) : ∀ node ∈ d.outline.preorder, node.token ∈ d.tokens := by
  intro node member
  simp only [outline, Outline.preorder, Outline.preorders, List.append_nil, List.singleton_append,
    List.mem_cons] at member
  rw [tokens, List.mem_cons, List.mem_cons]
  exact member.imp (congrArg Node.token) (Or.imp (congrArg Node.token) (d.body.token_mem node))

/-- What a source is parsed as is written by some of its tokens. -/
theorem exists_written_of_parse {source : String} {d : Definition} (read : parse source = .ok d) :
    ∃ tokens, d.Written tokens ∧ tokens.Sublist (yieldedTokens source) := by
  obtain ⟨stop, matched⟩ := parse_eq_ok.mp read
  obtain ⟨middle, finish, found, -, -, -⟩ := Reader.matched_whole.mp matched
  obtain ⟨tokens, stands, written⟩ := spans_of_matched_definition found
  exact ⟨tokens, written, stands.sublist⟩

/-- The nodes of a definition that has been read are what they show. -/
theorem map_node?_fields {source : String} {d : Definition} (read : parse source = .ok d) :
    (d.graph.nodes.map Node.fields).map Node.Fields.node? = d.graph.nodes.map some := by
  obtain ⟨tokens, written, part⟩ := exists_written_of_parse read
  rw [List.map_map]
  refine List.map_congr_left fun node member => ?_
  have anchored := written.anchored node member
  have kept := d.token_mem node member
  rw [written.tokens_eq] at kept
  have yielded := part.subset (List.mem_of_mem_filter kept)
  exact node.node?_fields anchored (isLexeme_of_yielded yielded anchored.kind_ne_finish)

/-- The drawings of two definitions that have been read are the same only if the definitions are, with all
their tokens.  Escaping can be undone, and whatever the text of a token, the label of its node ends where it
should. -/
theorem drawing_determines_definition {source source' : String} {d d' : Definition}
    (read : parse source = .ok d) (read' : parse source' = .ok d') :
    (d.dot = d'.dot ↔ d = d') ∧ Function.Injective escapeRecord ∧
      ∀ number, ∀ node ∈ d.graph.nodes,
        bareMarks false (node.dot number).toList = ['"', '\x7b', '|', '|', '\x7d', '"'] := by
  refine ⟨⟨fun same => ?_, congrArg Definition.dot⟩, escapeRecord_injective,
    fun number node _ => node.bareMarks_dot number⟩
  obtain ⟨shown, edges⟩ := Graph.dot_inj same
  have nodes := congrArg (List.map Node.Fields.node?) shown
  rw [map_node?_fields read, map_node?_fields read'] at nodes
  have graphs : d.graph = d'.graph := by
    rw [Graph.mk.injEq]
    exact ⟨List.map_injective_iff.mpr (Option.some_injective Node) nodes, edges⟩
  exact Definition.eq_of_graph graphs

/-- The name of a type may go on as a drawing does, with its marks escaped or not. -/
theorem imitations_are_drawn_apart :
    ∃ d d', parse "def type[a] \x7b type[|@9\x7d\";\n  n1 -> n2;\n](x) \x7d" = .ok d ∧
      parse "def type[a] \x7b type[\\|@9\\\x7d\\\";\n  n1 -> n2;\n](x) \x7d" = .ok d' ∧ d.dot ≠ d'.dot ∧
      ∀ node ∈ d.graph.nodes,
        bareMarks false (node.dot 2).toList = ['"', '\x7b', '|', '|', '\x7d', '"'] := by
  let drawn (spelling : String) (length place : Nat) : Definition :=
    ⟨⟨.define, "def", 0, 3⟩, ⟨⟨.type, "type[a]", 4, 7⟩⟩,
      .predicate (.type ⟨⟨.type, spelling, 14, length⟩⟩) [.var ⟨⟨.symbol, "x", place, 1⟩⟩]⟩
  have read : parse "def type[a] \x7b type[|@9\x7d\";\n  n1 -> n2;\n](x) \x7d" =
      .ok (drawn "type[|@9\x7d\";\n  n1 -> n2;\n]" 25 40) := by
    decide +kernel
  have read' : parse "def type[a] \x7b type[\\|@9\\\x7d\\\";\n  n1 -> n2;\n](x) \x7d" =
      .ok (drawn "type[\\|@9\\\x7d\\\";\n  n1 -> n2;\n]" 28 43) := by
    decide +kernel
  obtain ⟨same_iff, -, labels⟩ := drawing_determines_definition read read'
  refine ⟨_, _, read, read', ?_, labels 2⟩
  rw [Ne, same_iff]
  decide

end Definiens
