import Definiens.Proofs.Graph.Edges
import Mathlib.Data.List.Basic

/-!
# The tree behind a graph

A graph has a tree behind it, and only one.  The edges inside a child all start from the child or from below
it, so the first edge from the parent is the one to the child and ends what belongs to the child; and the
number of those edges tells how many of the nodes belong to the child.  An outline in its turn belongs to
one tree, since a node tells what its children are for.
-/

namespace Definiens

namespace Outline

/-! ## Sizes -/

theorem length_preorder (outline : Outline) : outline.preorder.length = outline.size := by
  have nodes := congrArg List.length (map_preorder outline)
  rwa [List.length_map, List.length_map, length_paths] at nodes

mutual

theorem length_edges : (outline : Outline) → ∀ root, (outline.edges root).length + 1 = outline.size
  | .node _ children, root => by rw [edges, size, length_edgesBelow children]

theorem length_edgesBelow : (children : List Outline) → ∀ parent first,
    (edgesBelow parent first children).length = sizes children
  | [], _, _ => rfl
  | child :: children, parent, first => by
    rw [edgesBelow, sizes, List.length_append, List.length_cons, length_edgesBelow children,
      ← length_edges child first]
    omega

end

/-! ## Tails -/

mutual

theorem le_tail_of_mem : (outline : Outline) → ∀ root, ∀ edge ∈ outline.edges root, root ≤ edge.tail
  | .node _ children, root => le_tail_of_mem_below children root (root + 1) (Nat.le_succ root)

theorem le_tail_of_mem_below : (children : List Outline) → ∀ parent first, parent ≤ first →
    ∀ edge ∈ edgesBelow parent first children, parent ≤ edge.tail
  | [], _, _, _, _, member => nomatch member
  | child :: children, parent, first, le, edge, member => by
    rcases List.mem_append.mp member with inside | member
    · exact Nat.le_trans le (le_tail_of_mem child first edge inside)
    · rcases List.mem_cons.mp member with rfl | behind
      · exact Nat.le_refl parent
      · exact le_tail_of_mem_below children parent _ (Nat.le_add_right_of_le le) edge behind

end

theorem notMem_edges {outline : Outline} {parent first : Nat} (less : parent < first) (head : Nat) :
    ⟨parent, head⟩ ∉ outline.edges first :=
  fun member => Nat.not_le_of_lt less (outline.le_tail_of_mem first _ member)

/-- Lists that are cut where an edge stands for the first time are cut in the same place. -/
theorem cut_at_edge {before before' behind behind' : List Edge} {edge : Edge} (first : edge ∉ before)
    (first' : edge ∉ before') (same : before ++ edge :: behind = before' ++ edge :: behind') :
    before = before' ∧ behind = behind' := by
  have place := congrArg (List.idxOf edge) same
  rw [List.idxOf_append_of_notMem first, List.idxOf_append_of_notMem first', List.idxOf_cons_self,
    List.idxOf_cons_self] at place
  obtain ⟨rfl, rest⟩ := List.append_inj same place
  exact ⟨rfl, (List.cons.inj rest).2⟩

/-! ## Outlines -/

mutual

/-- Outlines with the same nodes and the same edges are the same. -/
theorem eq_of_edges : (outline outline' : Outline) → ∀ root,
    outline.preorder = outline'.preorder → outline.edges root = outline'.edges root → outline = outline'
  | .node label children, .node label' children', root, nodes, edges => by
    obtain ⟨rfl, below⟩ := List.cons.inj nodes
    rw [eq_of_edgesBelow children children' root (root + 1) (Nat.lt_succ_self root) below edges]

theorem eq_of_edgesBelow : (children children' : List Outline) → ∀ parent first, parent < first →
    preorders children = preorders children' →
    edgesBelow parent first children = edgesBelow parent first children' → children = children'
  | [], [], _, _, _, _, _ => rfl
  | [], _ :: _, _, _, _, _, edges => by simp [edgesBelow] at edges
  | _ :: _, [], _, _, _, _, edges => by simp [edgesBelow] at edges
  | child :: children, child' :: children', parent, first, less, nodes, edges => by
    obtain ⟨within, behind⟩ := cut_at_edge (notMem_edges less first) (notMem_edges less first) edges
    have sizes : child.size = child'.size := by
      rw [← length_edges child first, within, length_edges child' first]
    obtain ⟨inside, others⟩ := List.append_inj nodes
      (by rw [length_preorder, length_preorder, sizes])
    rw [← sizes] at behind
    rw [eq_of_edges child child' first inside within,
      eq_of_edgesBelow children children' parent _ (Nat.lt_add_right _ less) others behind]

end

theorem eq_of_graph {outline outline' : Outline} (same : outline.graph = outline'.graph) :
    outline = outline' := by
  obtain ⟨nodes, edges⟩ := Graph.mk.inj same
  exact eq_of_edges outline outline' 0 nodes edges

end Outline

/-! ## Trees -/

mutual

theorem Term.eq_of_outline : (t t' : Term) → t.outline = t'.outline → t = t'
  | .var v, .var v', same => by
    obtain ⟨label, -⟩ := Outline.node.inj same
    rw [Node.var.inj label]
  | .function token args, .function token' args', same => by
    obtain ⟨label, below⟩ := Outline.node.inj same
    rw [Node.function.inj label, Term.eq_of_outlines args args' below]
  | .var _, .function _ _, same => by cases (Outline.node.inj same).1
  | .function _ _, .var _, same => by cases (Outline.node.inj same).1

theorem Term.eq_of_outlines : (ts ts' : List Term) → Term.outlines ts = Term.outlines ts' → ts = ts'
  | [], [], _ => rfl
  | [], _ :: _, same => by cases same
  | _ :: _, [], same => by cases same
  | t :: ts, t' :: ts', same => by
    obtain ⟨first, others⟩ := List.cons.inj same
    rw [Term.eq_of_outline t t' first, Term.eq_of_outlines ts ts' others]

end

theorem Formula.eq_of_outline {f f' : Formula} (same : f.outline = f'.outline) : f = f' := by
  induction f generalizing f' with
  | equal token lhs rhs =>
    cases f' with
    | equal token' lhs' rhs' =>
      simp only [outline, Outline.node.injEq, Node.equal.injEq, List.cons.injEq, and_true] at same
      obtain ⟨rfl, left, right⟩ := same
      rw [Term.eq_of_outline lhs lhs' left, Term.eq_of_outline rhs rhs' right]
    | _ => cases (Outline.node.inj same).1
  | negation token inner ih =>
    cases f' with
    | negation token' inner' =>
      simp only [outline, Outline.node.injEq, Node.negation.injEq, List.cons.injEq, and_true] at same
      obtain ⟨rfl, inside⟩ := same
      rw [ih inside]
    | _ => cases (Outline.node.inj same).1
  | connective token op lhs rhs ihl ihr =>
    cases f' with
    | connective token' op' lhs' rhs' =>
      simp only [outline, Outline.node.injEq, Node.connective.injEq, List.cons.injEq, and_true] at same
      obtain ⟨⟨rfl, rfl⟩, left, right⟩ := same
      rw [ihl left, ihr right]
    | _ => cases (Outline.node.inj same).1
  | quantifier token kind bound body ih =>
    cases f' with
    | quantifier token' kind' bound' body' =>
      simp only [outline, Outline.node.injEq, Node.quantifier.injEq, Node.var.injEq, List.cons.injEq,
        and_true] at same
      obtain ⟨⟨rfl, rfl⟩, rfl, inside⟩ := same
      rw [ih inside]
    | _ => cases (Outline.node.inj same).1
  | predicate name args =>
    cases f' with
    | predicate name' args' =>
      obtain ⟨label, below⟩ := Outline.node.inj same
      rw [Node.predicate.inj label, Term.eq_of_outlines args args' below]
    | _ => cases (Outline.node.inj same).1

theorem Definition.eq_of_outline {d d' : Definition} (same : d.outline = d'.outline) : d = d' := by
  obtain ⟨token, name, body⟩ := d
  obtain ⟨token', name', body'⟩ := d'
  simp only [outline, Outline.node.injEq, Node.definition.injEq, Node.type.injEq, List.cons.injEq,
    and_true] at same
  obtain ⟨rfl, rfl, inside⟩ := same
  rw [Formula.eq_of_outline inside]

theorem Definition.eq_of_graph {d d' : Definition} (same : d.graph = d'.graph) : d = d' :=
  eq_of_outline (Outline.eq_of_graph same)

end Definiens
