import Definiens.Graph
import Definiens.Proofs.Graph.Paths
import Mathlib.Data.List.Forall2

/-!
# Edges and paths

The nodes of a graph are numbered in preorder, and the numbers run on while the edges are listed in the
order in which the visits of nodes end.  So the edge to a node is listed where postorder has the path to
that node, its tail being the number of the path without the last step.  All else that there is to say
about the edges follows from this and from the two orders.
-/

namespace Definiens

/-- The edge goes to the node at the path from the one above it, by their numbers among all paths. -/
structure Edge.LeadsTo (all : List Path) (edge : Edge) (path : Path) : Prop where
  tail : all[edge.tail]? = some path.dropLast
  head : all[edge.head]? = some path

/-- How edges lay out a tree, the nodes of which are numbered by their places in `pre`.  The number of
children of the node at a path is told by `arity`, where there is a node. -/
structure Layout (arity : Path → Option Nat) (edges : List Edge) (pre post : List Path) : Prop where
  preorder : Traversal.preorder.Lists (fun path => (arity path).isSome) pre
  /-- The heads come in postorder, but for the root, which would be the last. -/
  postorder : Traversal.postorder.Lists (fun path => (arity path).isSome) (post ++ [[]])
  heads : edges.map (fun edge => pre[edge.head]?) = post.map some
  length_eq : edges.length + 1 = pre.length
  /-- An edge goes from a node to one of its children, and from a number to a greater one. -/
  step : ∀ edge ∈ edges, edge.tail < edge.head ∧
    ∃ path i, pre[edge.tail]? = some path ∧ pre[edge.head]? = some (path ++ [i])
  single : ∀ number, 0 < number → number < pre.length →
    edges.countP (fun edge => edge.head = number) = 1
  /-- The edges that leave a node go to its children in their order. -/
  children : ∀ number path count, pre[number]? = some path → arity path = some count →
    (edges.filter fun edge => edge.tail = number).map (fun edge => pre[edge.head]?) =
      (List.range count).map fun i => some (path ++ [i])

/-! ## The edges of an outline -/

namespace Outline

variable {all : List Path}

/-- Of the paths into several children those into the first come first, and those into the others behind
as many as the first has nodes. -/
theorem isPrefix_below {above : Path} {child : Outline} {children : List Outline} {first number : Nat}
    (listed : (pathsBelow .preorder number (child :: children)).map (above ++ ·) <+: all.drop first) :
    (child.paths .preorder).map (above ++ [number] ++ ·) <+: all.drop first ∧
      (pathsBelow .preorder (number + 1) children).map (above ++ ·) <+:
        all.drop (first + child.size) := by
  obtain ⟨behind, whole⟩ := listed
  have step : (fun path => above ++ path) ∘ (number :: ·) = fun path => above ++ [number] ++ path := by
    funext path
    simp
  rw [pathsBelow, List.map_append, List.map_map, step, List.append_assoc] at whole
  refine ⟨⟨_, whole⟩, behind, ?_⟩
  rw [← List.drop_drop, ← whole, ← length_paths child, List.drop_left' (List.length_map _)]

theorem getElem?_of_isPrefix {above : Path} {outline : Outline} {root : Nat}
    (listed : (outline.paths .preorder).map (above ++ ·) <+: all.drop root) :
    all[root]? = some above := by
  obtain ⟨label, children⟩ := outline
  obtain ⟨behind, whole⟩ := listed
  have first := congrArg (·[0]?) whole
  simpa [paths, Traversal.place] using first.symm

theorem paths_postorder (outline : Outline) :
    outline.paths .postorder = pathsBelow .postorder 0 outline.children ++ [[]] := by
  cases outline
  rfl

mutual

/-- The edges of an outline, the paths to which are listed from the number of its root on, lead to the
nodes below the root in postorder. -/
theorem edges_leadTo : (outline : Outline) → ∀ (above : Path) (root : Nat),
    (outline.paths .preorder).map (above ++ ·) <+: all.drop root →
    List.Forall₂ (Edge.LeadsTo all) (outline.edges root)
      ((pathsBelow .postorder 0 outline.children).map (above ++ ·))
  | .node label children, above, root, listed => by
    have here := getElem?_of_isPrefix listed
    obtain ⟨behind, whole⟩ := listed
    refine edgesBelow_leadTo children above root (root + 1) 0 here ⟨behind, ?_⟩
    rw [← List.drop_drop, ← whole]
    rfl

theorem edgesBelow_leadTo :
    (children : List Outline) → ∀ (above : Path) (parent first number : Nat),
    all[parent]? = some above →
    (pathsBelow .preorder number children).map (above ++ ·) <+: all.drop first →
    List.Forall₂ (Edge.LeadsTo all) (edgesBelow parent first children)
      ((pathsBelow .postorder number children).map (above ++ ·))
  | [], _, _, _, _, _, _ => .nil
  | child :: children, above, parent, first, number, tail, listed => by
    -- the edges inside the child, then the edge to it, then those to the children behind it
    obtain ⟨within, behind⟩ := isPrefix_below listed
    have into := edges_leadTo child (above ++ [number]) first within
    have others := edgesBelow_leadTo children above parent _ (number + 1) tail behind
    have edge : Edge.LeadsTo all ⟨parent, first⟩ (above ++ [number]) :=
      ⟨by rw [List.dropLast_concat]; exact tail, getElem?_of_isPrefix within⟩
    have joined := List.rel_append into (.cons edge others)
    simpa [edgesBelow, pathsBelow, paths_postorder, Function.comp_def] using joined

end

end Outline

/-! ## What follows from the orders -/

namespace Layout

variable {arity : Path → Option Nat} {edges : List Edge} {pre post : List Path}

theorem map_head_of_leadTo (leads : List.Forall₂ (Edge.LeadsTo pre) edges post) :
    edges.map (fun edge => pre[edge.head]?) = post.map some := by
  induction leads with
  | nil => rfl
  | cons first others ih => rw [List.map_cons, List.map_cons, first.head, ih]

theorem exists_leadsTo_of_mem (leads : List.Forall₂ (Edge.LeadsTo pre) edges post) {edge : Edge}
    (member : edge ∈ edges) : ∃ path ∈ post, edge.LeadsTo pre path := by
  induction leads with
  | nil => cases member
  | cons first others ih =>
    rcases List.mem_cons.mp member with rfl | member
    · exact ⟨_, List.mem_cons_self, first⟩
    · obtain ⟨path, member', leadsTo⟩ := ih member
      exact ⟨path, List.mem_cons_of_mem _ member', leadsTo⟩

theorem filter_leadTo {select : Edge → Bool} {select' : Path → Bool}
    (agree : ∀ (edge : Edge) (path : Path), edge.LeadsTo pre path →
      (select edge = true ↔ select' path = true))
    (leads : List.Forall₂ (Edge.LeadsTo pre) edges post) :
    List.Forall₂ (Edge.LeadsTo pre) (edges.filter select) (post.filter select') :=
  List.rel_filter (fun edge path => agree edge path) leads

theorem exists_append_of_mem {Has : Path → Prop} {path : Path}
    (postorder : Traversal.postorder.Lists Has (post ++ [[]])) (member : path ∈ post) :
    ∃ above i, path = above ++ [i] := by
  rcases List.eq_nil_or_concat path with rfl | ⟨above, i, rfl⟩
  · have apart := (List.nodup_append.mp postorder.nodup).2.2
    exact absurd rfl (apart [] member [] List.mem_cons_self)
  · exact ⟨above, i, List.concat_eq_append⟩

theorem number_eq_iff {Has : Path → Prop} {path path' : Path} {number number' : Nat}
    (preorder : Traversal.preorder.Lists Has pre) (here : pre[number]? = some path)
    (here' : pre[number']? = some path') : number = number' ↔ path = path' := by
  have inside := (List.getElem?_eq_some_iff.mp here).1
  rw [← List.getElem?_inj inside preorder.nodup, here, here', Option.some_inj]

theorem lt_of_precedes {Has : Path → Prop} {path path' : Path} {number number' : Nat}
    (preorder : Traversal.preorder.Lists Has pre) (here : pre[number]? = some path)
    (here' : pre[number']? = some path') (precedes : Traversal.preorder.Precedes path path') :
    number < number' := by
  obtain ⟨inside, rfl⟩ := List.getElem?_eq_some_iff.mp here
  obtain ⟨inside', rfl⟩ := List.getElem?_eq_some_iff.mp here'
  rcases Nat.lt_trichotomy number number' with less | rfl | greater
  · exact less
  · exact absurd precedes precedes.asymm
  · exact absurd (List.pairwise_iff_getElem.mp preorder.ordered _ _ inside' inside greater)
      precedes.asymm

/-- The paths in postorder that go on from a path by one step are those to its children, in order. -/
theorem filter_dropLast_eq {path : Path} {count : Nat}
    (grows : ∀ path i, (arity (path ++ [i])).isSome ↔ ∃ count, arity path = some count ∧ i < count)
    (postorder : Traversal.postorder.Lists (fun path => (arity path).isSome) (post ++ [[]]))
    (known : arity path = some count) :
    (post.filter fun child => child.dropLast = path) = (List.range count).map (path ++ [·]) := by
  -- both lists are in postorder, and so it is enough that they have the same paths
  have ordered : (post.filter fun child => child.dropLast = path).Pairwise
      Traversal.postorder.Precedes :=
    (List.pairwise_append.mp postorder.ordered).1.sublist List.filter_sublist
  have ordered' : ((List.range count).map (path ++ [·])).Pairwise Traversal.postorder.Precedes :=
    List.pairwise_map.mpr (List.pairwise_lt_range.imp (Traversal.append_precedes_append path))
  refine ordered.eq_of_mem_iff ordered' fun child => ?_
  rw [List.mem_filter, List.mem_map, decide_eq_true_eq]
  constructor
  · rintro ⟨member, rfl⟩
    obtain ⟨above, i, rfl⟩ := exists_append_of_mem postorder member
    rw [List.dropLast_concat] at known ⊢
    have ends := (postorder.mem_iff _).mp (List.mem_append_left _ member)
    obtain ⟨count', known', inside⟩ := (grows above i).mp ends
    rw [known] at known'
    cases known'
    exact ⟨i, List.mem_range.mpr inside, rfl⟩
  · rintro ⟨i, inside, rfl⟩
    have ends := (grows path i).mpr ⟨count, known, List.mem_range.mp inside⟩
    refine ⟨?_, List.dropLast_concat⟩
    rcases List.mem_append.mp ((postorder.mem_iff _).mpr ends) with member | root
    · exact member
    · simp at root

theorem countP_head_eq_one {Has : Path → Prop} {number : Nat}
    (preorder : Traversal.preorder.Lists Has pre)
    (postorder : Traversal.postorder.Lists Has (post ++ [[]]))
    (leads : List.Forall₂ (Edge.LeadsTo pre) edges post) (pos : 0 < number)
    (inside : number < pre.length) : edges.countP (fun edge => edge.head = number) = 1 := by
  have agree : ∀ (edge : Edge) (path : Path), edge.LeadsTo pre path →
      (decide (edge.head = number) = true ↔ (path == pre[number]) = true) := by
    intro edge path leadsTo
    rw [decide_eq_true_eq, beq_iff_eq]
    exact number_eq_iff preorder leadsTo.head (List.getElem?_eq_getElem inside)
  have proper : pre[number] ≠ [] := by
    intro root
    have precedes := List.pairwise_iff_getElem.mp preorder.ordered 0 number (by omega) inside pos
    rw [root] at precedes
    exact Traversal.not_precedes_nil _ precedes
  have member : pre[number] ∈ post := by
    have listed := (postorder.mem_iff _).mpr ((preorder.mem_iff _).mp (List.getElem_mem inside))
    exact (List.mem_append.mp listed).resolve_right fun root => proper (List.mem_singleton.mp root)
  rw [List.countP_eq_length_filter, (filter_leadTo agree leads).length_eq,
    ← List.countP_eq_length_filter]
  exact List.count_eq_one_of_mem (List.nodup_append.mp postorder.nodup).1 member

/-- Edges that lead to the nodes of a tree in postorder lay it out. -/
theorem of_leadTo
    (grows : ∀ path i, (arity (path ++ [i])).isSome ↔ ∃ count, arity path = some count ∧ i < count)
    (preorder : Traversal.preorder.Lists (fun path => (arity path).isSome) pre)
    (postorder : Traversal.postorder.Lists (fun path => (arity path).isSome) (post ++ [[]]))
    (leads : List.Forall₂ (Edge.LeadsTo pre) edges post) : Layout arity edges pre post where
  preorder := preorder
  postorder := postorder
  heads := map_head_of_leadTo leads
  length_eq := by
    have same : ∀ path, path ∈ post ++ [[]] ↔ path ∈ pre := fun path => by
      rw [preorder.mem_iff, postorder.mem_iff]
    have perm := (List.perm_ext_iff_of_nodup postorder.nodup preorder.nodup).mpr same
    rw [leads.length_eq, ← perm.length_eq, List.length_append, List.length_singleton]
  step := by
    intro edge member
    obtain ⟨path, member', leadsTo⟩ := exists_leadsTo_of_mem leads member
    obtain ⟨above, i, rfl⟩ := exists_append_of_mem postorder member'
    have tail := leadsTo.tail
    rw [List.dropLast_concat] at tail
    exact ⟨lt_of_precedes preorder tail leadsTo.head (Traversal.precedes_append above i), above, i,
      tail, leadsTo.head⟩
  single := fun _ pos inside => countP_head_eq_one preorder postorder leads pos inside
  children := by
    intro number path count here known
    have agree : ∀ (edge : Edge) (child : Path), edge.LeadsTo pre child →
        (decide (edge.tail = number) = true ↔ decide (child.dropLast = path) = true) := by
      intro edge child leadsTo
      rw [decide_eq_true_eq, decide_eq_true_eq]
      exact number_eq_iff preorder leadsTo.tail here
    rw [map_head_of_leadTo (filter_leadTo agree leads), filter_dropLast_eq grows postorder known,
      List.map_map]
    rfl

end Layout

namespace Outline

def arity? (outline : Outline) (path : Path) : Option Nat :=
  (outline.at? path).map fun below => below.children.length

theorem isSome_arity?_append (outline : Outline) (path : Path) (i : Nat) :
    (outline.arity? (path ++ [i])).isSome ↔
      ∃ count, outline.arity? path = some count ∧ i < count := by
  rw [arity?, arity?, at?_append]
  cases outline.at? path with
  | none => simp
  | some below => simp [at?]

theorem layout (outline : Outline) :
    Layout outline.arity? (outline.edges 0) (outline.paths .preorder)
      (pathsBelow .postorder 0 outline.children) := by
  have lists (order : Traversal) :
      order.Lists (fun path => (outline.arity? path).isSome) (outline.paths order) := by
    simpa [arity?] using outline.lists_paths order
  have postorder := lists .postorder
  rw [paths_postorder] at postorder
  have listed : (outline.paths .preorder).map ([] ++ ·) <+: (outline.paths .preorder).drop 0 := by
    simp
  have leads := outline.edges_leadTo [] 0 listed
  simp only [List.nil_append, List.map_id'] at leads
  exact .of_leadTo outline.isSome_arity?_append (lists .preorder) postorder leads

end Outline

end Definiens
