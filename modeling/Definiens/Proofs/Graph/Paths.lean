import Definiens.Tree.Outline
import Mathlib.Data.List.Sort

/-!
# Paths in a tree

A path tells a node of a tree by the children to take on the way from the root.  Preorder and postorder
are orders of paths: two paths that part ways are in the order of the children at which they part, and of
two paths one of which goes on from the other preorder has the shorter one first and postorder the longer
one.
-/

namespace Definiens

/-- The children to take from the root of a tree down to a node, by their numbers from 0 on. -/
abbrev Path : Type := List Nat

/-- The order in which the nodes of a tree come: each before those below it, or after them. -/
inductive Traversal where
  | preorder
  | postorder
  deriving DecidableEq, Repr

namespace Traversal

inductive Precedes : Traversal → Path → Path → Prop where
  | outer (i : Nat) (path : Path) : Precedes .preorder [] (i :: path)
  | inner (i : Nat) (path : Path) : Precedes .postorder (i :: path) []
  | parted {order : Traversal} {i j : Nat} (path path' : Path) (less : i < j) :
      Precedes order (i :: path) (j :: path')
  | along {order : Traversal} (i : Nat) {path path' : Path} (precedes : Precedes order path path') :
      Precedes order (i :: path) (i :: path')

/-- The list has the paths for which `Has` holds, each once and in the order. -/
structure Lists (order : Traversal) (Has : Path → Prop) (paths : List Path) : Prop where
  mem_iff : ∀ path, path ∈ paths ↔ Has path
  ordered : paths.Pairwise order.Precedes

/-- Puts the path to a node among the paths that go on from it. -/
def place : Traversal → List Path → List Path
  | .preorder, inner => [] :: inner
  | .postorder, inner => inner ++ [[]]

variable {order : Traversal} {Has : Path → Prop} {path path' : Path} {paths inner : List Path}

theorem Precedes.asymm (precedes : order.Precedes path path') : ¬ order.Precedes path' path := by
  intro precedes'
  induction precedes with
  | outer i path => cases precedes'
  | inner i path => cases precedes'
  | parted path path' less =>
    cases precedes' with
    | parted _ _ greater => exact Nat.lt_asymm less greater
    | along _ _ => exact Nat.lt_irrefl _ less
  | along i precedes ih =>
    cases precedes' with
    | parted _ _ less => exact Nat.lt_irrefl _ less
    | along _ further => exact ih further

instance : Std.Asymm order.Precedes := ⟨fun _ _ => Precedes.asymm⟩

theorem not_precedes_nil (path : Path) : ¬ Traversal.preorder.Precedes path [] :=
  nofun

theorem precedes_append (path : Path) (i : Nat) : Traversal.preorder.Precedes path (path ++ [i]) := by
  induction path with
  | nil => exact .outer i []
  | cons j path ih => exact .along j ih

theorem append_precedes_append (path : Path) {i j : Nat} (less : i < j) :
    order.Precedes (path ++ [i]) (path ++ [j]) := by
  induction path with
  | nil => exact .parted [] [] less
  | cons k path ih => exact .along k ih

theorem Lists.nodup (lists : order.Lists Has paths) : paths.Nodup :=
  lists.ordered.nodup

@[simp]
theorem mem_place : path ∈ order.place inner ↔ path = [] ∨ path ∈ inner := by
  cases order <;> simp [place, or_comm]

@[simp]
theorem length_place : (order.place inner).length = inner.length + 1 := by
  cases order <;> simp [place]

/-- The paths that go on from a node stay in order with the path to it. -/
theorem pairwise_place (ordered : inner.Pairwise order.Precedes)
    (proper : ∀ path ∈ inner, ∃ i rest, path = i :: rest) :
    (order.place inner).Pairwise order.Precedes := by
  cases order with
  | preorder =>
    refine List.pairwise_cons.mpr ⟨fun path member => ?_, ordered⟩
    obtain ⟨i, rest, rfl⟩ := proper path member
    exact .outer i rest
  | postorder =>
    refine List.pairwise_append.mpr ⟨ordered, List.pairwise_singleton _ _, ?_⟩
    intro path member root isRoot
    obtain ⟨i, rest, rfl⟩ := proper path member
    cases List.mem_singleton.mp isRoot
    exact .inner i rest

theorem pairwise_map_append {first : Nat} {here others : List Path}
    (ordered : here.Pairwise order.Precedes) (ordered' : others.Pairwise order.Precedes)
    (later : ∀ path ∈ others, ∃ i rest, first < i ∧ path = i :: rest) :
    (here.map (first :: ·) ++ others).Pairwise order.Precedes := by
  rw [List.pairwise_append, List.pairwise_map]
  refine ⟨ordered.imp (.along first), ordered', ?_⟩
  intro path member path' member'
  obtain ⟨rest, -, rfl⟩ := List.mem_map.mp member
  obtain ⟨i, rest', less, rfl⟩ := later path' member'
  exact .parted rest rest' less

end Traversal

namespace Outline

def at? : Outline → Path → Option Outline
  | outline, [] => some outline
  | outline, i :: path => outline.children[i]?.bind fun child => child.at? path

mutual

def paths (order : Traversal) : Outline → List Path
  | .node _ children => order.place (pathsBelow order 0 children)

/-- The paths into several children, the first of which has the number `first`. -/
def pathsBelow (order : Traversal) (first : Nat) : List Outline → List Path
  | [] => []
  | child :: children =>
    (child.paths order).map (first :: ·) ++ pathsBelow order (first + 1) children

end

variable {order : Traversal}

mutual

theorem length_paths : (outline : Outline) → (outline.paths order).length = outline.size
  | .node label children => by
    rw [paths, size, Traversal.length_place, length_pathsBelow children 0]

theorem length_pathsBelow :
    (children : List Outline) → ∀ first, (pathsBelow order first children).length = sizes children
  | [], _ => rfl
  | child :: children, first => by
    rw [pathsBelow, sizes, List.length_append, List.length_map, length_paths child,
      length_pathsBelow children]

end

theorem isSome_at?_cons {outline : Outline} {i : Nat} {path : Path} :
    (outline.at? (i :: path)).isSome ↔
      ∃ child, outline.children[i]? = some child ∧ (child.at? path).isSome := by
  rw [at?]
  cases outline.children[i]? <;> simp

mutual

theorem mem_paths_iff : (outline : Outline) → ∀ path,
    path ∈ outline.paths order ↔ (outline.at? path).isSome
  | .node label children, path => by
    rw [paths, Traversal.mem_place, mem_pathsBelow_iff children 0]
    cases path with
    | nil => simp [at?]
    | cons i path =>
      rw [isSome_at?_cons, Outline.children]
      constructor
      · rintro (impossible | ⟨j, rest, child, same, found, ends⟩)
        · cases impossible
        · rw [Nat.zero_add] at same
          cases same
          exact ⟨child, found, ends⟩
      · rintro ⟨child, found, ends⟩
        exact Or.inr ⟨i, path, child, by rw [Nat.zero_add], found, ends⟩

theorem mem_pathsBelow_iff : (children : List Outline) → ∀ first path,
    path ∈ pathsBelow order first children ↔ ∃ i rest child, path = (first + i) :: rest ∧
      children[i]? = some child ∧ (child.at? rest).isSome
  | [], first, path => by simp [pathsBelow]
  | child :: children, first, path => by
    rw [pathsBelow, List.mem_append, List.mem_map, mem_pathsBelow_iff children]
    constructor
    · rintro (⟨rest, member, rfl⟩ | ⟨i, rest, later, rfl, found, ends⟩)
      · exact ⟨0, rest, child, rfl, rfl, (mem_paths_iff child rest).mp member⟩
      · exact ⟨i + 1, rest, later, by rw [Nat.add_right_comm]; rfl, found, ends⟩
    · rintro ⟨_ | i, rest, later, rfl, found, ends⟩
      · cases found
        exact Or.inl ⟨rest, (mem_paths_iff child rest).mpr ends, rfl⟩
      · exact Or.inr ⟨i, rest, later, by rw [Nat.add_right_comm]; rfl, found, ends⟩

end

theorem exists_cons_of_mem_pathsBelow {children : List Outline} {first : Nat} {path : Path}
    (member : path ∈ pathsBelow order first children) :
    ∃ i rest, first ≤ i ∧ path = i :: rest := by
  obtain ⟨i, rest, -, rfl, -, -⟩ := (mem_pathsBelow_iff children first path).mp member
  exact ⟨first + i, rest, Nat.le_add_right first i, rfl⟩

mutual

theorem pairwise_paths : (outline : Outline) → (outline.paths order).Pairwise order.Precedes
  | .node label children => by
    refine Traversal.pairwise_place (pairwise_pathsBelow children 0) fun path member => ?_
    obtain ⟨i, rest, -, same⟩ := exists_cons_of_mem_pathsBelow member
    exact ⟨i, rest, same⟩

theorem pairwise_pathsBelow : (children : List Outline) → ∀ first,
    (pathsBelow order first children).Pairwise order.Precedes
  | [], _ => .nil
  | child :: children, first =>
    Traversal.pairwise_map_append (pairwise_paths child) (pairwise_pathsBelow children (first + 1))
      fun _ member => exists_cons_of_mem_pathsBelow member

end

theorem at?_append (outline : Outline) (path path' : Path) :
    outline.at? (path ++ path') = (outline.at? path).bind fun below => below.at? path' := by
  induction path generalizing outline with
  | nil => rfl
  | cons i path ih =>
    rw [List.cons_append, at?, at?]
    cases outline.children[i]? with
    | none => rfl
    | some child => exact ih child

mutual

/-- The nodes in preorder are those at the paths in preorder. -/
theorem map_preorder : (outline : Outline) → outline.preorder.map some =
    (outline.paths .preorder).map fun path => (outline.at? path).map label
  | .node label children => by
    rw [preorder, paths, Traversal.place, List.map_cons, List.map_cons]
    exact congrArg _ (map_preorders children (.node label children) 0 fun _ => by
      rw [Nat.zero_add]; rfl)

theorem map_preorders : (children : List Outline) → ∀ (outline : Outline) (first : Nat),
    (∀ i : Nat, outline.children[first + i]? = children[i]?) →
    (preorders children).map some =
      (pathsBelow .preorder first children).map fun path => (outline.at? path).map label
  | [], _, _, _ => rfl
  | child :: children, outline, first, has => by
    have here : outline.children[first]? = some child := has 0
    have others := map_preorders children outline (first + 1) fun i => by
      rw [Nat.add_right_comm]
      exact has (i + 1)
    have into (path : Path) : outline.at? (first :: path) = child.at? path := by
      rw [at?, here, Option.bind_some]
    simp only [preorders, pathsBelow, List.map_append, List.map_map, Function.comp_def, into,
      map_preorder child, others]

end

/-- The paths of an outline are listed in their order. -/
theorem lists_paths (order : Traversal) (outline : Outline) :
    order.Lists (fun path => (outline.at? path).isSome) (outline.paths order) :=
  ⟨mem_paths_iff outline, pairwise_paths outline⟩

end Outline

end Definiens
