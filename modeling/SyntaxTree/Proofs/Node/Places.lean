import SyntaxTree.Proofs.Node.Children

set_option autoImplicit false

namespace SyntaxTree

abbrev Path := List Nat

structure Place where
  path : Path
  node : Node

namespace Place

def depth (place : Place) : Nat := place.path.length

/-- The place seen from a node further up, of which it is below the child of the given number. -/
def under (i : Nat) (place : Place) : Place := ⟨i :: place.path, place.node⟩

end Place

namespace Node

def at? : Node → Path → Option Node
  | node, [] => some node
  | node, i :: path =>
    match node.children[i]? with
    | none => none
    | some child => child.at? path

def placesFrom : Nat → List (List Place) → List Place
  | _, [] => []
  | i, places :: children => places.map (Place.under i) ++ placesFrom (i + 1) children

def places : Node → List Place :=
  fold fun node branches => ⟨[], node⟩ :: placesFrom 0 (branches.flatMap Branch.children)

/-- All places of a tree, every node after its children. -/
def placesUpward : Node → List Place :=
  fold fun node branches => placesFrom 0 (branches.flatMap Branch.children) ++ [⟨[], node⟩]

def nodes (node : Node) : List Node := node.places.map Place.node

theorem flatMap_branch {β : Type} (f : Node → β) (node : Node) :
    (node.slots.map (Branch.of f)).flatMap Branch.children = node.children.map f := by
  simp [children, Branch.of, List.flatMap_map, List.map_flatMap]

theorem places_eq (node : Node) :
    node.places = ⟨[], node⟩ :: placesFrom 0 (node.children.map places) := by
  rw [places, fold_eq, flatMap_branch]

theorem placesUpward_eq (node : Node) :
    node.placesUpward = placesFrom 0 (node.children.map placesUpward) ++ [⟨[], node⟩] := by
  rw [placesUpward, fold_eq, flatMap_branch]

theorem map_placesFrom {β : Type} {f g : Place → β} (h : ∀ i place, f (place.under i) = g place)
    (i : Nat) (children : List (List Place)) :
    (placesFrom i children).map f = children.flatMap (·.map g) := by
  induction children generalizing i with
  | nil => rfl
  | cons places children ih =>
    rw [placesFrom, List.map_append, ih, List.flatMap_cons, List.map_map]
    congr 1
    exact List.map_congr_left fun place _ => h i place

theorem nodes_placesFrom (i : Nat) (children : List (List Place)) :
    (placesFrom i children).map Place.node = children.flatMap (·.map Place.node) :=
  map_placesFrom (fun _ _ => rfl) i children

theorem nodes_eq (node : Node) : node.nodes = node :: node.children.flatMap nodes := by
  rw [nodes, places_eq, List.map_cons, nodes_placesFrom, List.flatMap_map]
  rfl

theorem mem_placesFrom {i : Nat} {children : List (List Place)} {place : Place} :
    place ∈ placesFrom i children ↔ ∃ j, ∃ places : List Place, ∃ q ∈ places,
      children[j]? = some places ∧ place = q.under (i + j) := by
  induction children generalizing i with
  | nil => simp [placesFrom]
  | cons first children ih =>
    rw [placesFrom, List.mem_append, List.mem_map, ih]
    constructor
    · rintro (⟨q, hq, rfl⟩ | ⟨j, places, q, hq, hj, rfl⟩)
      · exact ⟨0, first, q, hq, rfl, rfl⟩
      · refine ⟨j + 1, places, q, hq, hj, ?_⟩
        rw [Nat.add_assoc, Nat.add_comm 1 j]
    · rintro ⟨j, places, q, hq, hj, rfl⟩
      cases j with
      | zero =>
        cases hj
        exact .inl ⟨q, hq, rfl⟩
      | succ j =>
        refine .inr ⟨j, places, q, hq, hj, ?_⟩
        rw [Nat.add_assoc, Nat.add_comm 1 j]

theorem mem_places_iff {node : Node} {place : Place} :
    place ∈ node.places ↔ node.at? place.path = some place.node := by
  induction node using Node.induction generalizing place with
  | step node ih =>
    obtain ⟨path, target⟩ := place
    rw [places_eq, List.mem_cons, mem_placesFrom]
    cases path with
    | nil =>
      simp only [at?, Option.some.injEq]
      constructor
      · rintro (h | ⟨j, places, q, -, -, h⟩)
        · cases h
          rfl
        · cases h
      · rintro rfl
        exact .inl rfl
    | cons i path =>
      constructor
      · rintro (h | ⟨j, places, q, hq, hj, h⟩)
        · cases h
        · cases h
          rw [List.getElem?_map, Option.map_eq_some_iff] at hj
          obtain ⟨child, hchild, rfl⟩ := hj
          have hread := (ih child (List.mem_of_getElem? hchild)).1 hq
          simpa [at?, hchild] using hread
      · intro h
        cases hchild : node.children[i]? with
        | none => simp [at?, hchild] at h
        | some child =>
          have hread : child.at? path = some target := by simpa [at?, hchild] using h
          have hq : ⟨path, target⟩ ∈ child.places :=
            (ih child (List.mem_of_getElem? hchild)).2 hread
          have hplace : (⟨i :: path, target⟩ : Place) = Place.under (0 + i) ⟨path, target⟩ := by
            rw [Nat.zero_add]
            rfl
          exact .inr ⟨i, child.places, ⟨path, target⟩, hq, by simp [hchild], hplace⟩

theorem nodup_placesFrom {children : List (List Place)}
    (h : ∀ places ∈ children, (places.map Place.path).Nodup) (i : Nat) :
    ((placesFrom i children).map Place.path).Nodup := by
  induction children generalizing i with
  | nil => exact List.nodup_nil
  | cons places children ih =>
    have hfirst : ((places.map (Place.under i)).map Place.path).Nodup := by
      have hcons (p q : Path) (hne : p ≠ q) : i :: p ≠ i :: q := fun he => hne (List.cons.inj he).2
      have hp := List.Pairwise.map (List.cons i) hcons (h places (by simp))
      rw [List.map_map] at hp ⊢
      exact hp
    have hrest := ih (fun ps hps => h ps (List.mem_cons_of_mem _ hps)) (i + 1)
    rw [placesFrom, List.map_append, List.nodup_append]
    refine ⟨hfirst, hrest, ?_⟩
    intro p hp q hq he
    obtain ⟨x, hx, rfl⟩ := List.mem_map.1 hp
    obtain ⟨a, -, rfl⟩ := List.mem_map.1 hx
    obtain ⟨y, hy, rfl⟩ := List.mem_map.1 hq
    obtain ⟨j, -, b, -, -, rfl⟩ := mem_placesFrom.1 hy
    have hij : i = i + 1 + j := (List.cons.inj he).1
    omega

theorem places_nodup (node : Node) : (node.places.map Place.path).Nodup := by
  induction node using Node.induction with
  | step node ih =>
    rw [places_eq, List.map_cons, List.nodup_cons]
    constructor
    · intro h
      obtain ⟨place, hp, hnil⟩ := List.mem_map.1 h
      obtain ⟨j, -, q, -, -, rfl⟩ := mem_placesFrom.1 hp
      cases hnil
    · refine nodup_placesFrom (fun places hp => ?_) 0
      obtain ⟨child, hc, rfl⟩ := List.mem_map.1 hp
      exact ih child hc

theorem placesFrom_perm {f g : Node → List Place} {nodes : List Node}
    (h : ∀ node ∈ nodes, (f node).Perm (g node)) (i : Nat) :
    (placesFrom i (nodes.map f)).Perm (placesFrom i (nodes.map g)) := by
  induction nodes generalizing i with
  | nil => exact .nil
  | cons node nodes ih =>
    have hfirst := (h node (by simp)).map (Place.under i)
    have hrest := ih (fun n hn => h n (List.mem_cons_of_mem _ hn)) (i + 1)
    exact hfirst.append hrest

theorem placesUpward_perm (node : Node) : node.placesUpward.Perm node.places := by
  induction node using Node.induction with
  | step node ih =>
    rw [places_eq, placesUpward_eq]
    exact (List.perm_append_comm).trans ((placesFrom_perm ih 0).cons _)

end Node

end SyntaxTree
