import SyntaxTree.Proofs.Build.Refinement

set_option autoImplicit false

namespace SyntaxTree

/-- The lists of the nodes that have been emitted, after one more operation. Only a list that was
closed with success is gone. -/
def emittedBy (lists : Levels Node) : Operation × Reply → Levels Node
  | (.openList, _) => lists.push
  | (.emit node, _) => lists.add node
  | (.closeList, .nodes (.ok _)) => lists.pop
  | (.finish _, .node (.ok _)) => .empty
  | (.reset, _) => .empty
  | _ => lists

def emitted (history : List (Operation × Reply)) : Levels Node := history.foldl emittedBy .empty

namespace Scopes

theorem release_nodes (scopes : Scopes) (i : Nat) :
    (scopes.release i).levels.map Child.node = scopes.levels.map Child.node := by
  have hnode : Child.node ∘ Child.release i = Child.node := by
    funext child
    exact child.release_node i
  rw [release, Levels.map_map, hnode]

theorem step_nodes (scopes : Scopes) (operation : Operation) :
    (scopes.step operation).2.levels.map Child.node =
      emittedBy (scopes.levels.map Child.node) (operation, (scopes.step operation).1) := by
  cases operation with
  | openList => rfl
  | emit node => exact Levels.map_add ..
  | alloc node => rfl
  | take id =>
    simp only [step]
    split
    · split
      · exact scopes.release_nodes id.index
      · rfl
    · rfl
  | closeList =>
    simp only [step, close]
    split
    · rfl
    · exact Levels.map_pop ..
  | finish root =>
    simp only [step]
    split
    · rfl
    · rfl
  | reset => rfl

theorem run_nodes (scopes : Scopes) (operations : List Operation) :
    (scopes.run operations).2.levels.map Child.node =
      (operations.zip (scopes.run operations).1).foldl emittedBy
        (scopes.levels.map Child.node) := by
  induction operations generalizing scopes with
  | nil => rfl
  | cons operation operations ih =>
    simp only [run, List.zip_cons_cons, List.foldl_cons]
    rw [← scopes.step_nodes operation]
    exact ih _

theorem Fits.stored_lt {scopes : Scopes} {operations : List Operation}
    (h : scopes.Fits operations) : (scopes.run operations).2.stored < UInt32.size := by
  induction operations generalizing scopes with
  | nil => exact h
  | cons operation operations ih => exact ih h.2

end Scopes

namespace TreeBuilder

variable {builder : TreeBuilder} {scopes : Scopes}

theorem Refines.run_eq (h : builder.Refines scopes) {operations : List Operation}
    (hfit : scopes.Fits operations) :
    (builder.run operations).1 = (scopes.run operations).1 ∧
      (builder.run operations).2.Refines (scopes.run operations).2 := by
  induction operations generalizing builder scopes with
  | nil => exact ⟨rfl, h⟩
  | cons operation operations ih =>
    obtain ⟨hreply, hnext⟩ := h.step_eq hfit.1 operation
    obtain ⟨hreplies, hlast⟩ := ih hnext hfit.2
    refine ⟨?_, hlast⟩
    simp only [run, Scopes.run]
    rw [hreply, hreplies]

/-- A list of which no child has been taken is closed: its nodes are handed back, and nothing but
this list changes. -/
theorem Refines.closeList_eq (h : builder.Refines scopes) (hfit : scopes.stored < UInt32.size)
    (hnone : ∀ child ∈ scopes.levels.innermost, child.taken = false) :
    ∃ after, builder.closeList = (.ok (scopes.levels.innermost.map Child.node), after) ∧
      after.Refines { scopes with levels := scopes.levels.pop } ∧
      ∀ id, (∀ child ∈ scopes.levels.innermost, child.nodeId ≠ id) →
        after.arena.slots[id.index]? = builder.arena.slots[id.index]? := by
  have hfind : scopes.levels.innermost.find? Child.taken = none :=
    List.find?_eq_none.2 fun child hc => by simp [hnone child hc]
  obtain ⟨arena, hclose, hsize, hslots⟩ := h.closeList_held hfit hfind
  refine ⟨_, hclose, h.pop hsize hslots, fun id hid => ?_⟩
  rw [hslots, if_neg]
  intro hmem
  obtain ⟨child, hc, he⟩ := List.mem_map.1 hmem
  have hindex : child.nodeId.index = id.index := (h.index_eq hfit hc).trans he
  have hnumber : child.nodeId.number = id.number := UInt32.toNat_inj.1 hindex
  exact hid child hc (congrArg NodeId.mk hnumber)

/-- A builder is as good as lists of nodes within lists, as long as its ids do not run out. Its
answers are theirs, and it tells the depth from what has been opened and closed. The children of a
list are the nodes that have been emitted into it. -/
theorem run_acts_as_scopes (operations : List Operation) (hfit : Scopes.empty.Fits operations) :
    let replies := (empty.run operations).1
    let builder := (empty.run operations).2
    let scopes := (Scopes.empty.run operations).2
    let lists := emitted (operations.zip replies)
    replies = (Scopes.empty.run operations).1 ∧
      builder.Refines scopes ∧
      builder.depth = lists.scopes.length ∧
      scopes.levels.map Child.node = lists ∧
      ((∀ child ∈ scopes.levels.innermost, child.taken = false) →
        ∃ after, builder.closeList = (.ok lists.innermost, after) ∧
          after.Refines { scopes with levels := scopes.levels.pop } ∧
          ∀ id, (∀ child ∈ scopes.levels.innermost, child.nodeId ≠ id) →
            after.arena.slots[id.index]? = builder.arena.slots[id.index]?) := by
  intro replies builder scopes lists
  obtain ⟨hreplies, hrefines⟩ := refines_empty.run_eq hfit
  have hnodes : scopes.levels.map Child.node = lists := by
    have hrun := Scopes.empty.run_nodes operations
    rw [← hreplies] at hrun
    exact hrun
  refine ⟨hreplies, hrefines, ?_, hnodes, fun hnone => ?_⟩
  · rw [← hnodes, hrefines.depth_eq]
    exact (List.length_map ..).symm
  · rw [← hnodes, Levels.innermost_map]
    exact hrefines.closeList_eq hfit.stored_lt hnone

/-- Two lists within each other. The outer one has lost a child, and the inner one cannot be closed
by finishing. -/
def nestedLists : List Operation :=
  let leaf (value : String) : Node := .leaf .identifier {} value
  [.emit (leaf "a"), .openList, .emit (leaf "b"), .openList, .emit (leaf "c"), .alloc (leaf "d"),
    .take ⟨1⟩, .take ⟨9⟩, .emit (leaf "e"), .finish (leaf "f")]

theorem nestedLists_close :
    Scopes.empty.Fits nestedLists ∧
      (∀ child ∈ (Scopes.empty.run nestedLists).2.levels.innermost, child.taken = false) ∧
      ∃ after, (empty.run nestedLists).2.closeList =
          (.ok [.leaf .identifier {} "c", .leaf .identifier {} "e"], after) ∧
        after.depth = 1 := by
  have hfit : Scopes.empty.Fits nestedLists := Scopes.fits_of_length (by decide)
  have hnone : ∀ child ∈ (Scopes.empty.run nestedLists).2.levels.innermost,
      child.taken = false := by
    decide +kernel
  obtain ⟨-, -, -, -, hclose⟩ := run_acts_as_scopes nestedLists hfit
  obtain ⟨after, hnodes, hafter, -⟩ := hclose hnone
  exact ⟨hfit, hnone, after, hnodes, hafter.depth_eq⟩

end TreeBuilder

end SyntaxTree
