import Mathlib.Algebra.BigOperators.Group.List.Basic
import Mathlib.Algebra.GroupWithZero.Nat
import SyntaxTree.Proofs.Node.Alike
import SyntaxTree.Proofs.Node.Places
import SyntaxTree.Proofs.Walk.Steps
import SyntaxTree.Walk.Tally

set_option autoImplicit false

namespace SyntaxTree

namespace Tally

theorem get_empty (kind : NodeKind) : empty.get kind = 0 := by simp [get, empty]

theorem get_add (tally : Tally) (kind other : NodeKind) :
    (tally.add kind).get other = tally.get other + if kind = other then 1 else 0 := by
  by_cases h : kind = other
  · rw [h]
    simp [get, add]
  · have hrank : kind.rank.val ≠ other.rank.val := by
      intro he
      have hkind := kind.getElem?_rank
      rw [he, other.getElem?_rank] at hkind
      exact h (Option.some.inj hkind).symm
    simp only [get, add, Fin.getElem_fin, if_neg h, Nat.add_zero]
    exact Vector.getElem_set_ne _ _ hrank

theorem total_empty : empty.total = 0 := by decide

theorem total_add (tally : Tally) (kind : NodeKind) : (tally.add kind).total = tally.total + 1 := by
  have hrank : kind.rank.val < tally.counts.toList.length := by simp
  have hcounts : (tally.add kind).counts.toList =
      tally.counts.toList.set kind.rank (tally.counts.toList[kind.rank.val] + 1) :=
    Vector.toList_set kind.rank.isLt
  have hsplit := tally.counts.toList.sum_take_add_sum_drop kind.rank.val
  rw [List.drop_eq_getElem_cons hrank, List.sum_cons] at hsplit
  rw [total, total, ← List.sum_eq_foldl, ← List.sum_eq_foldl, hcounts, List.sum_set, if_pos hrank]
  omega

end Tally

namespace Node

variable {m : Tally → Nat} {w : Node → Nat}

theorem counter_closed (h : ∀ tally node, m (tally.add node.kind) = m tally + w node) :
    Walk.Closed Tally.counter Tally.counter fun _ nodes walk _ => ∀ run : Walk Tally,
      m (walk run).state = m run.state + ((nodes.flatMap Node.nodes).map w).sum where
  nil _ := rfl
  append hwalk hnext run := by
    rw [hnext, hwalk, List.flatMap_append, List.map_append, List.sum_append, Nat.add_assoc]
  role _ _ hwalk run := hwalk run
  node := by
    intro depth walk _ node hwalk run
    have hbelow := hwalk ⟨run.state.add node.kind, run.summary.enter depth⟩
    rw [Walk.node_descend rfl, List.flatMap_singleton, nodes_eq, List.map_cons, List.sum_cons,
      ← Nat.add_assoc, ← h]
    exact hbelow

/-- A measure of tallies that grows with every node that is counted has grown, after a walk, by what
it grows with each node. -/
theorem walk_counter (h : ∀ tally node, m (tally.add node.kind) = m tally + w node) (node : Node)
    (depth : Nat) (run : Walk Tally) : m (node.walk Tally.counter depth run).state =
      m run.state + (node.nodes.map w).sum := by
  have hwalk := (counter_closed h).walk node depth run
  rwa [List.flatMap_singleton] at hwalk

end Node

end SyntaxTree
