import Mathlib.Algebra.BigOperators.Group.List.Lemmas
import SyntaxTree.Proofs.Walk.Indentation
import SyntaxTree.Proofs.Walk.LineBreaks
import SyntaxTree.Proofs.Walk.Records
import SyntaxTree.Proofs.Walk.Recursion
import SyntaxTree.Proofs.Walk.Tours

/-! The measures of a tree: how many nodes it has, how many of each kind, and how high it is. Each
of the visitors finds them in its own way, the counter in its tally, the recorder in its events and
the lister in its lines, and they all agree. -/

set_option autoImplicit false

namespace SyntaxTree

namespace Node

def kinds (root : Node) : List NodeKind := root.nodes.map kind

def roles (root : Node) : List Role := root.nodes.flatMap walkedRoles

end Node

namespace Tally

theorem get_eq_count (root : Node) (kind : NodeKind) :
    root.tally.get kind = root.kinds.count kind := by
  rw [get_tally, Node.kinds]
  induction root.nodes with
  | nil => rfl
  | cons node nodes ih => simp [List.count_cons, ih, Nat.add_comm]

theorem entries_eq (root : Node) : root.tally.entries =
    (NodeKind.all.filter (· ∈ root.kinds)).map fun kind => (kind, root.kinds.count kind) := by
  simp only [entries, get_eq_count, List.filter_map]
  congr 1
  refine List.filter_congr fun kind _ => ?_
  simp [List.count_eq_zero]

theorem lookup_entries (root : Node) (kind : NodeKind) :
    (root.tally.entries.lookup kind).getD 0 = root.kinds.count kind := by
  rw [entries_eq]
  by_cases h : kind ∈ root.kinds
  · have hmem : kind ∈ NodeKind.all.filter (· ∈ root.kinds) := by simp [h, kind.mem_all]
    rw [List.lookup_graph _ hmem, Option.getD_some]
  · have hnone : ((NodeKind.all.filter (· ∈ root.kinds)).map fun kind =>
        (kind, root.kinds.count kind)).lookup kind = none := by
      refine List.lookup_eq_none_iff.2 fun entry hentry => ?_
      obtain ⟨other, hother, rfl⟩ := List.mem_map.1 hentry
      have hne : kind ≠ other := fun heq => h (by simpa [heq] using (List.mem_filter.1 hother).2)
      simpa using hne
    rw [hnone, List.count_eq_zero_of_not_mem h, Option.getD_none]

theorem sum_entries (root : Node) :
    (root.tally.entries.map Prod.snd).sum = root.nodes.length := by
  have hall : NodeKind.all.Nodup := by decide
  have hperm : (NodeKind.all.filter (· ∈ root.kinds)).Perm root.kinds.dedup := by
    rw [List.perm_ext_iff_of_nodup (hall.filter _) (List.nodup_dedup _)]
    simp [NodeKind.mem_all]
  have hcounts : root.tally.entries.map Prod.snd =
      (NodeKind.all.filter (· ∈ root.kinds)).map root.kinds.count := by
    rw [entries_eq, List.map_map]
    rfl
  rw [hcounts, (hperm.map _).sum_nat, List.sum_map_count_dedup_eq_length, Node.kinds,
    List.length_map]

end Tally

namespace Event

def entersRole : Event → Bool
  | .enterRole .. => true
  | _ => false

theorem Indents.length {level : Nat} {lines : List (Nat × Event)} {events : List Event}
    (h : Indents level lines events) : events.length = 2 * lines.length := by
  induction h with
  | nil => rfl
  | append _ _ ih ih' =>
    rw [List.length_append, List.length_append, ih, ih']
    omega
  | enclose _ _ ih =>
    simp only [List.length_cons, List.length_append, List.length_nil, ih]
    omega

end Event

namespace Node

theorem count_ownLines (depth : Nat) (places : List Place) :
    (places.flatMap (ownLines depth)).length =
        places.length + (places.flatMap (·.node.walkedRoles)).length ∧
      (places.flatMap (ownLines depth)).countP (·.event.entersRole) =
        (places.flatMap (·.node.walkedRoles)).length := by
  induction places with
  | nil => exact ⟨rfl, rfl⟩
  | cons place places ih =>
    simp only [List.flatMap_cons, List.length_append, List.countP_append, ih]
    simp [ownLines, walkedRoles, Line.event, Event.entersRole, List.countP_map, Function.comp_def]
    omega

theorem roles_eq (root : Node) : root.roles = root.places.flatMap (·.node.walkedRoles) := by
  rw [roles, nodes, List.flatMap_map]

theorem length_lines (root : Node) :
    root.lines.length = root.nodes.length + root.roles.length := by
  have hlength := (root.linesAt_perm 0).length_eq
  rw [(count_ownLines 0 root.places).1] at hlength
  rw [lines, hlength, roles_eq, nodes, List.length_map]

theorem count_entersRole (root : Node) :
    root.events.countP Event.entersRole = root.roles.length := by
  have hlines := (root.linesAt_perm 0).countP_eq (·.event.entersRole)
  rw [(count_ownLines 0 root.places).2] at hlines
  calc
    root.events.countP Event.entersRole
    _ = (root.events.filter (!·.isLeave)).countP Event.entersRole := by
      rw [List.countP_filter]
      refine List.countP_congr fun e _ => ?_
      cases e <;> simp [Event.entersRole, Event.isLeave]
    _ = (root.linesAt 0).countP (·.event.entersRole) := by
      rw [← root.map_event_linesAt 0, List.countP_map]
      rfl
    _ = root.roles.length := by rw [hlines, roles_eq]

theorem length_events (root : Node) :
    root.events.length = 2 * (root.nodes.length + root.roles.length) := by
  have hlength := (root.linesAt_indents 0).length
  rw [hlength, List.length_map, ← length_lines, lines]

theorem count_enterNode (root : Node) (kind : NodeKind) :
    root.events.count (.enterNode kind) = root.kinds.count kind := by
  rw [kinds, ← entered_events]
  induction root.events with
  | nil => rfl
  | cons e events ih =>
    cases e <;> simp [Event.entered?, List.filterMap_cons, List.count_cons, ih]

theorem nodes_listed (root : Node) {options : ListingOptions} (h : options.maxDepth = none) :
    (root.lines.filter (·.isShown options)).filterMap Line.node? =
      root.places.map fun place => (place.node, place.depth) := by
  have hnodes := root.filterMap_linesAt 0
  simp only [Nat.zero_add] at hnodes
  rw [← hnodes, List.filterMap_filter]
  refine List.filterMap_congr fun line _ => ?_
  cases line <;> simp [Line.isShown, Line.node?, h]

end Node

/-- Whether measures are those of a tree, and what is written of the tree agrees with them: the
events as they are read back from their listing, and the lines of a listing of all levels. -/
structure Stats.Measure (stats : Stats) (tree : Node) : Prop where
  root : stats.root = tree.kind
  nodes : stats.nodes = tree.nodes.length
  maxDepth : stats.maxDepth = tree.height
  kinds : stats.kinds =
    (NodeKind.all.filter (· ∈ tree.kinds)).map fun kind => (kind, tree.kinds.count kind)
  sum : (stats.kinds.map Prod.snd).sum = stats.nodes
  events : ∃ events, Event.decoder.list.read (tree.eventsText true) = .ok events ∧
    (∀ kind, events.count (.enterNode kind) = (stats.kinds.lookup kind).getD 0) ∧
    events.countP Event.entersRole = tree.roles.length ∧
    events.length = 2 * stats.nodes + 2 * tree.roles.length
  listing : ∀ options : ListingOptions, options.maxDepth = none →
    ∃ lines : List Line, tree.listing options = String.join (lines.map (·.text options)) ∧
      (lines.filterMap Line.node?).map Prod.fst = tree.nodes ∧
      (lines.filterMap Line.node?).length = stats.nodes

theorem Node.stats_measure (tree : Node) : tree.stats.Measure tree := by
  have hnodes : tree.stats.nodes = tree.nodes.length :=
    nodesEntered_of_descend (fun _ _ => rfl) _ tree
  refine ⟨rfl, hnodes, maxDepth_of_descend (fun _ _ => rfl) _ tree, Tally.entries_eq tree, ?_, ?_,
    fun options h => ?_⟩
  · rw [hnodes]
    exact Tally.sum_entries tree
  · refine ⟨tree.events, Event.read_records tree.events true, fun kind => ?_,
      tree.count_entersRole, ?_⟩
    · exact (tree.count_enterNode kind).trans (Tally.lookup_entries tree kind).symm
    · rw [hnodes, length_events, Nat.mul_add]
  · have hlisted := tree.nodes_listed h
    refine ⟨tree.lines.filter (·.isShown options), tree.listing_eq options, ?_, ?_⟩
    · rw [hlisted, List.map_map]
      rfl
    · rw [hlisted, hnodes, nodes, List.length_map, List.length_map]

/-- Kinds stand in the order of their declaration, wherever they come first in the tree. -/
example : (Node.list .root {} [.leaf .numberLiteral {} "1", .leaf .identifier {} "a",
      .leaf .numberLiteral {} "2"]).stats.kinds =
    [(.list .root, 1), (.leaf .identifier, 1), (.leaf .numberLiteral, 2)] := by decide

end SyntaxTree
