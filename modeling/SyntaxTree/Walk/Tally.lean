import SyntaxTree.Walk.Traversal
import SyntaxTree.Report

set_option autoImplicit false

namespace SyntaxTree

structure Tally where
  counts : Vector Nat 15
  deriving DecidableEq, Repr

namespace Tally

def empty : Tally := ⟨Vector.replicate 15 0⟩

def get (tally : Tally) (kind : NodeKind) : Nat := tally.counts[kind.rank]

def add (tally : Tally) (kind : NodeKind) : Tally :=
  ⟨tally.counts.set kind.rank (tally.get kind + 1)⟩

def total (tally : Tally) : Nat := tally.counts.toList.foldl (· + ·) 0

def entries (tally : Tally) : List (NodeKind × Nat) :=
  (NodeKind.all.map fun kind => (kind, tally.get kind)).filter (·.2 ≠ 0)

def counter : Visitor Tally where
  enterNode node tally := (.descend, tally.add node.kind)

end Tally

def Node.tally (root : Node) : Tally := (root.traverse Tally.counter .empty).state

structure Stats where
  root : NodeKind
  nodes : Nat
  maxDepth : Nat
  kinds : List (NodeKind × Nat)
  deriving DecidableEq, Repr

def Node.stats (root : Node) : Stats :=
  let walk := root.traverse Tally.counter .empty
  ⟨root.kind, walk.summary.nodesEntered, walk.summary.maxDepth, walk.state.entries⟩

def Stats.record (stats : Stats) : Json :=
  .obj [
    ("status", .str "ok"),
    ("schema_version", .str Report.schemaVersion),
    ("root", .str stats.root.name),
    ("nodes", .ofNat stats.nodes),
    ("max_depth", .ofNat stats.maxDepth),
    ("kinds", .obj (stats.kinds.map fun (kind, n) => (kind.name, .ofNat n)))]

end SyntaxTree
