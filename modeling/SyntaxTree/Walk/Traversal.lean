import SyntaxTree.Walk.Visitor

/-! Walks through a tree from the root down. A node is entered, its children are walked role by role
unless the visitor skips them, and the node is left. A role without a child is passed over if it can
hold only one; a role that holds a list is entered and left even when the list is empty. -/

set_option autoImplicit false

namespace SyntaxTree

structure Summary where
  nodesEntered : Nat := 0
  nodesSkipped : Nat := 0
  maxDepth : Nat := 0
  deriving DecidableEq, Repr

structure Walk (σ : Type) where
  state : σ
  summary : Summary

namespace Walk

variable {σ : Type}

def call (hook : σ → σ) (walk : Walk σ) : Walk σ := { walk with state := hook walk.state }

/-- Enters a node, runs the walk through its children unless they are skipped, and leaves it. -/
def node (visitor : Visitor σ) (node : Node) (depth : Nat) (children : Walk σ → Walk σ)
    (walk : Walk σ) : Walk σ :=
  let (descent, state) := visitor.enterNode node walk.state
  let summary := {
    walk.summary with
    nodesEntered := walk.summary.nodesEntered + 1
    maxDepth := max walk.summary.maxDepth depth }
  let below : Walk σ := match descent with
    | .descend => children ⟨state, summary⟩
    | .skip => ⟨state, { summary with nodesSkipped := summary.nodesSkipped + 1 }⟩
  below.call (visitor.leaveNode node)

/-- Enters a role, runs the walk through its children, and leaves it. -/
def role (visitor : Visitor σ) (role : Role) (isList : Bool) (children : Walk σ → Walk σ)
    (walk : Walk σ) : Walk σ :=
  (children (walk.call (visitor.enterRole role isList))).call (visitor.leaveRole role isList)

end Walk

namespace Node

variable {σ : Type} (visitor : Visitor σ)

mutual

def walk : Node → Nat → Walk σ → Walk σ
  | .list kind info items, depth =>
    Walk.node visitor (.list kind info items) depth
      (Walk.role visitor kind.role true (walkList items (depth + 1)))
  | .wrapper kind info child, depth =>
    Walk.node visitor (.wrapper kind info child) depth
      (walkOption kind.role child (depth + 1))
  | .leaf kind info value, depth => Walk.node visitor (.leaf kind info value) depth id
  | .parameter info byRef variadic type var defaultValue, depth =>
    Walk.node visitor (.parameter info byRef variadic type var defaultValue) depth fun run =>
      walkOption .defaultValue defaultValue (depth + 1)
        (walkOption .var var (depth + 1) (walkOption .type type (depth + 1) run))
  | .functionCall info function argumentList, depth =>
    Walk.node visitor (.functionCall info function argumentList) depth fun run =>
      walkOption .argumentList argumentList (depth + 1)
        (walkOption .function function (depth + 1) run)
  | .argument info variadic isReference expr, depth =>
    Walk.node visitor (.argument info variadic isReference expr) depth
      (walkOption .expr expr (depth + 1))

def walkList : List Node → Nat → Walk σ → Walk σ
  | [], _, run => run
  | node :: nodes, depth, run => walkList nodes depth (walk node depth run)

def walkOption (role : Role) : Option Node → Nat → Walk σ → Walk σ
  | none, _, run => run
  | some node, depth, run => Walk.role visitor role false (walk node depth) run

end

def traverse (state : σ) (root : Node) : Walk σ := root.walk visitor 0 ⟨state, {}⟩

end Node

inductive Phase where
  | idle
  | done
  deriving DecidableEq, Repr

/-- A visitor with its state, to be taken through several trees. The summary is that of the last
walk. -/
structure Traverser (σ : Type) where
  visitor : Visitor σ
  state : σ
  phase : Phase := .idle
  summary : Summary := {}

def Traverser.traverse {σ : Type} (traverser : Traverser σ) (root : Node) : Traverser σ :=
  let walk := root.traverse traverser.visitor traverser.state
  { traverser with state := walk.state, phase := .done, summary := walk.summary }

end SyntaxTree
