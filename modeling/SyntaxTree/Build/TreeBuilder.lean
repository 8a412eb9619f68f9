import SyntaxTree.Build.Arena
import SyntaxTree.Build.ScopedList

/-! Building trees from the leaves up. Nodes are stored until their parent is made: children of a
list are collected in scopes, single children are taken one by one. Every operation returns the
builder as it is afterwards, also when it fails. -/

set_option autoImplicit false

namespace SyntaxTree

structure TreeBuilder where
  arena : Arena
  lists : ScopedList NodeId
  deriving Repr

namespace TreeBuilder

def empty : TreeBuilder := ⟨.empty, .empty⟩

def openList (builder : TreeBuilder) : TreeBuilder := { builder with lists := builder.lists.push }

def alloc (builder : TreeBuilder) (node : Node) : NodeId × TreeBuilder :=
  let (id, arena) := builder.arena.alloc node
  (id, { builder with arena })

def emit (builder : TreeBuilder) (node : Node) : NodeId × TreeBuilder :=
  let (id, arena) := builder.arena.alloc node
  (id, ⟨arena, builder.lists.add id⟩)

def take (builder : TreeBuilder) (id : NodeId) : Except BuildError Node × TreeBuilder :=
  let (result, arena) := builder.arena.take id
  (result, { builder with arena })

/-- Ends the innermost list and takes its children. All of them are checked first: a list of which a
child has been taken stays open. -/
def closeList (builder : TreeBuilder) : Except BuildError (List Node) × TreeBuilder :=
  match builder.lists.current.forM builder.arena.check with
  | .error error => (.error error, builder)
  | .ok () =>
    let (ids, lists) := builder.lists.pop
    let (result, arena) := builder.arena.takeAll ids
    (result, ⟨arena, lists⟩)

def depth (builder : TreeBuilder) : Nat := builder.lists.depth

def pending (builder : TreeBuilder) : Nat := builder.arena.live

/-- Hands back the root of a finished tree and starts anew. No list may be open. -/
def finish (builder : TreeBuilder) (root : Node) : Except BuildError Node × TreeBuilder :=
  if builder.depth > 0 then (.error (.unbalancedLists builder.depth), builder)
  else (.ok root, .empty)

end TreeBuilder

end SyntaxTree
