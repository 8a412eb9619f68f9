import SyntaxTree.Failure
import SyntaxTree.Node.Basic

set_option autoImplicit false

namespace SyntaxTree

structure NodeId where
  number : UInt32
  deriving DecidableEq, Repr, Inhabited

def NodeId.text (id : NodeId) : String := "NodeId(" ++ toString id.number ++ ")"

def NodeId.index (id : NodeId) : Nat := id.number.toNat

inductive BuildError where
  | alreadyTaken (id : NodeId)
  | unknownNode (id : NodeId)
  | unbalancedLists (depth : Nat)
  deriving DecidableEq, Repr

def BuildError.message : BuildError → String
  | .alreadyTaken id => id.text ++ " was already attached to a parent"
  | .unknownNode id => id.text ++ " does not belong to this arena"
  | .unbalancedLists depth => toString depth ++ " list scope(s) still open"

def Failure.ofBuildError (error : BuildError) : Failure := .invalidTree error.message

/-- A slot for every node stored so far, empty once the node has been taken, and the number of slots
that are not. -/
structure Arena where
  slots : Array (Option Node)
  live : Nat
  deriving Repr

namespace Arena

def empty : Arena := ⟨#[], 0⟩

def allocated (arena : Arena) : Nat := arena.slots.size

def alloc (arena : Arena) (node : Node) : NodeId × Arena :=
  (⟨UInt32.ofNat arena.slots.size⟩, ⟨arena.slots.push (some node), arena.live + 1⟩)

def check (arena : Arena) (id : NodeId) : Except BuildError Unit :=
  match arena.slots[id.index]? with
  | none => .error (.unknownNode id)
  | some none => .error (.alreadyTaken id)
  | some (some _) => .ok ()

def get? (arena : Arena) (id : NodeId) : Option Node := arena.slots[id.index]?.join

def take (arena : Arena) (id : NodeId) : Except BuildError Node × Arena :=
  match arena.check id with
  | .error error => (.error error, arena)
  | .ok () =>
    match arena.get? id with
    | none => (.error (.alreadyTaken id), arena)
    | some node => (.ok node, ⟨arena.slots.setIfInBounds id.index none, arena.live - 1⟩)

/-- Takes nodes one after another, up to the first that cannot be taken. -/
def takeAll (arena : Arena) : List NodeId → Except BuildError (List Node) × Arena
  | [] => (.ok [], arena)
  | id :: ids =>
    match arena.take id with
    | (.error error, arena) => (.error error, arena)
    | (.ok node, arena) =>
      match arena.takeAll ids with
      | (.error error, arena) => (.error error, arena)
      | (.ok nodes, arena) => (.ok (node :: nodes), arena)

end Arena

end SyntaxTree
