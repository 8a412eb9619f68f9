set_option autoImplicit false

namespace SyntaxTree

/-- Buffered items, and where each open scope starts, the innermost first. -/
structure ScopedList (α : Type) where
  items : Array α
  cuts : List Nat
  deriving Repr

namespace ScopedList

variable {α : Type}

def empty : ScopedList α := ⟨#[], []⟩

def size (list : ScopedList α) : Nat := list.items.size

def isEmpty (list : ScopedList α) : Bool := list.items.isEmpty

def depth (list : ScopedList α) : Nat := list.cuts.length

def cut (list : ScopedList α) : Nat := list.cuts.headD 0

def current (list : ScopedList α) : List α := list.items.toList.drop list.cut

def add (list : ScopedList α) (item : α) : ScopedList α :=
  { list with items := list.items.push item }

def push (list : ScopedList α) : ScopedList α := { list with cuts := list.items.size :: list.cuts }

/-- Closes the innermost scope and takes its items; without an open scope, takes all. -/
def pop (list : ScopedList α) : List α × ScopedList α :=
  (list.current, ⟨list.items.take list.cut, list.cuts.tail⟩)

end ScopedList

end SyntaxTree
