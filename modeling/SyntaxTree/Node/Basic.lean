import SyntaxTree.Node.Kind
import SyntaxTree.Token

set_option autoImplicit false

namespace SyntaxTree

/-- The metadata of a node. Absent tokens differ from an empty list of them. -/
structure Metadata where
  freeFloating : Option (List Token) := none
  position : Option Position := none
  deriving DecidableEq, Repr, Inhabited

inductive Node where
  | list (kind : ListKind) (info : Metadata) (items : List Node)
  | wrapper (kind : WrapperKind) (info : Metadata) (child : Option Node)
  | leaf (kind : LeafKind) (info : Metadata) (value : String)
  | parameter (info : Metadata) (byRef variadic : Bool) (type var defaultValue : Option Node)
  | functionCall (info : Metadata) (function argumentList : Option Node)
  | argument (info : Metadata) (variadic isReference : Bool) (expr : Option Node)
  deriving Repr, Inhabited

namespace Node

def kind : Node → NodeKind
  | .list kind _ _ => .list kind
  | .wrapper kind _ _ => .wrapper kind
  | .leaf kind _ _ => .leaf kind
  | .parameter .. => .parameter
  | .functionCall .. => .functionCall
  | .argument .. => .argument

def info : Node → Metadata
  | .list _ info _ => info
  | .wrapper _ info _ => info
  | .leaf _ info _ => info
  | .parameter info .. => info
  | .functionCall info .. => info
  | .argument info .. => info

def withInfo (info : Metadata) : Node → Node
  | .list kind _ items => .list kind info items
  | .wrapper kind _ child => .wrapper kind info child
  | .leaf kind _ value => .leaf kind info value
  | .parameter _ byRef variadic type var defaultValue =>
    .parameter info byRef variadic type var defaultValue
  | .functionCall _ function argumentList => .functionCall info function argumentList
  | .argument _ variadic isReference expr => .argument info variadic isReference expr

def position (node : Node) : Option Position := node.info.position

def freeFloating (node : Node) : Option (List Token) := node.info.freeFloating

def withPosition (position : Option Position) (node : Node) : Node :=
  node.withInfo { node.info with position }

def withFreeFloating (freeFloating : Option (List Token)) (node : Node) : Node :=
  node.withInfo { node.info with freeFloating }

inductive Slot where
  | single (child : Option Node)
  | list (items : List Node)
  deriving Repr

def Slot.isList : Slot → Bool
  | .single _ => false
  | .list _ => true

def Slot.children : Slot → List Node
  | .single child => child.toList
  | .list items => items

/-- The roles of a node in order, with what it holds under each. -/
def slots : Node → List (Role × Slot)
  | .list kind _ items => [(kind.role, .list items)]
  | .wrapper kind _ child => [(kind.role, .single child)]
  | .leaf .. => []
  | .parameter _ _ _ type var defaultValue =>
    [(.type, .single type), (.var, .single var), (.defaultValue, .single defaultValue)]
  | .functionCall _ function argumentList =>
    [(.function, .single function), (.argumentList, .single argumentList)]
  | .argument _ _ _ expr => [(.expr, .single expr)]

def children (node : Node) : List Node := node.slots.flatMap (·.2.children)

def isLeaf : Node → Bool
  | .leaf .. => true
  | _ => false

def namePart? : Node → Option String
  | .leaf .namePart _ value => some value
  | _ => none

/-- The texts of the parts of a name, joined by backslashes. Items that are no parts are left out.
-/
def joinedName (parts : List Node) : String := "\\".intercalate (parts.filterMap namePart?)

mutual

def decEq : (a b : Node) → Decidable (a = b)
  | .list kind info items, .list kind' info' items' =>
    match decEqList items items' with
    | isTrue h => decidable_of_iff (kind = kind' ∧ info = info') (by simp [h])
    | isFalse h => isFalse (by simp [h])
  | .wrapper kind info child, .wrapper kind' info' child' =>
    match decEqOption child child' with
    | isTrue h => decidable_of_iff (kind = kind' ∧ info = info') (by simp [h])
    | isFalse h => isFalse (by simp [h])
  | .leaf kind info value, .leaf kind' info' value' =>
    decidable_of_iff (kind = kind' ∧ info = info' ∧ value = value') (by simp)
  | .parameter info byRef variadic type var defaultValue,
      .parameter info' byRef' variadic' type' var' defaultValue' =>
    match decEqOption type type', decEqOption var var', decEqOption defaultValue defaultValue' with
    | isTrue h, isTrue i, isTrue j =>
      decidable_of_iff (info = info' ∧ byRef = byRef' ∧ variadic = variadic') (by simp [h, i, j])
    | isFalse h, _, _ => isFalse (by simp [h])
    | _, isFalse h, _ => isFalse (by simp [h])
    | _, _, isFalse h => isFalse (by simp [h])
  | .functionCall info function argumentList, .functionCall info' function' argumentList' =>
    match decEqOption function function', decEqOption argumentList argumentList' with
    | isTrue h, isTrue i => decidable_of_iff (info = info') (by simp [h, i])
    | isFalse h, _ => isFalse (by simp [h])
    | _, isFalse h => isFalse (by simp [h])
  | .argument info variadic isReference expr, .argument info' variadic' isReference' expr' =>
    match decEqOption expr expr' with
    | isTrue h =>
      decidable_of_iff (info = info' ∧ variadic = variadic' ∧ isReference = isReference')
        (by simp [h])
    | isFalse h => isFalse (by simp [h])
  | .list .., .wrapper .. | .list .., .leaf .. | .list .., .parameter ..
  | .list .., .functionCall .. | .list .., .argument .. => isFalse (by simp)
  | .wrapper .., .list .. | .wrapper .., .leaf .. | .wrapper .., .parameter ..
  | .wrapper .., .functionCall .. | .wrapper .., .argument .. => isFalse (by simp)
  | .leaf .., .list .. | .leaf .., .wrapper .. | .leaf .., .parameter ..
  | .leaf .., .functionCall .. | .leaf .., .argument .. => isFalse (by simp)
  | .parameter .., .list .. | .parameter .., .wrapper .. | .parameter .., .leaf ..
  | .parameter .., .functionCall .. | .parameter .., .argument .. => isFalse (by simp)
  | .functionCall .., .list .. | .functionCall .., .wrapper .. | .functionCall .., .leaf ..
  | .functionCall .., .parameter .. | .functionCall .., .argument .. => isFalse (by simp)
  | .argument .., .list .. | .argument .., .wrapper .. | .argument .., .leaf ..
  | .argument .., .parameter .. | .argument .., .functionCall .. => isFalse (by simp)

def decEqList : (a b : List Node) → Decidable (a = b)
  | [], [] => isTrue rfl
  | [], _ :: _ => isFalse (by simp)
  | _ :: _, [] => isFalse (by simp)
  | a :: as, b :: bs =>
    match decEq a b, decEqList as bs with
    | isTrue h, isTrue i => isTrue (by rw [h, i])
    | isFalse h, _ => isFalse (by simp [h])
    | _, isFalse h => isFalse (by simp [h])

def decEqOption : (a b : Option Node) → Decidable (a = b)
  | none, none => isTrue rfl
  | none, some _ => isFalse (by simp)
  | some _, none => isFalse (by simp)
  | some a, some b =>
    match decEq a b with
    | isTrue h => isTrue (by rw [h])
    | isFalse h => isFalse (by simp [h])

end

instance : DecidableEq Node := decEq

end Node

end SyntaxTree
