import SyntaxTree.Node.Basic

set_option autoImplicit false

namespace SyntaxTree.Node

@[simp] theorem children_list (kind : ListKind) (info : Metadata) (items : List Node) :
    (Node.list kind info items).children = items := by simp [children, slots, Slot.children]

@[simp] theorem children_wrapper (kind : WrapperKind) (info : Metadata) (child : Option Node) :
    (Node.wrapper kind info child).children = child.toList := by
  simp [children, slots, Slot.children]

@[simp] theorem children_leaf (kind : LeafKind) (info : Metadata) (value : String) :
    (Node.leaf kind info value).children = [] := rfl

@[simp] theorem children_parameter (info : Metadata) (byRef variadic : Bool)
    (type var defaultValue : Option Node) :
    (Node.parameter info byRef variadic type var defaultValue).children =
      type.toList ++ (var.toList ++ defaultValue.toList) := by
  simp [children, slots, Slot.children]

@[simp] theorem children_functionCall (info : Metadata) (function argumentList : Option Node) :
    (Node.functionCall info function argumentList).children =
      function.toList ++ argumentList.toList := by simp [children, slots, Slot.children]

@[simp] theorem children_argument (info : Metadata) (variadic isReference : Bool)
    (expr : Option Node) :
    (Node.argument info variadic isReference expr).children = expr.toList := by
  simp [children, slots, Slot.children]

theorem mem_children {node child : Node} :
    child ∈ node.children ↔ ∃ slot ∈ node.slots, child ∈ slot.2.children := by
  simp only [children, List.mem_flatMap]

mutual

theorem induction_node {motive : Node → Prop}
    (step : ∀ node, (∀ child ∈ node.children, motive child) → motive node) : ∀ node, motive node
  | .list _ _ items => step _ (by simpa using induction_list step items)
  | .wrapper _ _ child => step _ (by simpa using induction_option step child)
  | .leaf .. => step _ (by simp)
  | .parameter _ _ _ type var defaultValue => by
    have ht := induction_option step type
    have hv := induction_option step var
    have hd := induction_option step defaultValue
    refine step _ fun child hc => ?_
    simp only [children_parameter, List.mem_append] at hc
    rcases hc with hc | hc | hc
    · exact ht child hc
    · exact hv child hc
    · exact hd child hc
  | .functionCall _ function argumentList => by
    have hf := induction_option step function
    have ha := induction_option step argumentList
    refine step _ fun child hc => ?_
    simp only [children_functionCall, List.mem_append] at hc
    rcases hc with hc | hc
    · exact hf child hc
    · exact ha child hc
  | .argument _ _ _ expr => step _ (by simpa using induction_option step expr)

theorem induction_list {motive : Node → Prop}
    (step : ∀ node, (∀ child ∈ node.children, motive child) → motive node) :
    ∀ items : List Node, ∀ child ∈ items, motive child
  | [] => by simp
  | item :: items => by
    have hi := induction_node step item
    have hr := induction_list step items
    intro child hc
    rcases List.mem_cons.1 hc with rfl | hc
    · exact hi
    · exact hr child hc

theorem induction_option {motive : Node → Prop}
    (step : ∀ node, (∀ child ∈ node.children, motive child) → motive node) :
    ∀ o : Option Node, ∀ child ∈ o.toList, motive child
  | none => by simp
  | some node => by
    have hn := induction_node step node
    intro child hc
    rw [List.mem_singleton.1 hc]
    exact hn

end

/-- What holds of a node whenever it holds of its children holds of every node. -/
@[elab_as_elim]
theorem induction {motive : Node → Prop}
    (step : ∀ node, (∀ child ∈ node.children, motive child) → motive node) (node : Node) :
    motive node := induction_node step node

structure Branch (β : Type) where
  role : Role
  isList : Bool
  children : List β

def Branch.of {β : Type} (f : Node → β) (slot : Role × Slot) : Branch β :=
  ⟨slot.1, slot.2.isList, slot.2.children.map f⟩

section

variable {β : Type} (f : Node → List (Branch β) → β)

mutual

/-- Finds something for a node from what has been found for its children, role by role. -/
def fold : Node → β
  | .list kind info items => f (.list kind info items) [⟨kind.role, true, foldList items⟩]
  | .wrapper kind info child =>
    f (.wrapper kind info child) [⟨kind.role, false, foldOption child⟩]
  | .leaf kind info value => f (.leaf kind info value) []
  | .parameter info byRef variadic type var defaultValue =>
    f (.parameter info byRef variadic type var defaultValue) [
      ⟨.type, false, foldOption type⟩,
      ⟨.var, false, foldOption var⟩,
      ⟨.defaultValue, false, foldOption defaultValue⟩]
  | .functionCall info function argumentList =>
    f (.functionCall info function argumentList) [
      ⟨.function, false, foldOption function⟩,
      ⟨.argumentList, false, foldOption argumentList⟩]
  | .argument info variadic isReference expr =>
    f (.argument info variadic isReference expr) [⟨.expr, false, foldOption expr⟩]

def foldList : List Node → List β
  | [] => []
  | node :: nodes => fold node :: foldList nodes

def foldOption : Option Node → List β
  | none => []
  | some node => [fold node]

end

theorem foldList_eq (nodes : List Node) : foldList f nodes = nodes.map (fold f) := by
  induction nodes with
  | nil => rfl
  | cons node nodes ih => rw [foldList, ih, List.map_cons]

theorem foldOption_eq (o : Option Node) : foldOption f o = o.toList.map (fold f) := by
  cases o <;> rfl

theorem fold_eq (node : Node) : node.fold f = f node (node.slots.map (.of (fold f))) := by
  cases node <;>
    simp [fold, foldList_eq, foldOption_eq, slots, Branch.of, Slot.isList, Slot.children]

end

end SyntaxTree.Node
