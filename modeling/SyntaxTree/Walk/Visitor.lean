import SyntaxTree.Node.Basic

set_option autoImplicit false

namespace SyntaxTree

inductive Descent where
  | descend
  | skip
  deriving DecidableEq, Repr

/-- A handler for each kind of node. It gets what a node of the kind holds. By default it does
nothing. -/
structure Handlers (σ : Type) where
  onRoot : Metadata → List Node → σ → σ := fun _ _ state => state
  onStmtList : Metadata → List Node → σ → σ := fun _ _ state => state
  onExpression : Metadata → Option Node → σ → σ := fun _ _ state => state
  onNullable : Metadata → Option Node → σ → σ := fun _ _ state => state
  onParameter : Metadata → (byRef variadic : Bool) → (type var defaultValue : Option Node) →
    σ → σ := fun _ _ _ _ _ _ state => state
  onIdentifier : Metadata → String → σ → σ := fun _ _ state => state
  onVariable : Metadata → Option Node → σ → σ := fun _ _ state => state
  onName : Metadata → List Node → σ → σ := fun _ _ state => state
  onNamePart : Metadata → String → σ → σ := fun _ _ state => state
  onFunctionCall : Metadata → (function argumentList : Option Node) → σ → σ :=
    fun _ _ _ state => state
  onArgumentList : Metadata → List Node → σ → σ := fun _ _ state => state
  onArgument : Metadata → (variadic isReference : Bool) → Option Node → σ → σ :=
    fun _ _ _ _ state => state
  onNumberLiteral : Metadata → String → σ → σ := fun _ _ state => state
  onIntegerLiteral : Metadata → String → σ → σ := fun _ _ state => state
  onStringLiteral : Metadata → String → σ → σ := fun _ _ state => state

def Node.accept {σ : Type} (handlers : Handlers σ) : Node → σ → σ
  | .list .root info stmts => handlers.onRoot info stmts
  | .list .stmtList info stmts => handlers.onStmtList info stmts
  | .list .name info parts => handlers.onName info parts
  | .list .argumentList info arguments => handlers.onArgumentList info arguments
  | .wrapper .expression info expr => handlers.onExpression info expr
  | .wrapper .nullable info expr => handlers.onNullable info expr
  | .wrapper .variable info varName => handlers.onVariable info varName
  | .leaf .identifier info value => handlers.onIdentifier info value
  | .leaf .namePart info value => handlers.onNamePart info value
  | .leaf .numberLiteral info value => handlers.onNumberLiteral info value
  | .leaf .integerLiteral info value => handlers.onIntegerLiteral info value
  | .leaf .stringLiteral info value => handlers.onStringLiteral info value
  | .parameter info byRef variadic type var defaultValue =>
    handlers.onParameter info byRef variadic type var defaultValue
  | .functionCall info function argumentList => handlers.onFunctionCall info function argumentList
  | .argument info variadic isReference expr => handlers.onArgument info variadic isReference expr

structure Visitor (σ : Type) where
  handlers : Handlers σ := {}
  enterNode : Node → σ → Descent × σ := fun node state => (.descend, node.accept handlers state)
  leaveNode : Node → σ → σ := fun _ state => state
  enterRole : Role → (isList : Bool) → σ → σ := fun _ _ state => state
  leaveRole : Role → (isList : Bool) → σ → σ := fun _ _ state => state

def Visitor.idle : Visitor Unit := {}

end SyntaxTree
