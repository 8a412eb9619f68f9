set_option autoImplicit false

namespace SyntaxTree

inductive ListKind where
  | root
  | stmtList
  | name
  | argumentList
  deriving DecidableEq, Repr, Inhabited

inductive WrapperKind where
  | expression
  | nullable
  | variable
  deriving DecidableEq, Repr, Inhabited

inductive LeafKind where
  | identifier
  | namePart
  | numberLiteral
  | integerLiteral
  | stringLiteral
  deriving DecidableEq, Repr, Inhabited

inductive NodeKind where
  | list (kind : ListKind)
  | wrapper (kind : WrapperKind)
  | leaf (kind : LeafKind)
  | parameter
  | functionCall
  | argument
  deriving DecidableEq, Repr, Inhabited

namespace NodeKind

def all : List NodeKind := [
  .list .root, .list .stmtList, .wrapper .expression, .wrapper .nullable, .parameter,
  .leaf .identifier, .wrapper .variable, .list .name, .leaf .namePart, .functionCall,
  .list .argumentList, .argument, .leaf .numberLiteral, .leaf .integerLiteral,
  .leaf .stringLiteral]

def rank : NodeKind → Fin 15
  | .list .root => 0
  | .list .stmtList => 1
  | .wrapper .expression => 2
  | .wrapper .nullable => 3
  | .parameter => 4
  | .leaf .identifier => 5
  | .wrapper .variable => 6
  | .list .name => 7
  | .leaf .namePart => 8
  | .functionCall => 9
  | .list .argumentList => 10
  | .argument => 11
  | .leaf .numberLiteral => 12
  | .leaf .integerLiteral => 13
  | .leaf .stringLiteral => 14

def name : NodeKind → String
  | .list .root => "Root"
  | .list .stmtList => "StmtList"
  | .list .name => "Name"
  | .list .argumentList => "ArgumentList"
  | .wrapper .expression => "Expression"
  | .wrapper .nullable => "Nullable"
  | .wrapper .variable => "Variable"
  | .leaf .identifier => "Identifier"
  | .leaf .namePart => "NamePart"
  | .leaf .numberLiteral => "NumberLiteral"
  | .leaf .integerLiteral => "IntegerLiteral"
  | .leaf .stringLiteral => "StringLiteral"
  | .parameter => "Parameter"
  | .functionCall => "FunctionCall"
  | .argument => "Argument"

theorem all_rank : all.map rank = List.finRange 15 := by decide

end NodeKind

inductive Role where
  | stmts
  | expr
  | type
  | var
  | defaultValue
  | varName
  | parts
  | function
  | argumentList
  | arguments
  deriving DecidableEq, Repr, Inhabited

namespace Role

def all : List Role := [
  .stmts, .expr, .type, .var, .defaultValue, .varName, .parts, .function, .argumentList, .arguments]

def name : Role → String
  | .stmts => "Stmts"
  | .expr => "Expr"
  | .type => "Type"
  | .var => "Var"
  | .defaultValue => "DefaultValue"
  | .varName => "VarName"
  | .parts => "Parts"
  | .function => "Function"
  | .argumentList => "ArgumentList"
  | .arguments => "Arguments"

end Role

def ListKind.role : ListKind → Role
  | .root => .stmts
  | .stmtList => .stmts
  | .name => .parts
  | .argumentList => .arguments

def WrapperKind.role : WrapperKind → Role
  | .expression => .expr
  | .nullable => .expr
  | .variable => .varName

end SyntaxTree
