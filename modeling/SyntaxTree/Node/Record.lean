import SyntaxTree.Node.Basic
import SyntaxTree.Token
import SyntaxTree.Json.Writer

/-! The two written forms of a tree, each with a writer of its own. All fields of a node are always
written. The tagged form, which can be read again, names the kind first. -/

set_option autoImplicit false

namespace SyntaxTree

def Metadata.members (info : Metadata) : List (String × Json) := [
  ("FreeFloating", .ofOption Token.records info.freeFloating),
  ("Position", .ofOption Position.record info.position)]

namespace Node

mutual

/-- A node in the plain form, and all below it likewise. -/
def plainRecord : Node → Json
  | .list .root info stmts => .obj (info.members ++ [("Stmts", .arr (plainRecords stmts))])
  | .list .stmtList info stmts => .obj (info.members ++ [("Stmts", .arr (plainRecords stmts))])
  | .wrapper .expression info expr => .obj (info.members ++ [("Expr", plainChild expr)])
  | .wrapper .nullable info expr => .obj (info.members ++ [("Expr", plainChild expr)])
  | .parameter info byRef variadic type var defaultValue =>
    .obj (info.members ++ [
      ("ByRef", .bool byRef),
      ("Variadic", .bool variadic),
      ("Type", plainChild type),
      ("Var", plainChild var),
      ("DefaultValue", plainChild defaultValue)])
  | .leaf .identifier info value => .obj (info.members ++ [("Value", .str value)])
  | .wrapper .variable info varName => .obj (info.members ++ [("VarName", plainChild varName)])
  | .list .name info parts => .obj (info.members ++ [("Parts", .arr (plainRecords parts))])
  | .leaf .namePart info value => .obj (info.members ++ [("Value", .str value)])
  | .functionCall info function argumentList =>
    .obj (info.members ++ [
      ("Function", plainChild function),
      ("ArgumentList", plainChild argumentList)])
  | .list .argumentList info arguments =>
    .obj (info.members ++ [("Arguments", .arr (plainRecords arguments))])
  | .argument info variadic isReference expr =>
    .obj (info.members ++ [
      ("Variadic", .bool variadic),
      ("IsReference", .bool isReference),
      ("Expr", plainChild expr)])
  | .leaf .numberLiteral info value => .obj (info.members ++ [("Value", .str value)])
  | .leaf .integerLiteral info value => .obj (info.members ++ [("Value", .str value)])
  | .leaf .stringLiteral info value => .obj (info.members ++ [("Value", .str value)])

def plainRecords : List Node → List Json
  | [] => []
  | node :: nodes => node.plainRecord :: plainRecords nodes

def plainChild : Option Node → Json
  | none => .null
  | some node => node.plainRecord

end

def taggedWith (node : Node) (fields : List (String × Json)) : Json :=
  .obj ([
    ("Kind", .str node.kind.name),
    ("FreeFloating", .ofOption Token.records node.freeFloating),
    ("Position", .ofOption Position.record node.position)] ++ fields)

mutual

def taggedFields : Node → List (String × Json)
  | .list .root _ stmts => [("Stmts", .arr (taggedRecords stmts))]
  | .list .stmtList _ stmts => [("Stmts", .arr (taggedRecords stmts))]
  | .wrapper .expression _ expr => [("Expr", taggedChild expr)]
  | .wrapper .nullable _ expr => [("Expr", taggedChild expr)]
  | .parameter _ byRef variadic type var defaultValue => [
    ("ByRef", .bool byRef),
    ("Variadic", .bool variadic),
    ("Type", taggedChild type),
    ("Var", taggedChild var),
    ("DefaultValue", taggedChild defaultValue)]
  | .leaf .identifier _ value => [("Value", .str value)]
  | .wrapper .variable _ varName => [("VarName", taggedChild varName)]
  | .list .name _ parts => [("Parts", .arr (taggedRecords parts))]
  | .leaf .namePart _ value => [("Value", .str value)]
  | .functionCall _ function argumentList => [
    ("Function", taggedChild function),
    ("ArgumentList", taggedChild argumentList)]
  | .list .argumentList _ arguments => [("Arguments", .arr (taggedRecords arguments))]
  | .argument _ variadic isReference expr => [
    ("Variadic", .bool variadic),
    ("IsReference", .bool isReference),
    ("Expr", taggedChild expr)]
  | .leaf .numberLiteral _ value => [("Value", .str value)]
  | .leaf .integerLiteral _ value => [("Value", .str value)]
  | .leaf .stringLiteral _ value => [("Value", .str value)]

def taggedRecords : List Node → List Json
  | [] => []
  | node :: nodes => node.taggedWith (taggedFields node) :: taggedRecords nodes

def taggedChild : Option Node → Json
  | none => .null
  | some node => node.taggedWith (taggedFields node)

end

/-- A node in the tagged form, and all below it likewise. -/
def taggedRecord (node : Node) : Json := node.taggedWith node.taggedFields

def record : (tagged : Bool) → Node → Json
  | true => taggedRecord
  | false => plainRecord

def text (node : Node) (tagged pretty : Bool) : String := (node.record tagged).text pretty

end Node

end SyntaxTree
