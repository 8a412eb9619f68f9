import SyntaxTree.Failure
import SyntaxTree.Node.Record

set_option autoImplicit false

namespace SyntaxTree.Node

structure ParameterFields where
  byRef : Bool := false
  variadic : Bool := false
  type : Option Node := none
  var : Option Node := none
  defaultValue : Option Node := none

structure ArgumentFields where
  variadic : Bool := false
  isReference : Bool := false
  expr : Option Node := none

def formOf {α : Type} (kind : NodeKind) (blank : α) (fields : List (Field (Metadata × α))) :
    Form (Metadata × α) where
  name := "struct " ++ kind.name
  blank := ({}, blank)
  fields := [
    .of "FreeFloating" .optional Token.decoder.list.option fun freeFloating node =>
      ({ node.1 with freeFloating }, node.2),
    .of "Position" .optional Position.decoder.option fun position node =>
      ({ node.1 with position }, node.2)] ++ fields

variable (child : Decoder Node)

def listForm (kind : ListKind) (key : String) : Form (Metadata × List Node) :=
  formOf (.list kind) [] [.of key .defaulted child.list fun items node => (node.1, items)]

def wrapperForm (kind : WrapperKind) (key : String) : Form (Metadata × Option Node) :=
  formOf (.wrapper kind) none [.of key .optional child.option fun child node => (node.1, child)]

def leafForm (kind : LeafKind) (key : String) : Form (Metadata × String) :=
  formOf (.leaf kind) "" [.of key .defaulted .string fun value node => (node.1, value)]

def parameterForm : Form (Metadata × ParameterFields) :=
  formOf .parameter {} [
    .of "ByRef" .defaulted .flag fun byRef node => (node.1, { node.2 with byRef }),
    .of "Variadic" .defaulted .flag fun variadic node => (node.1, { node.2 with variadic }),
    .of "Type" .optional child.option fun type node => (node.1, { node.2 with type }),
    .of "Var" .optional child.option fun var node => (node.1, { node.2 with var }),
    .of "DefaultValue" .optional child.option fun defaultValue node =>
      (node.1, { node.2 with defaultValue })]

def functionCallForm : Form (Metadata × Option Node × Option Node) :=
  formOf .functionCall (none, none) [
    .of "Function" .optional child.option fun function node => (node.1, function, node.2.2),
    .of "ArgumentList" .optional child.option fun argumentList node =>
      (node.1, node.2.1, argumentList)]

def argumentForm : Form (Metadata × ArgumentFields) :=
  formOf .argument {} [
    .of "Variadic" .defaulted .flag fun variadic node => (node.1, { node.2 with variadic }),
    .of "IsReference" .defaulted .flag fun isReference node =>
      (node.1, { node.2 with isReference }),
    .of "Expr" .optional child.option fun expr node => (node.1, { node.2 with expr })]

def listDecoder (kind : ListKind) (key : String) : Decoder Node :=
  (listForm child kind key).decoder.map fun node => .list kind node.1 node.2

def wrapperDecoder (kind : WrapperKind) (key : String) : Decoder Node :=
  (wrapperForm child kind key).decoder.map fun node => .wrapper kind node.1 node.2

def leafDecoder (kind : LeafKind) (key : String) : Decoder Node :=
  (leafForm kind key).decoder.map fun node => .leaf kind node.1 node.2

/-- Reads the fields of a node of a known kind, given a way to read its children. -/
def fieldDecoder : NodeKind → Decoder Node
  | .list .root => listDecoder child .root "Stmts"
  | .list .stmtList => listDecoder child .stmtList "Stmts"
  | .wrapper .expression => wrapperDecoder child .expression "Expr"
  | .wrapper .nullable => wrapperDecoder child .nullable "Expr"
  | .parameter => (parameterForm child).decoder.map fun (info, fields) =>
    .parameter info fields.byRef fields.variadic fields.type fields.var fields.defaultValue
  | .leaf .identifier => leafDecoder .identifier "Value"
  | .wrapper .variable => wrapperDecoder child .variable "VarName"
  | .list .name => listDecoder child .name "Parts"
  | .leaf .namePart => leafDecoder .namePart "Value"
  | .functionCall => (functionCallForm child).decoder.map fun (info, function, argumentList) =>
    .functionCall info function argumentList
  | .list .argumentList => listDecoder child .argumentList "Arguments"
  | .argument => (argumentForm child).decoder.map fun (info, fields) =>
    .argument info fields.variadic fields.isReference fields.expr
  | .leaf .numberLiteral => leafDecoder .numberLiteral "Value"
  | .leaf .integerLiteral => leafDecoder .integerLiteral "Value"
  | .leaf .stringLiteral => leafDecoder .stringLiteral "Value"

def tagged (fields : NodeKind → Json → Except Json.Problem Node) : Tagged Node where
  name := "Node"
  tag := "Kind"
  forms := NodeKind.all.map fun kind => (kind.name, fields kind)

def decoderWithin : Nat → Decoder Node
  | 0 => (tagged fun _ _ => .error .nestingTooDeep).decoder
  | levels + 1 =>
    (tagged fun kind value => (fieldDecoder (decoderWithin levels) kind).ofJson value).decoder

/-- Reads trees. Every level takes an object or array of the document, so no document holds more
levels than the limit on those. -/
def decoder : Decoder Node := decoderWithin Json.nestingLimit

def decoderOf (kind : NodeKind) : Decoder Node := fieldDecoder decoder kind

def ofText (text : String) : Except Json.Defect Node := decoder.read text

/-- Reads the tree of a document. A blank text is no document. -/
def ofDocument (text : String) : Except Failure Node :=
  if Text.isBlank text.toList then .error (.invalidInput "input is empty" 0 0)
  else
    match ofText text with
    | .ok node => .ok node
    | .error defect => .error (.ofDefect defect)

end SyntaxTree.Node
