import SyntaxTree.Decoder.Choice
import SyntaxTree.Decoder.Record
import SyntaxTree.Walk.Traversal

set_option autoImplicit false

namespace SyntaxTree

inductive Event where
  | enterNode (kind : NodeKind)
  | leaveNode (kind : NodeKind)
  | enterRole (role : Role) (isList : Bool)
  | leaveRole (role : Role) (isList : Bool)
  deriving DecidableEq, Repr

namespace Event

def listMark (isList : Bool) : String := if isList then " (list)" else ""

def text : Event → String
  | .enterNode kind => "enter " ++ kind.name
  | .leaveNode kind => "leave " ++ kind.name
  | .enterRole role isList => "enter " ++ role.name ++ listMark isList
  | .leaveRole role isList => "leave " ++ role.name ++ listMark isList

def recorder : Visitor (Array Event) where
  enterNode node events := (.descend, events.push (.enterNode node.kind))
  leaveNode node events := events.push (.leaveNode node.kind)
  enterRole role isList events := events.push (.enterRole role isList)
  leaveRole role isList events := events.push (.leaveRole role isList)

def lines (events : List Event) : String :=
  String.join (events.map fun event => event.text ++ "\n")

end Event

def Node.events (root : Node) : List Event := (root.traverse Event.recorder #[]).state.toList

def NodeKind.decoder : Decoder NodeKind :=
  Alternatives.decoder (NodeKind.all.map fun kind => (kind.name, kind))

def Role.decoder : Decoder Role :=
  Alternatives.decoder (Role.all.map fun role => (role.name, role))

namespace Event

def record : Event → Json
  | .enterNode kind => .obj [("event", .str "enter_node"), ("kind", .str kind.name)]
  | .leaveNode kind => .obj [("event", .str "leave_node"), ("kind", .str kind.name)]
  | .enterRole role isList =>
    .obj [("event", .str "enter_role"), ("role", .str role.name), ("is_list", .bool isList)]
  | .leaveRole role isList =>
    .obj [("event", .str "leave_role"), ("role", .str role.name), ("is_list", .bool isList)]

def nodeForm (name : String) : Form NodeKind where
  name := "struct variant TraversalEvent::" ++ name
  blank := .list .root
  fields := [.of "kind" .required NodeKind.decoder fun kind _ => kind]

def roleForm (name : String) : Form (Role × Bool) where
  name := "struct variant TraversalEvent::" ++ name
  blank := (.stmts, false)
  fields := [
    .of "role" .required Role.decoder fun role event => (role, event.2),
    .of "is_list" .required .flag fun isList event => (event.1, isList)]

def tagged : Tagged Event where
  name := "TraversalEvent"
  tag := "event"
  forms := [
    ("enter_node", ((nodeForm "EnterNode").decoder.map .enterNode).ofJson),
    ("leave_node", ((nodeForm "LeaveNode").decoder.map .leaveNode).ofJson),
    ("enter_role", ((roleForm "EnterRole").decoder.map fun e => .enterRole e.1 e.2).ofJson),
    ("leave_role", ((roleForm "LeaveRole").decoder.map fun e => .leaveRole e.1 e.2).ofJson)]

def decoder : Decoder Event := tagged.decoder

end Event

end SyntaxTree
