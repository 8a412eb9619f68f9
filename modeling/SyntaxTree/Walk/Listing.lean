import SyntaxTree.Walk.Traversal
import SyntaxTree.Text

/-! Listings: a tree as indented text, one line for every node and, if wanted, for every role. The
hooks of the walk keep the indentation; the handler of each kind writes the line of its nodes. -/

set_option autoImplicit false

namespace SyntaxTree

structure ListingOptions where
  indent : String := "  "
  showRoles : Bool := true
  showValues : Bool := false
  showPositions : Bool := false
  maxDepth : Option Nat := none
  deriving DecidableEq, Repr

/-- A listing under way. The position is that of the node being entered. -/
structure Listing where
  out : String := ""
  level : Nat := 0
  depth : Nat := 0
  position : Option Position := none
  deriving Repr

namespace Listing

def write (text : String) (listing : Listing) : Listing :=
  { listing with out := listing.out ++ text }

def writeIndent (options : ListingOptions) (listing : Listing) : Listing :=
  (List.replicate listing.level options.indent).foldl (fun listing unit => listing.write unit)
    listing

def remarks (options : ListingOptions) (detail : Option String) (position : Option Position) :
    String :=
  (match detail with
    | some detail => if options.showValues then " " ++ detail else ""
    | none => "") ++
  (match position with
    | some position => if options.showPositions then " @" ++ position.text else ""
    | none => "")

def nodeLine (options : ListingOptions) (kind : NodeKind) (detail : Option String)
    (listing : Listing) : Listing :=
  (listing.writeIndent options).write
    (kind.name ++ remarks options detail listing.position ++ "\n")

def flags (named : List (Bool × String)) : Option String :=
  match (named.filter (·.1)).map (·.2) with
  | [] => none
  | names => some ("[" ++ ", ".intercalate names ++ "]")

/-- The lines of nodes, with a detail that depends on the kind: flags that are set, the length of an
argument list, numbers as they are written, and all other texts in quotation marks. -/
def handlers (options : ListingOptions) : Handlers Listing where
  onRoot _ _ := nodeLine options (.list .root) none
  onStmtList _ _ := nodeLine options (.list .stmtList) none
  onExpression _ _ := nodeLine options (.wrapper .expression) none
  onNullable _ _ := nodeLine options (.wrapper .nullable) none
  onParameter _ byRef variadic _ _ _ :=
    nodeLine options .parameter (flags [(byRef, "by_ref"), (variadic, "variadic")])
  onIdentifier _ value := nodeLine options (.leaf .identifier) (some (Text.quoted value))
  onVariable _ _ := nodeLine options (.wrapper .variable) none
  onName _ parts := nodeLine options (.list .name) (some (Text.quoted (Node.joinedName parts)))
  onNamePart _ value := nodeLine options (.leaf .namePart) (some (Text.quoted value))
  onFunctionCall _ _ _ := nodeLine options .functionCall none
  onArgumentList _ arguments :=
    nodeLine options (.list .argumentList) (some ("(" ++ toString arguments.length ++ ")"))
  onArgument _ variadic isReference _ :=
    nodeLine options .argument (flags [(variadic, "variadic"), (isReference, "is_reference")])
  onNumberLiteral _ value := nodeLine options (.leaf .numberLiteral) (some value)
  onIntegerLiteral _ value := nodeLine options (.leaf .integerLiteral) (some value)
  onStringLiteral _ value := nodeLine options (.leaf .stringLiteral) (some (Text.quoted value))

def ListingOptions.descent (options : ListingOptions) (depth : Nat) : Descent :=
  match options.maxDepth with
  | some greatest => if depth ≥ greatest then .skip else .descend
  | none => .descend

def lister (options : ListingOptions) : Visitor Listing where
  handlers := handlers options
  enterNode node listing :=
    let listing := node.accept (handlers options) { listing with position := node.position }
    (ListingOptions.descent options listing.depth,
      { listing with level := listing.level + 1, depth := listing.depth + 1 })
  leaveNode _ listing := { listing with level := listing.level - 1, depth := listing.depth - 1 }
  enterRole role _ listing :=
    if options.showRoles then
      let listing := (listing.writeIndent options).write (role.name ++ ":\n")
      { listing with level := listing.level + 1 }
    else listing
  leaveRole _ _ listing :=
    if options.showRoles then { listing with level := listing.level - 1 } else listing

end Listing

def Node.listing (root : Node) (options : ListingOptions) : String :=
  (root.traverse (Listing.lister options) {}).state.out

end SyntaxTree
