import SyntaxTree.Command.Source
import SyntaxTree.Node.Decoder
import SyntaxTree.Report
import SyntaxTree.Walk.Event
import SyntaxTree.Walk.Listing
import SyntaxTree.Walk.Tally

set_option autoImplicit false

namespace SyntaxTree

inductive Command where
  | dump (values positions noRoles : Bool) (maxDepth : Option Nat) (indent : Nat)
  | events (json : Bool)
  | json (compact tagged : Bool)
  | stats
  deriving DecidableEq, Repr

def greatestIndent : Nat := 16

def listingOptions (values positions noRoles : Bool) (maxDepth : Option Nat) (indent : Nat) :
    Except Failure ListingOptions :=
  if indent > greatestIndent then
    .error (.invalidArguments
      ("--indent must be at most " ++ toString greatestIndent ++ ", got " ++ toString indent))
  else .ok {
    indent := String.ofList (List.replicate indent ' ')
    showRoles := !noRoles
    showValues := values
    showPositions := positions
    maxDepth }

def Node.eventsText (root : Node) (json : Bool) : String :=
  if json then (Json.arr (root.events.map Event.record)).text true else Event.lines root.events

def Command.printer : Command → Except Failure (Node → String)
  | .dump values positions noRoles maxDepth indent => do
    let options ← listingOptions values positions noRoles maxDepth indent
    .ok fun root => root.listing options
  | .events asJson => .ok fun root => root.eventsText asJson
  | .json compact tagged => .ok fun root => root.text tagged (!compact) ++ "\n"
  | .stats => .ok fun root => Report.text root.stats.record

structure Answer where
  exitCode : UInt8
  output : String
  deriving DecidableEq, Repr

def Answer.ofFailure (failure : Failure) : Answer :=
  ⟨failure.exitCode.number, Report.text (ErrorReport.ofFailure failure).record⟩

structure Invocation where
  command : Command
  source : Source
  deriving DecidableEq, Repr

namespace Invocation

/-- What is printed if the source reads as `content`. Options are checked before the source. -/
def output (invocation : Invocation) (content : Except SourceFault String) :
    Except Failure String := do
  let print ← invocation.command.printer
  match content with
  | .error fault => .error (fault.failure invocation.source)
  | .ok text =>
    let root ← Node.ofDocument text
    .ok (print root)

def answer (invocation : Invocation) (content : Except SourceFault String) : Answer :=
  match invocation.output content with
  | .ok output => ⟨0, output⟩
  | .error failure => .ofFailure failure

end Invocation

end SyntaxTree
