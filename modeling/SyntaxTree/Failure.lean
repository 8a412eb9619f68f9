import SyntaxTree.Json.Problem

set_option autoImplicit false

namespace SyntaxTree

inductive Failure where
  | invalidArguments (message : String)
  | invalidInput (message : String) (line column : Nat)
  | invalidTree (message : String)
  | fileNotFound (path : String)
  | io (message : String)
  | internal (message : String)
  deriving DecidableEq, Repr

inductive ExitCode where
  | invalidArguments
  | invalidInput
  | io
  | internal
  deriving DecidableEq, Repr

def ExitCode.number : ExitCode → UInt8
  | .invalidArguments => 2
  | .invalidInput => 3
  | .io => 4
  | .internal => 10

namespace Failure

def exitCode : Failure → ExitCode
  | .invalidArguments _ => .invalidArguments
  | .invalidInput .. => .invalidInput
  | .invalidTree _ => .invalidInput
  | .fileNotFound _ => .io
  | .io _ => .io
  | .internal _ => .internal

def message : Failure → String
  | .invalidArguments message => "invalid arguments: " ++ message
  | .invalidInput message line column =>
    "invalid input at line " ++ toString line ++ ", column " ++ toString column ++ ": " ++ message
  | .invalidTree message => "invalid tree: " ++ message
  | .fileNotFound path => "file not found: " ++ path
  | .io message => "io error: " ++ message
  | .internal message => "internal error: " ++ message

def ofDefect (defect : Json.Defect) : Failure :=
  .invalidInput defect.message defect.line defect.column

end Failure

end SyntaxTree
