import SyntaxTree.Command.Arguments

set_option autoImplicit false

namespace SyntaxTree

def SourceFault.ofSystem : IO.Error → SourceFault
  | .noFileOrDirectory .. => .missing
  | .inappropriateType _ number reason => .system reason number.toNat
  | .invalidArgument _ number reason => .system reason number.toNat
  | .permissionDenied _ number reason => .system reason number.toNat
  | .resourceExhausted _ number reason => .system reason number.toNat
  | .otherError number reason => .system reason number.toNat
  | .hardwareFault number reason => .system reason number.toNat
  | error => .system (toString error) 0

def Source.bytes : Source → IO ByteArray
  | .standardInput => do (← IO.getStdin).readBinToEnd
  | .file path => IO.FS.withFile path .read fun handle => handle.readBinToEnd

def Source.load (source : Source) : IO (Except SourceFault String) := do
  try
    pure (decodeText (← source.bytes))
  catch error =>
    pure (.error (.ofSystem error))

/-- Reads the source only if the options of the command can be used. -/
def Invocation.run (invocation : Invocation) : IO Answer :=
  match invocation.command.printer with
  | .error failure => pure (.ofFailure failure)
  | .ok _ => do pure (invocation.answer (← invocation.source.load))

def respond (arguments : List String) : IO UInt32 := do
  let answer ← match Request.ofArguments arguments with
    | .ok (.run invocation) => invocation.run
    | .error error => do
      IO.eprintln error.message
      pure (answer arguments fun _ => .error .missing)
    | .ok _ => pure (answer arguments fun _ => .error .missing)
  IO.print answer.output
  (← IO.getStdout).flush
  pure answer.exitCode.toUInt32

end SyntaxTree

def main (arguments : List String) : IO UInt32 := SyntaxTree.respond arguments
