import SyntaxTree.Command.Basic

/-! The command line: a command by its name, its options in any order, and at most one path. Options
are taken from left to right, and the first that is wrong ends the reading. -/

set_option autoImplicit false

namespace SyntaxTree

inductive Request where
  | version
  | help
  | run (invocation : Invocation)
  deriving DecidableEq, Repr

inductive UsageError where
  | noCommand
  | unexpected (argument : String)
  | repeated (option : String)
  | noValue (option : String)
  | badValue (option value : String)
  deriving DecidableEq, Repr

def UsageError.message : UsageError → String
  | .noCommand => "a command is needed"
  | .unexpected argument => "unexpected argument '" ++ argument ++ "'"
  | .repeated option => "the option '" ++ option ++ "' is given twice"
  | .noValue option => "the option '" ++ option ++ "' needs a value"
  | .badValue option value => "'" ++ value ++ "' is no value for the option '" ++ option ++ "'"

namespace Arguments

inductive Word where
  | separator
  | long (name : String) (value : Option String)
  | short (letters : List Char)
  | plain (text : String)
  deriving DecidableEq, Repr

def Word.ofString (argument : String) : Word :=
  match argument.toList with
  | ['-', '-'] => .separator
  | '-' :: '-' :: option =>
    let name := option.takeWhile (· ≠ '=')
    match option.dropWhile (· ≠ '=') with
    | [] => .long (String.ofList name) none
    | _ :: value => .long (String.ofList name) (some (String.ofList value))
  | '-' :: c :: letters => .short (c :: letters)
  | _ => .plain argument

/-- A whole number below `2 ^ 64`, perhaps after a plus sign. -/
def number? (text : String) : Option Nat :=
  let digits := match text.toList with
    | '+' :: digits => digits
    | digits => digits
  if digits.isEmpty || !digits.all Char.isDigit then none
  else
    let n := digits.foldl (fun n c => n * 10 + (c.toNat - 48)) 0
    if n < UInt64.size then some n else none

def logLevels : List String := ["trace", "debug", "info", "warn", "error"]

inductive Takes where
  | nothing
  | number
  | logLevel
  deriving DecidableEq, Repr

structure Given where
  names : List String := []
  numbers : List (String × Nat) := []
  path : Option String := none
  deriving Repr

def Given.has (given : Given) (name : String) : Bool := name ∈ given.names

def Given.number? (given : Given) (name : String) : Option Nat := given.numbers.lookup name

def Given.add (given : Given) (name : String) (takes : Takes) (value : String) :
    Except UsageError Given :=
  if given.has name then .error (.repeated name)
  else
    let given := { given with names := name :: given.names }
    match takes with
    | .nothing => .ok given
    | .number =>
      match Arguments.number? value with
      | some n => .ok { given with numbers := (name, n) :: given.numbers }
      | none => .error (.badValue name value)
    | .logLevel => if value ∈ logLevels then .ok given else .error (.badValue name value)

def Given.addPath (given : Given) (path : String) : Except UsageError Given :=
  match given.path with
  | some _ => .error (.unexpected path)
  | none =>
    if path = "" then .error (.badValue "path" path) else .ok { given with path := some path }

/-- A command by name: the options it knows, and the command they make. -/
structure Spec where
  options : List (String × Takes)
  make : Given → Command

def globalOptions : List (String × Takes) := [("log-level", .logLevel)]

def commands : List (String × Spec) := [
  ("dump", {
    options := [
      ("values", .nothing), ("positions", .nothing), ("no-roles", .nothing),
      ("max-depth", .number), ("indent", .number)]
    make given := .dump (given.has "values") (given.has "positions") (given.has "no-roles")
      (given.number? "max-depth") ((given.number? "indent").getD 2) }),
  ("events", { options := [("json", .nothing)], make given := .events (given.has "json") }),
  ("json", {
    options := [("compact", .nothing), ("tagged", .nothing)]
    make given := .json (given.has "compact") (given.has "tagged") }),
  ("stats", { options := [], make _ := .stats })]

/-- An option among the known ones, with what remains of the arguments. Its value is joined to it by
an equals sign, or is the next argument. -/
def option (known : List (String × Takes)) (given : Given) (name : String)
    (joined : Option String) (rest : List String) : Except UsageError (Given × List String) :=
  match known.lookup name with
  | none => .error (.unexpected name)
  | some .nothing =>
    if joined.isSome then .error (.badValue name (joined.getD ""))
    else do
      let given ← given.add name .nothing ""
      .ok (given, rest)
  | some takes =>
    match joined, rest with
    | some value, rest => do
      let given ← given.add name takes value
      .ok (given, rest)
    | none, [] => .error (.noValue name)
    | none, next :: rest =>
      match Word.ofString next with
      | .plain value => do
        let given ← given.add name takes value
        .ok (given, rest)
      | _ => .error (.noValue name)

def asksHelp : Word → Bool
  | .long "help" none => true
  | .short ('h' :: _) => true
  | _ => false

def asksVersion : Word → Bool
  | .long "version" none => true
  | .short ('V' :: _) => true
  | _ => false

def pathsOnly : Given → List String → Except UsageError Given
  | given, [] => .ok given
  | given, path :: rest => do
    let given ← given.addPath path
    pathsOnly given rest

/-- The arguments after the name of a command; `none` if help is asked for. The number bounds the
arguments. -/
def commandOptions (known : List (String × Takes)) :
    Nat → Given → List String → Except UsageError (Option Given)
  | _, given, [] => .ok (some given)
  | 0, _, argument :: _ => .error (.unexpected argument)
  | bound + 1, given, argument :: rest =>
    match Word.ofString argument with
    | .separator => do
      let given ← pathsOnly given rest
      .ok (some given)
    | .plain path => do
      let given ← given.addPath path
      commandOptions known bound given rest
    | .long name joined =>
      if asksHelp (.long name joined) then .ok none
      else do
        let (given, rest) ← option known given name joined rest
        commandOptions known bound given rest
    | .short letters =>
      if asksHelp (.short letters) then .ok none else .error (.unexpected argument)

def command (name : String) (rest : List String) : Except UsageError Request :=
  if name = "help" then
    match rest with
    | [] => .ok .help
    | topic :: rest =>
      if (commands.lookup topic).isNone && topic ≠ "help" then .error (.unexpected topic)
      else
        match rest with
        | [] => .ok .help
        | argument :: _ => .error (.unexpected argument)
  else
    match commands.lookup name with
    | none => .error (.unexpected name)
    | some spec => do
      match ← commandOptions (spec.options ++ globalOptions) rest.length {} rest with
      | none => .ok .help
      | some given => .ok (.run ⟨spec.make given, .ofPath given.path⟩)

def leading : Nat → Given → List String → Except UsageError Request
  | _, _, [] => .error .noCommand
  | 0, _, argument :: _ => .error (.unexpected argument)
  | bound + 1, given, argument :: rest =>
    let word := Word.ofString argument
    if asksHelp word then .ok .help
    else if asksVersion word then .ok .version
    else
      match word with
      | .plain name => command name rest
      | .long name joined => do
        let (given, rest) ← option globalOptions given name joined rest
        leading bound given rest
      | _ => .error (.unexpected argument)

end Arguments

def Request.ofArguments (arguments : List String) : Except UsageError Request :=
  Arguments.leading arguments.length {} arguments

def versionText : String := "phast 0.1.0\n"

def helpText : String :=
  "Usage: phast [--log-level LEVEL] COMMAND [OPTIONS] [PATH]\n\n" ++
  "  dump    [--values] [--positions] [--no-roles] [--max-depth N] [--indent N]\n" ++
  "  events  [--json]\n" ++
  "  json    [--compact] [--tagged]\n" ++
  "  stats\n\n" ++
  "Without a path, or with -, the document is read from standard input.\n"

def usageExitCode : UInt8 := 2

def answer (arguments : List String) (content : Source → Except SourceFault String) : Answer :=
  match Request.ofArguments arguments with
  | .error _ => ⟨usageExitCode, ""⟩
  | .ok .version => ⟨0, versionText⟩
  | .ok .help => ⟨0, helpText⟩
  | .ok (.run invocation) => invocation.answer (content invocation.source)

end SyntaxTree
