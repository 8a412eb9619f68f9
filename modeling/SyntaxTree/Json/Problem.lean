import SyntaxTree.Json.Basic
import SyntaxTree.Text

set_option autoImplicit false

namespace SyntaxTree.Json

inductive Found where
  | null
  | bool (b : Bool)
  | num (n : Number)
  | str (s : String)
  | sequence
  | map
  deriving DecidableEq, Repr

def Found.ofJson : Json → Found
  | .null => .null
  | .bool b => .bool b
  | .num n => .num n
  | .str s => .str s
  | .arr _ => .sequence
  | .obj _ => .map

def Found.text : Found → String
  | .null => "null"
  | .bool true => "boolean \x60true\x60"
  | .bool false => "boolean \x60false\x60"
  | .num (.integer n) => "integer \x60" ++ toString n ++ "\x60"
  | .num (.double d) => "floating point \x60" ++ String.ofList d.written ++ "\x60"
  | .str s => "string " ++ Text.quoted s
  | .sequence => "sequence"
  | .map => "map"

inductive Problem where
  | endOfValue
  | endOfList
  | endOfObject
  | endOfString
  | expectedValue
  | expectedWord
  | expectedColon
  | expectedItemEnd
  | expectedMemberEnd
  | keyNotString
  | trailingComma
  | trailingCharacters
  | nestingTooDeep
  | controlCharacter
  | invalidEscape
  | unpairedSurrogate
  | unfinishedSurrogatePair
  | invalidNumber
  | numberOutOfRange
  | invalidType (found : Found) (expected : String)
  | invalidInteger (n : Int) (expected : String)
  | invalidLength (length : Nat) (expected : String)
  | notOneMember
  | unknownVariant (name : String) (known : List String)
  | missingField (name : String)
  | duplicateField (name : String)
  deriving DecidableEq, Repr

def backquoted (name : String) : String := "\x60" ++ name ++ "\x60"

def Problem.message : Problem → String
  | .endOfValue => "EOF while parsing a value"
  | .endOfList => "EOF while parsing a list"
  | .endOfObject => "EOF while parsing an object"
  | .endOfString => "EOF while parsing a string"
  | .expectedValue => "expected value"
  | .expectedWord => "expected ident"
  | .expectedColon => "expected \x60:\x60"
  | .expectedItemEnd => "expected \x60,\x60 or \x60]\x60"
  | .expectedMemberEnd => "expected \x60,\x60 or \x60\x7d\x60"
  | .keyNotString => "key must be a string"
  | .trailingComma => "trailing comma"
  | .trailingCharacters => "trailing characters"
  | .nestingTooDeep => "recursion limit exceeded"
  | .controlCharacter => "control character (\\u0000-\\u001F) found while parsing a string"
  | .invalidEscape => "invalid escape"
  | .unpairedSurrogate => "lone leading surrogate in hex escape"
  | .unfinishedSurrogatePair => "unexpected end of hex escape"
  | .invalidNumber => "invalid number"
  | .numberOutOfRange => "number out of range"
  | .invalidType found expected => "invalid type: " ++ found.text ++ ", expected " ++ expected
  | .invalidInteger n expected =>
    "invalid value: integer " ++ backquoted (toString n) ++ ", expected " ++ expected
  | .invalidLength length expected =>
    "invalid length " ++ toString length ++ ", expected " ++ expected
  | .notOneMember => "invalid value: map, expected map with a single key"
  | .unknownVariant name known =>
    "unknown variant " ++ backquoted name ++ ", expected one of " ++
      ", ".intercalate (known.map backquoted)
  | .missingField name => "missing field " ++ backquoted name
  | .duplicateField name => "duplicate field " ++ backquoted name

/-- Why a document cannot be read, and where: the line counted from one and the bytes before the
place on that line. Line zero stands for no place. -/
structure Defect where
  problem : Problem
  line : Nat
  column : Nat
  deriving DecidableEq, Repr

def Defect.message (defect : Defect) : String :=
  if defect.line = 0 then defect.problem.message
  else defect.problem.message ++ " at line " ++ toString defect.line ++
    " column " ++ toString defect.column

end SyntaxTree.Json
