import SyntaxTree.Json.Scan

set_option autoImplicit false

namespace SyntaxTree.Json

def hexValue? (c : Char) : Option Nat :=
  if c.isDigit then some (c.toNat - 48)
  else if 'a' ≤ c ∧ c ≤ 'f' then some (c.toNat - 87)
  else if 'A' ≤ c ∧ c ≤ 'F' then some (c.toNat - 55)
  else none

def hexNumber? (a b c d : Char) : Option Nat := do
  let a ← hexValue? a
  let b ← hexValue? b
  let c ← hexValue? c
  let d ← hexValue? d
  pure (((a * 16 + b) * 16 + c) * 16 + d)

def hexFault (text : List Char) : Fault :=
  if byteCount text < 4 then .located .endOfString 0 else faultAfter 4 .invalidEscape text

def hexUnit (text : List Char) : Except Fault (Read Nat) :=
  match text with
  | a :: b :: c :: d :: rest =>
    match hexNumber? a b c d with
    | some n => .ok (n, rest)
    | none => .error (hexFault text)
  | _ => .error (hexFault text)

def isHighSurrogate (n : Nat) : Bool := 0xD800 ≤ n && n ≤ 0xDBFF

def isLowSurrogate (n : Nat) : Bool := 0xDC00 ≤ n && n ≤ 0xDFFF

def surrogatePair (high low : Nat) : Char :=
  Char.ofNat (0x10000 + (high - 0xD800) * 0x400 + (low - 0xDC00))

def lowSurrogate (high : Nat) : List Char → Except Fault (Read Char)
  | '\\' :: 'u' :: rest => do
    let (low, rest) ← hexUnit rest
    if isLowSurrogate low then .ok (surrogatePair high low, rest)
    else .error (faultHere .unpairedSurrogate rest)
  | [] => .error (faultHere .endOfString [])
  | ['\\'] => .error (faultHere .endOfString [])
  | '\\' :: rest => .error (faultAhead .unfinishedSurrogatePair rest)
  | rest => .error (faultAhead .unfinishedSurrogatePair rest)

def numericEscape (text : List Char) : Except Fault (Read Char) := do
  let (n, rest) ← hexUnit text
  if isLowSurrogate n then .error (faultHere .unpairedSurrogate rest)
  else if isHighSurrogate n then lowSurrogate n rest
  else .ok (Char.ofNat n, rest)

def letterEscape? : Char → Option Char
  | '"' => some '"'
  | '\\' => some '\\'
  | '/' => some '/'
  | 'b' => some '\x08'
  | 'f' => some '\x0c'
  | 'n' => some '\n'
  | 'r' => some '\r'
  | 't' => some '\t'
  | _ => none

def escape : List Char → Except Fault (Read Char)
  | [] => .error (faultHere .endOfString [])
  | 'u' :: rest => numericEscape rest
  | c :: rest =>
    match letterEscape? c with
    | some c => .ok (c, rest)
    | none => .error (faultAhead .invalidEscape (c :: rest))

def isControl (c : Char) : Bool := c.toNat < 0x20

/-- Reads the characters of a string and the mark that closes it. The first argument is a text at
least as long as the second. -/
def stringChars : List Char → List Char → Except Fault (Read (List Char))
  | _, [] => .error (faultHere .endOfString [])
  | [], text => .error (faultHere .endOfString text)
  | _ :: bound, c :: rest =>
    if c = '"' then .ok ([], rest)
    else if c = '\\' then do
      let (c, rest) ← escape rest
      let (chars, rest) ← stringChars bound rest
      .ok (c :: chars, rest)
    else if isControl c then .error (faultAhead .controlCharacter (c :: rest))
    else do
      let (chars, rest) ← stringChars bound rest
      .ok (c :: chars, rest)

def stringText (text : List Char) : Except Fault (Read String) := do
  let (chars, rest) ← stringChars text text
  .ok (String.ofList chars, rest)

end SyntaxTree.Json
