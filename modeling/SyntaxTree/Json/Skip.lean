import SyntaxTree.Json.Quote

/-! Passing over a value that is not wanted. Its brackets, strings and numbers are followed as far
as needed to find its end, to any depth, and no number is too great. -/

set_option autoImplicit false

namespace SyntaxTree.Json

/-- What follows a backslash. Two surrogates need not make a pair. -/
def skipEscape : List Char → Except Fault (List Char)
  | [] => .error (faultHere .endOfString [])
  | 'u' :: rest => do
    let (_, rest) ← hexUnit rest
    .ok rest
  | c :: rest =>
    if (letterEscape? c).isSome then .ok rest
    else .error (faultAhead .invalidEscape (c :: rest))

/-- A string after its opening mark. The first argument is a text at least as long as the second. -/
def skipString : List Char → List Char → Except Fault (List Char)
  | _, [] => .error (faultHere .endOfString [])
  | [], text => .error (faultHere .endOfString text)
  | _ :: bound, c :: rest =>
    if c = '"' then .ok rest
    else if c = '\\' then do
      let rest ← skipEscape rest
      skipString bound rest
    else if isControl c then .error (faultHere .controlCharacter (c :: rest))
    else skipString bound rest

def skipExponent (text : List Char) : Except Fault (List Char) :=
  let text := match text with
    | '+' :: rest => rest
    | '-' :: rest => rest
    | text => text
  match text with
  | c :: rest =>
    if c.isDigit then .ok (rest.dropWhile Char.isDigit)
    else .error (faultAhead .invalidNumber (c :: rest))
  | [] => .error (faultHere .invalidNumber [])

def skipAfterFraction : List Char → Except Fault (List Char)
  | 'e' :: rest => skipExponent rest
  | 'E' :: rest => skipExponent rest
  | rest => .ok rest

def skipAfterWhole : List Char → Except Fault (List Char)
  | '.' :: rest =>
    match rest with
    | c :: rest =>
      if c.isDigit then skipAfterFraction (rest.dropWhile Char.isDigit)
      else .error (faultAhead .invalidNumber (c :: rest))
    | [] => .error (faultAhead .invalidNumber [])
  | rest => skipAfterFraction rest

def skipNumeral : List Char → Except Fault (List Char)
  | [] => .error (faultHere .invalidNumber [])
  | '0' :: rest =>
    match rest with
    | c :: _ =>
      if c.isDigit then .error (faultAhead .invalidNumber rest) else skipAfterWhole rest
    | [] => .ok []
  | c :: rest =>
    if c.isDigit then skipAfterWhole (rest.dropWhile Char.isDigit)
    else .error (faultAhead .invalidNumber (c :: rest))

def skipScalar : List Char → Except Fault (List Char)
  | [] => .error (faultAhead .endOfValue [])
  | c :: rest =>
    if c = 'n' then word ['u', 'l', 'l'] rest
    else if c = 't' then word ['r', 'u', 'e'] rest
    else if c = 'f' then word ['a', 'l', 's', 'e'] rest
    else if c = '"' then skipString rest rest
    else if c = '-' then skipNumeral rest
    else if c.isDigit then skipNumeral (c :: rest)
    else .error (faultAhead .expectedValue (c :: rest))

def skipKey (text : List Char) : Except Fault (List Char) :=
  match skipSpace text with
  | '"' :: rest => do
    let rest ← skipString rest rest
    colon rest
  | [] => .error (faultAhead .endOfObject [])
  | rest => .error (faultAhead .keyNotString rest)

inductive Open where
  | list
  | object
  deriving DecidableEq, Repr

/-- What may stand after a value: the ends of what is open, innermost first, up to a comma. What is
then still open waits for a value. -/
def skipEnds : List Open → List Char → Except Fault (List Open × List Char)
  | [], text => .ok ([], text)
  | .list :: outer, text =>
    match skipSpace text with
    | ',' :: rest => .ok (.list :: outer, rest)
    | ']' :: rest => skipEnds outer rest
    | [] => .error (faultAhead .endOfList [])
    | rest => .error (faultAhead .expectedItemEnd rest)
  | .object :: outer, text =>
    match skipSpace text with
    | ',' :: rest => do
      let rest ← skipKey rest
      .ok (.object :: outer, rest)
    | '}' :: rest => skipEnds outer rest
    | [] => .error (faultAhead .endOfObject [])
    | rest => .error (faultAhead .expectedMemberEnd rest)

/-- The start of a value, with what has been opened around it: up to the next value that is wanted
inside, or to the end. -/
def skipStart (outer : List Open) (text : List Char) : Except Fault (List Open × List Char) :=
  match skipSpace text with
  | '[' :: rest =>
    match skipSpace rest with
    | ']' :: rest => skipEnds outer rest
    | [] => .error (faultAhead .endOfList [])
    | rest => .ok (.list :: outer, rest)
  | '{' :: rest =>
    match skipSpace rest with
    | '}' :: rest => skipEnds outer rest
    | [] => .error (faultAhead .endOfObject [])
    | rest => do
      let rest ← skipKey rest
      .ok (.object :: outer, rest)
  | text => do
    let rest ← skipScalar text
    skipEnds outer rest

def skipOpen : List Char → List Open → List Char → Except Fault (List Char)
  | bound, outer, text =>
    match skipStart outer text with
    | .error fault => .error fault
    | .ok ([], rest) => .ok rest
    | .ok (outer, rest) =>
      match bound with
      | [] => .error (faultHere .endOfValue rest)
      | _ :: bound => skipOpen bound outer rest

def skipValue (text : List Char) : Except Fault (List Char) := skipOpen text [] text

end SyntaxTree.Json
