import SyntaxTree.Json.Numeral
import SyntaxTree.Json.Quote

set_option autoImplicit false

namespace SyntaxTree.Json

/-- The number of arrays and objects inside one another that a document may hold. -/
def nestingLimit : Nat := 127

def scalar : List Char → Except Fault (Read Json)
  | [] => .error (faultAhead .endOfValue [])
  | c :: rest =>
    if c = 'n' then do
      let rest ← word ['u', 'l', 'l'] rest
      .ok (.null, rest)
    else if c = 't' then do
      let rest ← word ['r', 'u', 'e'] rest
      .ok (.bool true, rest)
    else if c = 'f' then do
      let rest ← word ['a', 'l', 's', 'e'] rest
      .ok (.bool false, rest)
    else if c = '"' then do
      let (s, rest) ← stringText rest
      .ok (.str s, rest)
    else if c = '-' then do
      let (n, rest) ← numeral true rest
      .ok (.num n, rest)
    else if c.isDigit then do
      let (n, rest) ← numeral false (c :: rest)
      .ok (.num n, rest)
    else .error (faultAhead .expectedValue (c :: rest))

/-- Takes a step for every item up to the bracket that closes the array. The list `bound` is at
least as long as the text. -/
def foldItems {σ : Type} (step : σ → List Char → Except Fault (Read σ)) :
    Bool → List Char → σ → List Char → Except Fault (Read σ)
  | isFirst, bound, state, text =>
    match nextItem isFirst text with
    | .error fault => .error fault
    | .ok none => .ok (state, text)
    | .ok (some text) =>
      match bound with
      | [] => .error (faultHere .endOfList text)
      | _ :: bound =>
        match step state text with
        | .error fault => .error fault
        | .ok (state, text) => foldItems step false bound state text

def foldMembers {σ : Type} (step : σ → String → List Char → Except Fault (Read σ)) :
    Bool → List Char → σ → List Char → Except Fault (Read σ)
  | isFirst, bound, state, text =>
    match nextKey isFirst text with
    | .error fault => .error fault
    | .ok none => .ok (state, text)
    | .ok (some text) =>
      match bound with
      | [] => .error (faultHere .endOfObject text)
      | _ :: bound =>
        match stringText text with
        | .error fault => .error fault
        | .ok (key, text) =>
          match step state key text with
          | .error fault => .error fault
          | .ok (state, text) => foldMembers step false bound state text

def items (item : List Char → Except Fault (Read Json)) (text : List Char) :
    Except Fault (Read Json) := do
  let step (read : List Json) (text : List Char) : Except Fault (Read (List Json)) := do
    let (value, text) ← item text
    .ok (value :: read, text)
  let (read, text) ← foldItems step true text [] text
  .ok (.arr read.reverse, text)

def members (item : List Char → Except Fault (Read Json)) (text : List Char) :
    Except Fault (Read Json) := do
  let step (read : List (String × Json)) (key : String) (text : List Char) :
      Except Fault (Read (List (String × Json))) := do
    let text ← colon text
    let (value, text) ← item text
    .ok ((key, value) :: read, text)
  let (read, text) ← foldMembers step true text [] text
  .ok (.obj read.reverse, text)

def value (depth : Nat) (text : List Char) : Except Fault (Read Json) :=
  match skipSpace text with
  | '[' :: rest =>
    match depth with
    | 0 => .error (faultAhead .nestingTooDeep ('[' :: rest))
    | depth + 1 => finish leaveArray (items (value depth) rest)
  | '{' :: rest =>
    match depth with
    | 0 => .error (faultAhead .nestingTooDeep ('{' :: rest))
    | depth + 1 => finish leaveObject (members (value depth) rest)
  | text => scalar text

def document {α : Type} (read : List Char → Except Fault (Read α)) (text : List Char) :
    Except Defect α :=
  match read text with
  | .error fault => .error (fault.defect text)
  | .ok (a, rest) =>
    match skipSpace rest with
    | [] => .ok a
    | rest => .error ((faultAhead .trailingCharacters rest).defect text)

end SyntaxTree.Json
