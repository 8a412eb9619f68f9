import SyntaxTree.Json.Problem

/-! Reading a document from the left. A step takes the characters still to be read and returns a
result with those that remain. Places count bytes in UTF-8, so a fault holds the number of bytes
that are left at its place; the line and the column follow from the whole text at the end. -/

set_option autoImplicit false

namespace SyntaxTree.Json

/-- Why a step stops. A fault in the text knows its place. A fault in the data has none yet: it
takes the place at which the innermost array or object around it has been left, so it carries what
remains to be read. -/
inductive Fault where
  | located (problem : Problem) (bytesLeft : Nat)
  | loose (problem : Problem) (rest : List Char)
  deriving Repr

abbrev Read (α : Type) := α × List Char

def byteCount (text : List Char) : Nat := text.foldl (fun count c => count + c.utf8Size) 0

theorem foldl_byteCount (text : List Char) (n : Nat) :
    text.foldl (fun count c => count + c.utf8Size) n = n + byteCount text := by
  induction text generalizing n with
  | nil => rfl
  | cons c text ih =>
    simp only [byteCount, List.foldl_cons]
    rw [ih, ih (0 + c.utf8Size)]
    omega

theorem byteCount_cons (c : Char) (text : List Char) :
    byteCount (c :: text) = c.utf8Size + byteCount text := by
  have h := foldl_byteCount text (0 + c.utf8Size)
  simpa only [byteCount, List.foldl_cons, Nat.zero_add] using h

/-- A fault the given number of bytes after the start of the remaining text, or at its end if that
is nearer. -/
def faultAfter (bytes : Nat) (problem : Problem) (text : List Char) : Fault :=
  .located problem (byteCount text - bytes)

def faultHere (problem : Problem) (text : List Char) : Fault := faultAfter 0 problem text

def faultAhead (problem : Problem) (text : List Char) : Fault := faultAfter 1 problem text

def placeAfter : Nat → List Char → Nat → Nat → Nat × Nat
  | 0, _, line, column => (line, column)
  | bytes, [], line, column => (line, column + bytes)
  | bytes, c :: text, line, column =>
    if bytes < c.utf8Size then (line, column + bytes)
    else if c = '\n' then placeAfter (bytes - 1) text (line + 1) 0
    else placeAfter (bytes - c.utf8Size) text line (column + c.utf8Size)

def Fault.defect (text : List Char) : Fault → Defect
  | .located problem left =>
    let place := placeAfter (byteCount text - left) text 1 0
    ⟨problem, place.1, place.2⟩
  | .loose problem _ => ⟨problem, 0, 0⟩

def isSpace (c : Char) : Bool := c = ' ' || c = '\n' || c = '\t' || c = '\r'

def skipSpace (text : List Char) : List Char := text.dropWhile isSpace

def word : List Char → List Char → Except Fault (List Char)
  | [], text => .ok text
  | _ :: _, [] => .error (faultHere .endOfValue [])
  | c :: letters, d :: text =>
    if c = d then word letters text else .error (faultAhead .expectedWord (d :: text))

def colon (text : List Char) : Except Fault (List Char) :=
  match skipSpace text with
  | ':' :: rest => .ok rest
  | [] => .error (faultAhead .endOfObject [])
  | rest => .error (faultAhead .expectedColon rest)

/-- Whether another item of an array follows: its text if so, and `none` before the closing
bracket. -/
def nextItem (isFirst : Bool) (text : List Char) : Except Fault (Option (List Char)) :=
  match skipSpace text with
  | [] => .error (faultAhead .endOfList [])
  | ']' :: _ => .ok none
  | c :: rest =>
    if isFirst then .ok (some (c :: rest))
    else if c = ',' then
      match skipSpace rest with
      | [] => .error (faultAhead .endOfValue [])
      | ']' :: rest => .error (faultAhead .trailingComma (']' :: rest))
      | rest => .ok (some rest)
    else .error (faultAhead .expectedItemEnd (c :: rest))

def nextKey (isFirst : Bool) (text : List Char) : Except Fault (Option (List Char)) :=
  match skipSpace text with
  | [] => .error (faultAhead .endOfObject [])
  | '}' :: _ => .ok none
  | c :: rest =>
    if isFirst then
      if c = '"' then .ok (some rest) else .error (faultAhead .keyNotString (c :: rest))
    else if c = ',' then
      match skipSpace rest with
      | [] => .error (faultAhead .endOfValue [])
      | '"' :: rest => .ok (some rest)
      | '}' :: rest => .error (faultAhead .trailingComma ('}' :: rest))
      | rest => .error (faultAhead .keyNotString rest)
    else .error (faultAhead .expectedMemberEnd (c :: rest))

/-- Tries to leave an array: the fault if its bracket does not stand here, and the remaining text in
either case. A comma is passed over even so. -/
def leaveArray (text : List Char) : Option Fault × List Char :=
  match skipSpace text with
  | ']' :: rest => (none, rest)
  | ',' :: rest =>
    let rest := skipSpace rest
    (some (faultAhead (if rest.head? = some ']' then .trailingComma else .trailingCharacters) rest),
      rest)
  | [] => (some (faultAhead .endOfList []), [])
  | rest => (some (faultAhead .trailingCharacters rest), rest)

def leaveObject (text : List Char) : Option Fault × List Char :=
  match skipSpace text with
  | '}' :: rest => (none, rest)
  | ',' :: rest => (some (faultAhead .trailingComma (',' :: rest)), ',' :: rest)
  | [] => (some (faultAhead .endOfObject []), [])
  | rest => (some (faultAhead .trailingCharacters rest), rest)

/-- Leaves an array or object after its contents have been read or have failed. A fault in the data
gets its place here, after the attempt to leave. -/
def finish {α : Type} (leave : List Char → Option Fault × List Char) :
    Except Fault (Read α) → Except Fault (Read α)
  | .ok (a, text) =>
    match leave text with
    | (none, rest) => .ok (a, rest)
    | (some fault, _) => .error fault
  | .error (.located problem left) => .error (.located problem left)
  | .error (.loose problem text) => .error (faultHere problem (leave text).2)

end SyntaxTree.Json
