import SyntaxTree.Json.Reader

/-! Typed reading. A decoder reads a value of its type in two ways: straight from the text, where
faults in the data have a place, and from a value that has already been read, where they have none.
-/

set_option autoImplicit false

namespace SyntaxTree

open Json

/-- A way to read values of a type. In the text, a decoder is told how many arrays and objects may
still be opened inside one another. -/
structure Decoder (α : Type) where
  ofText : Nat → List Char → Except Fault (Read α)
  ofJson : Json → Except Problem α

namespace Decoder

variable {α β : Type}

/-- The fault for a value of the wrong type. A scalar is passed over first, and may itself be at
fault; an array or object is not entered. -/
def mismatch (expected : String) (text : List Char) : Fault :=
  match text with
  | '[' :: _ => faultHere (.invalidType .sequence expected) text
  | '{' :: _ => faultHere (.invalidType .map expected) text
  | _ =>
    match scalar text with
    | .error fault => fault
    | .ok (value, rest) => faultHere (.invalidType (.ofJson value) expected) rest

def map (f : α → β) (decoder : Decoder α) : Decoder β where
  ofText depth text := do
    let (a, rest) ← decoder.ofText depth text
    .ok (f a, rest)
  ofJson value := do
    let a ← decoder.ofJson value
    .ok (f a)

/-- Reads a scalar. `pick` takes what it can use, or says what is wrong with a number in spite of
its type. -/
def ofScalar (expected : String) (pick : Json → Option (Except Problem α)) : Decoder α where
  ofText _ text :=
    match skipSpace text with
    | '[' :: rest => .error (mismatch expected ('[' :: rest))
    | '{' :: rest => .error (mismatch expected ('{' :: rest))
    | text => do
      let (value, rest) ← scalar text
      match pick value with
      | some (.ok a) => .ok (a, rest)
      | some (.error problem) => .error (faultHere problem rest)
      | none => .error (faultHere (.invalidType (.ofJson value) expected) rest)
  ofJson value := (pick value).getD (.error (.invalidType (.ofJson value) expected))

def string : Decoder String :=
  ofScalar "a string" fun
    | .str s => some (.ok s)
    | _ => none

def flag : Decoder Bool :=
  ofScalar "a boolean" fun
    | .bool b => some (.ok b)
    | _ => none

def unsigned (bits : Nat) : Decoder Nat :=
  let expected := "u" ++ toString bits
  ofScalar expected fun
    | .num (.integer n) =>
      some (if 0 ≤ n ∧ n.toNat < 1 <<< bits then .ok n.toNat else .error (.invalidInteger n expected))
    | _ => none

def uint32 : Decoder UInt32 := (unsigned 32).map UInt32.ofNat

def uint8 : Decoder UInt8 := (unsigned 8).map UInt8.ofNat

/-- Reads nothing but `null`. In a value that has been read, an object without members is as
good. -/
def unit : Decoder Unit where
  ofText _ text :=
    match skipSpace text with
    | 'n' :: rest => do
      let rest ← word ['u', 'l', 'l'] rest
      .ok ((), rest)
    | text => .error (mismatch "unit" text)
  ofJson
    | .null => .ok ()
    | .obj [] => .ok ()
    | value => .error (.invalidType (.ofJson value) "unit")

def option (decoder : Decoder α) : Decoder (Option α) where
  ofText depth text :=
    match skipSpace text with
    | 'n' :: rest => do
      let rest ← word ['u', 'l', 'l'] rest
      .ok (none, rest)
    | text => do
      let (a, rest) ← decoder.ofText depth text
      .ok (some a, rest)
  ofJson
    | .null => .ok none
    | value => do
      let a ← decoder.ofJson value
      .ok (some a)

def list (decoder : Decoder α) : Decoder (List α) where
  ofText depth text :=
    match skipSpace text with
    | '[' :: rest =>
      match depth with
      | 0 => .error (faultAhead .nestingTooDeep ('[' :: rest))
      | depth + 1 => finish leaveArray do
        let step (read : List α) (text : List Char) : Except Fault (Read (List α)) := do
          let (a, text) ← decoder.ofText depth text
          .ok (a :: read, text)
        let (read, text) ← foldItems step true rest [] rest
        .ok (read.reverse, text)
    | text => .error (mismatch "a sequence" text)
  ofJson
    | .arr items => items.mapM decoder.ofJson
    | value => .error (.invalidType (.ofJson value) "a sequence")

def json : Decoder Json where
  ofText := Json.value
  ofJson := .ok

def read (decoder : Decoder α) (text : String) : Except Defect α :=
  document (decoder.ofText nestingLimit) text.toList

end Decoder

end SyntaxTree
