import SyntaxTree.Json.Scan

/-! Reading numbers. A number without point and exponent is an integer if it fits into 64 bits,
signed when it has a sign. Every other number is a double: its digits are collected as long as they
fit into 64 bits, further digits only move the power of ten, and the digits, rounded to a double,
are scaled by that power in one multiplication or division. -/

set_option autoImplicit false

namespace SyntaxTree.Json

def digit? (c : Char) : Option Nat := if c.isDigit then some (c.toNat - 48) else none

/-- The greatest number of digits collected, `2 ^ 64 - 1`. -/
def collectable : Nat := 18446744073709551615

def greatestExponent : Nat := 2147483647

def tenTo (power : Nat) : Float := Float.ofScientific 1 false power

/-- Division by a power of ten. Beyond the range of doubles the division is done in steps. -/
def scaleDown (f : Float) (power : Nat) : Float :=
  if power ≤ 308 then f / tenTo power
  else if f == 0 then f
  else scaleDown (f / tenTo 308) (power - 308)
termination_by power

def rounded? (d : Decimal) : Option Float :=
  let f := (UInt64.ofNat d.digits).toFloat
  if d.exponent < 0 then some (scaleDown f d.exponent.natAbs)
  else if d.exponent ≤ 308 then
    let scaled := f * tenTo d.exponent.toNat
    if scaled.isInf then none else some scaled
  else if f == 0 then some f
  else none

def real (negative : Bool) (d : Decimal) (rest : List Char) : Except Fault (Read Number) :=
  match rounded? d with
  | some f => .ok (.double (.ofFloat (if negative then -f else f)), rest)
  | none => .error (faultHere .numberOutOfRange rest)

def wholeDigits (digits : Nat) : List Char → Decimal × List Char
  | [] => (⟨digits, 0⟩, [])
  | c :: rest =>
    match digit? c with
    | none => (⟨digits, 0⟩, c :: rest)
    | some n =>
      if digits * 10 + n ≤ collectable then wholeDigits (digits * 10 + n) rest
      else
        let dropped := (c :: rest).takeWhile Char.isDigit
        (⟨digits, dropped.length⟩, (c :: rest).dropWhile Char.isDigit)

def fractionDigits (d : Decimal) : List Char → Decimal × List Char
  | [] => (d, [])
  | c :: rest =>
    match digit? c with
    | none => (d, c :: rest)
    | some n =>
      if d.digits * 10 + n ≤ collectable then
        fractionDigits ⟨d.digits * 10 + n, d.exponent - 1⟩ rest
      else (d, (c :: rest).dropWhile Char.isDigit)

def moved (d : Decimal) (shrinks : Bool) (exponent : Nat) : Decimal :=
  ⟨d.digits, if shrinks then d.exponent - exponent else d.exponent + exponent⟩

/-- Collects the digits of an exponent. One that is too great makes the number too great or zero. -/
def exponentDigits (negative : Bool) (d : Decimal) (shrinks : Bool) (exponent : Nat) :
    List Char → Except Fault (Read Number)
  | [] => real negative (moved d shrinks exponent) []
  | c :: rest =>
    match digit? c with
    | none => real negative (moved d shrinks exponent) (c :: rest)
    | some n =>
      if exponent * 10 + n ≤ greatestExponent then
        exponentDigits negative d shrinks (exponent * 10 + n) rest
      else if d.digits ≠ 0 ∧ !shrinks then .error (faultHere .numberOutOfRange rest)
      else real negative ⟨0, 0⟩ (rest.dropWhile Char.isDigit)

def exponentPart (negative : Bool) (d : Decimal) (text : List Char) : Except Fault (Read Number) :=
  let (shrinks, text) := match text with
    | '+' :: rest => (false, rest)
    | '-' :: rest => (true, rest)
    | text => (false, text)
  match text with
  | [] => .error (faultHere .endOfValue [])
  | c :: rest =>
    match digit? c with
    | some n => exponentDigits negative d shrinks n rest
    | none => .error (faultAhead .invalidNumber (c :: rest))

def fractionPart (negative : Bool) (d : Decimal) : List Char → Except Fault (Read Number)
  | [] => .error (faultAhead .endOfValue [])
  | c :: rest =>
    if c.isDigit then
      match fractionDigits d (c :: rest) with
      | (d, 'e' :: rest) => exponentPart negative d rest
      | (d, 'E' :: rest) => exponentPart negative d rest
      | (d, rest) => real negative d rest
    else .error (faultAhead .invalidNumber (c :: rest))

def afterWhole (negative : Bool) (d : Decimal) : List Char → Except Fault (Read Number)
  | '.' :: rest => fractionPart negative d rest
  | 'e' :: rest => exponentPart negative d rest
  | 'E' :: rest => exponentPart negative d rest
  | rest =>
    if d.exponent ≠ 0 then real negative d rest
    else if !negative then .ok (.integer d.digits, rest)
    else if d.digits = 0 ∨ d.digits > 1 <<< 63 then real negative d rest
    else .ok (.integer (-d.digits), rest)

def numeral (negative : Bool) : List Char → Except Fault (Read Number)
  | [] => .error (faultHere .endOfValue [])
  | c :: rest =>
    match digit? c with
    | none => .error (faultAhead .invalidNumber (c :: rest))
    | some 0 =>
      match rest with
      | next :: _ =>
        if next.isDigit then .error (faultAhead .invalidNumber rest)
        else afterWhole negative ⟨0, 0⟩ rest
      | [] => afterWhole negative ⟨0, 0⟩ []
    | some n =>
      let (d, rest) := wholeDigits n rest
      afterWhole negative d rest

end SyntaxTree.Json
