import SyntaxTree.Decimal.Shortest

set_option autoImplicit false

namespace SyntaxTree

structure Double where
  bits : UInt64
  deriving DecidableEq, Repr, Inhabited

inductive Number where
  | integer (n : Int)
  | double (d : Double)
  deriving DecidableEq, Repr, Inhabited

inductive Json where
  | null
  | bool (b : Bool)
  | num (n : Number)
  | str (s : String)
  | arr (items : List Json)
  | obj (members : List (String × Json))
  deriving Repr, Inhabited

namespace Double

def ofFloat (f : Float) : Double := ⟨f.toBits⟩

def isNegative (d : Double) : Bool := d.bits >>> 63 = 1

def magnitude (d : Double) : Binary :=
  let scale := ((d.bits >>> 52) &&& 0x7FF).toNat
  let fraction := (d.bits &&& 0xFFFFFFFFFFFFF).toNat
  if scale = 0 then ⟨fraction, -1074, false⟩
  else ⟨(1 <<< 52) + fraction, scale - 1075, fraction = 0 && 1 < scale⟩

/-- Digits with a point after the first `whole` of them, filled up with zeros on either side; at
least one digit stands on each side of the point. -/
def positional (digits : List Char) (whole : Int) : List Char :=
  if whole ≤ 0 then '0' :: '.' :: (List.replicate (-whole).toNat '0' ++ digits)
  else
    let whole := whole.toNat
    let tail := digits.drop whole
    digits.take whole ++ List.replicate (whole - digits.length) '0' ++
      '.' :: (if tail.isEmpty then ['0'] else tail)

def scientific (digits : List Char) (power : Int) : List Char :=
  let tail := digits.drop 1
  digits.take 1 ++ (if tail.isEmpty then [] else '.' :: tail) ++
    'e' :: (if power < 0 then '-' else '+') :: (Nat.repr power.natAbs).toList

/-- The written form of a finite double: its shortest digits, positional from `1e-5` up to below
`1e16`. -/
def written (d : Double) : List Char :=
  let magnitude := d.magnitude
  let unsigned :=
    if magnitude.mantissa = 0 then ['0', '.', '0']
    else
      let shortest := magnitude.shortest
      let digits := (Nat.repr shortest.digits).toList
      let power : Int := digits.length - 1 + shortest.exponent
      if -5 ≤ power ∧ power < 16 then positional digits (power + 1) else scientific digits power
  if d.isNegative then '-' :: unsigned else unsigned

end Double

def Number.written : Number → List Char
  | .integer n => (toString n).toList
  | .double d => d.written

mutual

/-- The number of arrays and objects inside one another at the deepest place of a value. -/
def Json.nesting : Json → Nat
  | .arr items => Json.nestingItems items + 1
  | .obj members => Json.nestingMembers members + 1
  | _ => 0

def Json.nestingItems : List Json → Nat
  | [] => 0
  | item :: items => max item.nesting (Json.nestingItems items)

def Json.nestingMembers : List (String × Json) → Nat
  | [] => 0
  | (_, value) :: members => max value.nesting (Json.nestingMembers members)

end

namespace Json

def ofNat (n : Nat) : Json := .num (.integer n)

def ofOption {α : Type} (write : α → Json) : Option α → Json
  | none => .null
  | some a => write a

/-- Puts a member at its place. A member with the same key is already the one to keep. -/
def insertMember (key : String) (value : Json) : List (String × Json) → List (String × Json)
  | [] => [(key, value)]
  | (other, kept) :: members =>
    if key < other then (key, value) :: (other, kept) :: members
    else if key = other then (other, kept) :: members
    else (other, kept) :: insertMember key value members

mutual

def sorted : Json → Json
  | .arr items => .arr (sortedItems items)
  | .obj members => .obj (sortedMembers members)
  | value => value

def sortedItems : List Json → List Json
  | [] => []
  | item :: items => item.sorted :: sortedItems items

def sortedMembers : List (String × Json) → List (String × Json)
  | [] => []
  | (key, value) :: members => insertMember key value.sorted (sortedMembers members)

end

end Json

end SyntaxTree
