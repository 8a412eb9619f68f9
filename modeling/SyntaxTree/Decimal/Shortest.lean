/-! The shortest decimal that reads back as a given binary number. A decimal reads back when it lies
among the numbers that round to the binary one. The coarsest power-of-ten grid with a point there
gives the fewest digits, and of its points the one nearest to the number is chosen. -/

set_option autoImplicit false

namespace SyntaxTree

/-- The number `mantissa * 2 ^ exponent`, and whether the next smaller mantissa is half as far away
as the next greater one. -/
structure Binary where
  mantissa : Nat
  exponent : Int
  narrowBelow : Bool

structure Decimal where
  digits : Nat
  exponent : Int
  deriving DecidableEq, Repr

/-- A natural power with the exponent cut at zero. -/
def powInt (base : Nat) (exponent : Int) : Nat := Nat.pow base exponent.toNat

/-- The point of the grid `10 ^ grid` that reads back as `b` and is nearest to it, if one does. All
comparisons are between naturals: quarter units of the last binary place times `scale` on one side,
grid steps times `step` on the other. The ends of the interval belong to even mantissas. -/
def Binary.onGrid (b : Binary) (grid : Int) : Option Nat :=
  let quarter := b.exponent - 2
  let step := powInt 10 grid * powInt 2 (-quarter)
  let scale := powInt 2 quarter * powInt 10 (-grid)
  let centre := 4 * b.mantissa * scale
  let low := (4 * b.mantissa - if b.narrowBelow then 1 else 2) * scale
  let high := (4 * b.mantissa + 2) * scale
  let inside (d : Nat) : Bool :=
    if b.mantissa % 2 = 0 then low ≤ d * step && d * step ≤ high
    else low < d * step && d * step < high
  let below := centre / step
  let above := below + 1
  let nearBelow := centre - below * step
  let nearAbove := above * step - centre
  if inside below then
    if inside above then
      if nearBelow < nearAbove ∨ (nearBelow = nearAbove ∧ below % 2 = 0) then some below
      else some above
    else some below
  else if inside above then some above
  else none

def Binary.search (b : Binary) : Nat → Int → Decimal
  | 0, grid => ⟨0, grid⟩
  | steps + 1, grid =>
    match b.onGrid grid with
    | some digits => ⟨digits, grid⟩
    | none => b.search steps (grid - 1)

/-- The shortest decimal for a binary number of double precision: those lie below `10 ^ 309`, and
the finest grid that any of them needs is `10 ^ (-343)`. -/
def Binary.shortest (b : Binary) : Decimal := b.search 653 309

end SyntaxTree
