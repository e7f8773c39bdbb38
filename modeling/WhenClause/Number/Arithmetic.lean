import WhenClause.Number.Decimal

set_option autoImplicit false

/-! # Products and quotients of finite numbers

Both are the exact result, rounded once. They are what reading a number in a JSON text needs:
there the digits are rounded to a number before the power of ten is applied, so a long numeral
may be read as a neighbour of the number nearest to it. -/

namespace WhenClause.Number

-- Powers are the core library's powers of natural numbers, whatever else is imported.
attribute [local instance (high)] instPowNat

/-- `num · 2 ^ e / den`, rounded. -/
def ofScaledRatio (negative : Bool) (num den : Nat) (e : Int) : Number :=
  ofRatio negative (num * 2 ^ e.toNat) (den * 2 ^ (-e).toNat)

def mul (x y : Number) : Number :=
  ofScaledRatio (x.negative != y.negative) (x.significand * y.significand) 1 (x.scale + y.scale)

def div (x y : Number) : Number :=
  ofScaledRatio (x.negative != y.negative) x.significand y.significand (x.scale - y.scale)

/-- The power `10 ^ n`, rounded. -/
def powerOfTen (n : Nat) : Number := Decimal.toNumber ⟨false, 1, n⟩

/-- The largest power of ten that is finite is `10 ^ 308`. -/
def maxPower : Nat := 308

/-- `x · 10 ^ e` in steps of at most `maxPower` decimal places, each rounded; `none` when the
result is too large. -/
def scaleByTen (x : Number) (e : Int) : Option Number :=
  if e.natAbs ≤ maxPower then
    if 0 ≤ e then some (x.mul (powerOfTen e.toNat)) |>.filter isFinite
    else some (x.div (powerOfTen e.natAbs))
  else if x.isZero then some x
  else if 0 ≤ e then none
  else scaleByTen (x.div (powerOfTen maxPower)) (e + maxPower)
termination_by e.natAbs
decreasing_by
  simp only [maxPower] at *
  omega

end WhenClause.Number
