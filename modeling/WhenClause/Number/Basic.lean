set_option autoImplicit false

/-! # Numbers

The numbers of the language are the binary floating-point numbers of 64 bits. A number is kept
as its sign and the remaining 63 bits, the *magnitude word*: eleven bits of exponent over
fifty-two bits of fraction. Magnitude words are ordered as the numbers they stand for, which
makes comparison a comparison of integers (`rank`). -/

namespace WhenClause

-- Powers are the core library's powers of natural numbers, whatever else is imported.
attribute [local instance (high)] instPowNat

/-- A binary floating-point number of 64 bits. -/
structure Number where
  negative : Bool
  /-- The other 63 bits. -/
  magnitude : Fin (2 ^ (63 : Nat))
deriving DecidableEq, Inhabited

namespace Number

/-! ## Bits -/

/-- The number with the given bits, the sign in the highest place. -/
def ofBits (bits : UInt64) : Number where
  negative := 2 ^ (63 : Nat) ≤ bits.toNat
  magnitude := ⟨bits.toNat % 2 ^ (63 : Nat), Nat.mod_lt _ (by decide)⟩

def toBits (x : Number) : UInt64 :=
  UInt64.ofNat ((if x.negative then 2 ^ (63 : Nat) else 0) + x.magnitude.val)

/-! ## Classes of numbers -/

/-- The magnitude word of the infinities. Below it lie the finite numbers, above it the words
that stand for no number. -/
def infiniteMagnitude : Nat := 2047 * 2 ^ (52 : Nat)

def isNaN (x : Number) : Bool := infiniteMagnitude < x.magnitude.val

/-- The number is neither infinite nor NaN. -/
def isFinite (x : Number) : Bool := x.magnitude.val < infiniteMagnitude

def isZero (x : Number) : Bool := x.magnitude.val == 0

def exponentField (x : Number) : Nat := x.magnitude.val / 2 ^ (52 : Nat)

/-- The integer `m` of a finite number `± m · 2 ^ q`. -/
def significand (x : Number) : Nat :=
  if x.exponentField = 0 then x.magnitude.val else 2 ^ (52 : Nat) + x.magnitude.val % 2 ^ (52 : Nat)

/-- The integer `q` of a finite number `± m · 2 ^ q`. -/
def scale (x : Number) : Int := (max x.exponentField 1 : Nat) - 1075

/-! ## Order -/

/-- The place of a number in the order of all numbers that are not NaN; the two zeros share a
place. -/
def rank (x : Number) : Int :=
  if x.negative then -(x.magnitude.val : Int) else x.magnitude.val

/-- The order of two numbers; NaN is not ordered against any number. -/
def compare (x y : Number) : Option Ordering :=
  if x.isNaN || y.isNaN then none else some (Ord.compare x.rank y.rank)

/-- Equality of numbers: the two zeros are equal, and NaN equals nothing. -/
def equal (x y : Number) : Bool := !x.isNaN && !y.isNaN && x.rank == y.rank

/-! ## Rounding

A quotient of natural numbers is rounded to the nearest number; of two equally near numbers
the one with the even magnitude word is taken. -/

/-- The number with a given magnitude word, or infinity where the word is too large. -/
def ofMagnitude (negative : Bool) (word : Nat) : Number where
  negative := negative
  magnitude := ⟨min word infiniteMagnitude,
    Nat.lt_of_le_of_lt (Nat.min_le_right _ _) (by decide)⟩

def zero : Number := ofMagnitude false 0

/-- Infinity, of either sign. -/
def infinity (negative : Bool) : Number := ofMagnitude negative infiniteMagnitude

def nan : Number := ⟨false, ⟨infiniteMagnitude + 2 ^ (51 : Nat), by decide⟩⟩

/-- The quotient rounded to the nearest integer, a half to the even one. -/
def divEven (num den : Nat) : Nat :=
  let q := num / den
  let r := num % den
  if 2 * r < den || (2 * r == den && q % 2 == 0) then q else q + 1

/-- The largest `e` with `2 ^ e ≤ num / den`, for positive arguments. -/
def ratioLog (num den : Nat) : Int :=
  let e : Int := (num.log2 : Int) - den.log2
  if den * 2 ^ e.toNat ≤ num * 2 ^ (-e).toNat then e else e - 1

/-- The number nearest to `num / den`. -/
def ofRatio (negative : Bool) (num den : Nat) : Number :=
  if num = 0 then ofMagnitude negative 0
  else
    let q := max (ratioLog num den - 52) (-1074)
    let m := divEven (num * 2 ^ (-q).toNat) (den * 2 ^ q.toNat)
    ofMagnitude negative ((q + 1074).toNat * 2 ^ (52 : Nat) + m)

def ofInt (i : Int) : Number := ofRatio (i < 0) i.natAbs 1

def ofNat (n : Nat) : Number := ofRatio false n 1

/-! ## Integers among the numbers -/

/-- The integer that a finite number is, if it is one. -/
def toInt? (x : Number) : Option Int :=
  if x.isFinite then
    let unit := 2 ^ (-x.scale).toNat
    let m := x.significand * 2 ^ x.scale.toNat
    if m % unit = 0 then
      some (if x.negative then -((m / unit : Nat) : Int) else (m / unit : Nat))
    else none
  else none

/-- The bound below which an integral number is written as an integer. -/
def integerBound : Nat := 9000000000000000

/-- The integer that a number is written as: an integral number of magnitude below
`integerBound` is. -/
def shortInt? (x : Number) : Option Int :=
  x.toInt?.filter fun i => i.natAbs < integerBound

/-- A number is truthy unless it is zero or NaN. -/
def truthy (x : Number) : Bool := !x.isZero && !x.isNaN

end Number

end WhenClause
