import WhenClause.Number.Decimal

set_option autoImplicit false

/-! # Shortest decimals

The shortest decimal of a positive finite number is the one with the fewest digits among the
decimals that round to the number; of several it is the nearest. All reals between two
*midpoints* round to the number, and the midpoints themselves do so when its significand is
even. Everything is computed with natural numbers: the number is `4 m · 2 ^ (q - 2)`, and the
midpoints are `4 m - 2` (or `4 m - 1`, where the next smaller number is only half as far away)
and `4 m + 2` in the same unit. -/

namespace WhenClause.Number

-- Powers are the core library's powers of natural numbers, whatever else is imported.
attribute [local instance (high)] instPowNat

/-- Which of two equally near decimals of the same length is taken. -/
inductive Tie where
  | up
  /-- The one whose last digit is even. -/
  | even
deriving DecidableEq

/-- The decimals that round to a number: the reals from `low / den` to `high / den`, ends
included if `closed`, around `mid / den`. -/
structure Interval where
  /-- The lower midpoint. -/
  low : Nat
  mid : Nat
  /-- The upper midpoint. -/
  high : Nat
  den : Nat
  /-- The ends belong to the interval. -/
  closed : Bool

/-- The interval of the reals that round to a positive finite number. -/
def interval (x : Number) : Interval :=
  let m := x.significand
  let q := x.scale - 2
  let up := 2 ^ q.toNat
  let below := if m = 2 ^ (52 : Nat) ∧ 1 < x.exponentField then 1 else 2
  { low := (4 * m - below) * up
    mid := 4 * m * up
    high := (4 * m + 2) * up
    den := 2 ^ (-q).toNat
    closed := m % 2 = 0 }

/-- The least `e` with `num / den < 10 ^ e`, for positive arguments. -/
def decimalTop (num den : Nat) : Int :=
  if den ≤ num then (Decimal.digitsOfNat (num / den)).length
  else if den = 0 then 0
  else 1 - ((Decimal.digitsOfNat ((den - 1) / num)).length : Int)

def Interval.contains (i : Interval) (c : Nat) (e : Int) : Bool :=
  let value := c * 10 ^ e.toNat * i.den
  let unit := 10 ^ (-e).toNat
  if i.closed then i.low * unit ≤ value && value ≤ i.high * unit
  else i.low * unit < value && value < i.high * unit

/-- The decimal `c · 10 ^ e` in the interval that is nearest to its number, if there is one. Only
the two neighbours of the number on that grid have to be tried. -/
def Interval.nearest? (i : Interval) (tie : Tie) (e : Int) : Option Nat :=
  let num := i.mid * 10 ^ (-e).toNat
  let den := i.den * 10 ^ e.toNat
  let c := num / den
  let r := num % den
  let upper :=
    if 2 * r = den then tie = .up || c % 2 = 1 else den < 2 * r
  match i.contains c e && c ≠ 0, i.contains (c + 1) e with
  | true, true => some (if upper then c + 1 else c)
  | true, false => some c
  | false, true => some (c + 1)
  | false, false => none

/-- The decimal that a finite number is: for negative `q`, `m · 2 ^ q = m · 5 ^ (-q) · 10 ^ q`. -/
def exact (x : Number) : Decimal :=
  ⟨x.negative, x.significand * 2 ^ x.scale.toNat * 5 ^ (-x.scale).toNat, min x.scale 0⟩

/-- The shortest decimal of a finite number. Seventeen digits always suffice; past them the number
itself stands, so that whatever is returned rounds to the number. Of the coarsest grid the number
ten may be taken, which is the digit one with a larger exponent. -/
def shortest (tie : Tie) (x : Number) : Decimal :=
  if x.isZero then ⟨x.negative, 0, 0⟩
  else
    let i := x.interval
    let top := decimalTop i.mid i.den
    let found := (List.range 17).findSome? fun k =>
      (i.nearest? tie (top - (k + 1 : Nat))).map fun c => (c, top - (k + 1 : Nat))
    match found with
    | some (c, e) => if c = 10 then ⟨x.negative, 1, e + 1⟩ else ⟨x.negative, c, e⟩
    | none => x.exact

/-! ## The written forms of a number -/

/-- The text of a number on its own: the shortest decimal in positional form, with the sign of
zero kept. -/
def text (x : Number) : List Char :=
  if x.isNaN then ['N', 'a', 'N']
  else
    let sign := if x.negative then ['-'] else []
    if x.isFinite then
      let d := x.shortest .up
      sign ++ Decimal.positional d.digits d.exponent
    else sign ++ ['i', 'n', 'f']

/-- The text of a number in a JSON text that holds it as no integer. -/
def jsonText (x : Number) : List Char :=
  if x.isFinite then
    let d := x.shortest .even
    (if x.negative then ['-'] else []) ++ Decimal.scientific d.digits d.exponent
  else ['n', 'u', 'l', 'l']

end WhenClause.Number
