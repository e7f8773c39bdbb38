import WhenClause.Number.Basic

set_option autoImplicit false

/-! # Decimal numerals

A decimal `± d · 10 ^ e` and its nearest number, the reading of numerals, and the two ways of
writing a decimal down: positionally, and in the form of JSON texts, which turns to an exponent
for very large and very small numbers. -/

namespace WhenClause

-- Powers are the core library's powers of natural numbers, whatever else is imported.
attribute [local instance (high)] instPowNat

/-- The decimal `± digits · 10 ^ exponent`. -/
structure Decimal where
  negative : Bool
  /-- The digits, read as one natural number. -/
  digits : Nat
  /-- The power of ten that they count. -/
  exponent : Int
deriving DecidableEq

namespace Decimal

/-! ## Digits -/

def isDigit (c : Char) : Bool := '0' ≤ c && c ≤ '9'

/-- The natural number that a run of digits is read as. -/
def natOfDigits (ds : List Char) : Nat :=
  ds.foldl (fun n c => 10 * n + (c.toNat - 0x30)) 0

def digitsOfNat (n : Nat) : List Char := Nat.toDigits 10 n

/-- The digits of an integer, after a sign if it is negative. -/
def intText (i : Int) : List Char :=
  if i < 0 then '-' :: digitsOfNat i.natAbs else digitsOfNat i.natAbs

/-! ## The nearest number -/

/-- The number nearest to a decimal. A decimal of `n` digits lies below `10 ^ (n + exponent)` and
not below a tenth of that, so the far ends are decided without computing the power. -/
def toNumber (x : Decimal) : Number :=
  if x.digits = 0 then Number.ofMagnitude x.negative 0
  else
    let top : Int := (digitsOfNat x.digits).length + x.exponent
    if 311 ≤ top then Number.infinity x.negative
    else if top ≤ -324 then Number.ofMagnitude x.negative 0
    else Number.ofRatio x.negative (x.digits * 10 ^ x.exponent.toNat) (10 ^ (-x.exponent).toNat)

/-! ## Reading numerals -/

/-- A sign, if there is one, and the rest. -/
def readSign : List Char → Bool × List Char
  | '-' :: rest => (true, rest)
  | '+' :: rest => (false, rest)
  | rest => (false, rest)

/-- The exponent after a mantissa: nothing, or a marker, a sign and at least one digit. -/
def readExponent? : List Char → Option Int
  | [] => some 0
  | c :: rest =>
      if c = 'e' ∨ c = 'E' then
        let (negative, ds) := readSign rest
        if ds.isEmpty || !ds.all isDigit then none
        else some (if negative then -(natOfDigits ds : Int) else natOfDigits ds)
      else none

/-- The decimal that a numeral without sign stands for: digits with or without a point among
them, then an exponent. At least one digit must stand before the exponent. -/
def readUnsigned? (negative : Bool) (s : List Char) : Option Decimal :=
  let whole := s.takeWhile isDigit
  let afterWhole := s.dropWhile isDigit
  let (part, rest) : List Char × List Char :=
    match afterWhole with
    | '.' :: r => (r.takeWhile isDigit, r.dropWhile isDigit)
    | r => ([], r)
  if whole.isEmpty && part.isEmpty then none
  else
    (readExponent? rest).map fun e =>
      ⟨negative, natOfDigits (whole ++ part), e - part.length⟩

def read? (s : List Char) : Option Decimal :=
  let (negative, rest) := readSign s
  readUnsigned? negative rest

/-! ## Writing -/

/-- The positional form of `digits · 10 ^ exponent`: no exponent, a point only where a fraction
follows, and a zero before a leading point. -/
def positional (digits : Nat) (exponent : Int) : List Char :=
  let ds := digitsOfNat digits
  if 0 ≤ exponent then ds ++ List.replicate exponent.toNat '0'
  else
    let places := (-exponent).toNat
    if places < ds.length then
      ds.take (ds.length - places) ++ '.' :: ds.drop (ds.length - places)
    else '0' :: '.' :: (List.replicate (places - ds.length) '0' ++ ds)

/-- The form of JSON texts. With `p` the place of the point, counted from the first digit, the
form is positional where `-5 < p ≤ 16`, and it always shows that the number is no integer:
by a fraction, if need be `.0`, or by an exponent, which always has a sign. -/
def scientific (digits : Nat) (exponent : Int) : List Char :=
  let ds := digitsOfNat digits
  let point : Int := ds.length + exponent
  if 0 ≤ exponent && point ≤ 16 then positional digits exponent ++ ['.', '0']
  else if -5 < point && point ≤ 16 then positional digits exponent
  else
    let mantissa :=
      match ds with
      | [] => []
      | [d] => [d]
      | d :: rest => d :: '.' :: rest
    let power := point - 1
    mantissa ++ 'e' :: (if power < 0 then '-' else '+') :: digitsOfNat power.natAbs

end Decimal

end WhenClause
