import WhenClause.Number.Decimal

set_option autoImplicit false

/-! # Numbers written as texts

The texts that stand for a number where a value is coerced to one: a sign, then a decimal
numeral or one of the words for infinity and for "not a number", in any case. -/

namespace WhenClause.Number

/-- The number that a word stands for. -/
def ofWord? (negative : Bool) (s : List Char) : Option Number :=
  let word := String.ofList (s.map Char.toLower)
  if word = "inf" ∨ word = "infinity" then some (infinity negative)
  else if word = "nan" then some nan
  else none

def read? (s : List Char) : Option Number :=
  let (negative, rest) := Decimal.readSign s
  match Decimal.readUnsigned? negative rest with
  | some d => some d.toNumber
  | none => ofWord? negative rest

end WhenClause.Number
