import WhenClause.Json.Written
import WhenClause.Expression.Basic
import WhenClause.Error
import WhenClause.Value.Json
import WhenClause.Text.Occurrence

set_option autoImplicit false

/-! # Conditions in JSON

Besides texts, predicates may be given as JSON arrays. The strings `or` and `and` cut an array
into groups of parts, and the array holds when every part of some group does. A part is a call, a
comparison of the result of a call with a value, or an array again. Calls are strings such as
`name(1, 2)` or objects that name the command and its arguments.

A part that is malformed does not make the array malformed: its error arises when the part is
reached. -/

namespace WhenClause

/-- A call, as a part of a condition gives it. -/
structure Call where
  /-- The outcome counts negated. -/
  negated : Bool
  name : String
  args : List Value

/-- A condition. -/
inductive Condition where
  /-- Every part of some group holds. -/
  | anyOf (groups : List (List Condition))
  /-- The result of a call is truthy. -/
  | call (c : Call)
  /-- The result of a call compares with a value, by an operator or a command. -/
  | comparison (context : Call) (operator : Call) (right : Value)
  /-- The error of a malformed part. -/
  | fault (e : Error)

/-! ## Calls as strings -/

namespace Call

/-- Whether a call is negated, and the call. A comparison operator is never taken for a negated
one, although `!=` starts like a negation. -/
def splitNegation (text : List Char) : Bool × List Char :=
  let inner := Text.trim text
  if (Operator.ofName? (String.ofList inner)).any fun op => !op.isLogical then (false, inner)
  else
    match Text.dropLead? ['n', 'o', 't', ' '] inner with
    | some rest => (true, Text.trim rest)
    | none =>
        match inner with
        | '!' :: rest => (true, Text.trim rest)
        | _ => (false, inner)

/-- The value of an argument between commas. -/
def coerce (arg : List Char) : Value :=
  if arg = ['t', 'r', 'u', 'e'] then .bool true
  else if arg = ['f', 'a', 'l', 's', 'e'] then .bool false
  else if arg = ['n', 'u', 'l', 'l'] then .null
  else if !arg.isEmpty && arg.all Decimal.isDigit then
    .number (Decimal.toNumber ⟨false, Decimal.natOfDigits arg, 0⟩)
  else .string (String.ofList arg)

end Call

end WhenClause
