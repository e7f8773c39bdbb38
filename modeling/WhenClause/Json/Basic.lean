import WhenClause.Dictionary
import WhenClause.Number.Basic

set_option autoImplicit false

/-! # JSON values

A JSON number is an integer or a float, which its written form tells apart. The entries of an
object are kept in the order given; the reader puts them in the order of their keys. -/

namespace WhenClause

/-- A JSON value. -/
inductive Json where
  | null
  | bool (b : Bool)
  /-- A number written without fraction and exponent. -/
  | integer (i : Int)
  /-- Any other number. -/
  | float (x : Number)
  | string (s : String)
  | array (items : List Json)
  | object (entries : List (String × Json))
deriving Inhabited

namespace Json

def string? : Json → Option String
  | .string s => some s
  | _ => none

def bool? : Json → Option Bool
  | .bool b => some b
  | _ => none

def array? : Json → Option (List Json)
  | .array items => some items
  | _ => none

def entries? : Json → Option (List (String × Json))
  | .object entries => some entries
  | _ => none

/-- The value of a key, when the value is an object that has it. -/
def field? (j : Json) (key : String) : Option Json :=
  j.entries?.bind (Dictionary.find? key)

def number? : Json → Option Number
  | .integer i => some (Number.ofInt i)
  | .float x => some x
  | _ => none

end Json

end WhenClause
