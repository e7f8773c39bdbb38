import WhenClause.Dictionary
import WhenClause.Number.Reading
import WhenClause.Text.Blank

set_option autoImplicit false

/-! # Values

What commands return and expressions evaluate to. Null, booleans, numbers, strings, arrays and
records are data. A function is a method bound to its receiver, and a handle stands for an object
of the host; both have an identity, and two of them are the same only if that is. -/

namespace WhenClause

/-- A handle of an object of the host. Two handles are the same when all three parts agree, so a
host gives each new handle a serial number of its own. -/
structure Handle where
  /-- The label of the kind of object. -/
  typeName : String
  /-- Which object it is, in the words of the host. -/
  subject : String
  serial : Nat
deriving DecidableEq

/-- A value. -/
inductive Value where
  | null
  | bool (b : Bool)
  | number (x : Number)
  | string (s : String)
  | array (items : List Value)
  /-- Fields in ascending order of their keys, each key once. -/
  | record (fields : List (String × Value))
  /-- A method bound to its receiver. The serial number is its identity. -/
  | function (serial : Nat) (method : String) (receiver : Value)
  | handle (h : Handle)
deriving Inhabited

/-- A function, taken out of the value that it is. -/
structure Callee where
  serial : Nat
  method : String
  /-- The value that it belongs to. -/
  receiver : Value

namespace Value

def callee? : Value → Option Callee
  | .function serial method receiver => some ⟨serial, method, receiver⟩
  | _ => none

def string? : Value → Option String
  | .string s => some s
  | _ => none

def number? : Value → Option Number
  | .number x => some x
  | _ => none

def bool? : Value → Option Bool
  | .bool b => some b
  | _ => none

def isNull : Value → Bool
  | .null => true
  | _ => false

/-- A record of the given fields; of several fields of one key the last counts. -/
def recordOf (fields : List (String × Value)) : Value := .record (Dictionary.ofList fields)

/-! ## Truth -/

/-- The truth value of any value: null, false, zero, NaN and the empty string are false. -/
def truthy : Value → Bool
  | .null => false
  | .bool b => b
  | .number x => x.truthy
  | .string s => !s.isEmpty
  | .array _ | .record _ | .function _ _ _ | .handle _ => true

/-! ## Equality -/

mutual

/-- Equality of values of one kind, item by item and field by field. Zeros of either sign are
equal, NaN is not equal to itself, and functions and handles are compared by identity. -/
def deepEq : Value → Value → Bool
  | .null, .null => true
  | .bool a, .bool b => a == b
  | .number x, .number y => x.equal y
  | .string s, .string t => s == t
  | .array as, .array bs => deepEqItems as bs
  | .record as, .record bs => deepEqFields as bs
  | .function a _ _, .function b _ _ => a == b
  | .handle a, .handle b => a == b
  | _, _ => false

def deepEqItems : List Value → List Value → Bool
  | [], [] => true
  | a :: as, b :: bs => deepEq a b && deepEqItems as bs
  | _, _ => false

/-- Equality of fields. Fields are in the order of their keys, so equal records have their fields
at the same places. -/
def deepEqFields : List (String × Value) → List (String × Value) → Bool
  | [], [] => true
  | (k, a) :: as, (l, b) :: bs => k == l && deepEq a b && deepEqFields as bs
  | _, _ => false

end

/-! ## Order -/

/-- The number that a value is coerced to where values of different kinds are ordered. A string
counts as the number that it spells, blanks at its ends aside, and a blank one as zero; arrays,
records, functions and handles are no numbers. -/
def coerce? : Value → Option Number
  | .null => some Number.zero
  | .bool b => some (Number.ofNat b.toNat)
  | .number x => some x
  | .string s =>
      let inner := Text.trim s.toList
      if inner.isEmpty then some Number.zero else Number.read? inner
  | _ => none

/-- The order of two strings, by their code points. -/
def compareStrings (s t : String) : Ordering :=
  if s < t then .lt else if s = t then .eq else .gt

/-- The order of two values, if they are ordered: of two strings by their characters, of any
others by the numbers that they are coerced to. -/
def compare : Value → Value → Option Ordering
  | .string s, .string t => some (compareStrings s t)
  | a, b => do (← a.coerce?).compare (← b.coerce?)

end Value

end WhenClause
