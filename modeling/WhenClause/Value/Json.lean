import WhenClause.Json.Basic
import WhenClause.Value.Text

set_option autoImplicit false

/-! # Values as JSON

An integral number of small magnitude becomes a JSON integer, and every other finite number a
float; NaN and the infinities become null. Functions and handles become their texts. In the other
direction every JSON value is a value. -/

namespace WhenClause.Value

def numberToJson (x : Number) : Json :=
  match x.shortInt? with
  | some i => .integer i
  | none => if x.isFinite then .float x else .null

mutual

def toJson : Value → Json
  | .null => .null
  | .bool b => .bool b
  | .number x => numberToJson x
  | .string s => .string s
  | .array items => .array (itemsToJson items)
  | .record fields => .object (fieldsToJson fields)
  | v@(.function _ _ _) => .string v.text
  | v@(.handle _) => .string v.text

def itemsToJson : List Value → List Json
  | [] => []
  | v :: rest => toJson v :: itemsToJson rest

def fieldsToJson : List (String × Value) → List (String × Json)
  | [] => []
  | (key, v) :: rest => (key, toJson v) :: fieldsToJson rest

end

mutual

def ofJson : Json → Value
  | .null => .null
  | .bool b => .bool b
  | .integer i => .number (Number.ofInt i)
  | .float x => .number x
  | .string s => .string s
  | .array items => .array (ofJsonItems items)
  | .object entries => .record (Dictionary.ofList (ofJsonEntries entries))

def ofJsonItems : List Json → List Value
  | [] => []
  | j :: rest => ofJson j :: ofJsonItems rest

def ofJsonEntries : List (String × Json) → List (String × Value)
  | [] => []
  | (key, j) :: rest => (key, ofJson j) :: ofJsonEntries rest

end

end WhenClause.Value
