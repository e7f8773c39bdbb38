import WhenClause.Condition.Basic
import WhenClause.Json.Reader

set_option autoImplicit false

/-! # Reading conditions

From a JSON value to the condition that it is. -/

namespace WhenClause

namespace Call

/-! ## Calls -/

/-- The arguments in a text between parentheses. A text with a double quote in it is a list of
JSON values; any other is cut at its commas. -/
def readArguments (text : List Char) : Except Error (List Value) :=
  if text.contains '"' then
    match (Json.parse ('[' :: (text ++ [']']))).bind Json.array? with
    | some items => .ok (items.map Value.ofJson)
    | none => .error (.argumentJson (String.ofList text))
  else if (Text.trim text).isEmpty then .ok []
  else .ok ((Text.splitAt ',' text).map fun arg => coerce (Text.trim arg))

/-- The name and the arguments of a call. A text that does not end with a list of arguments is a
name throughout. -/
def readBody (text : List Char) : Except Error (String × List Value) :=
  let name := text.takeWhile (· != '(')
  match text.dropWhile (· != '('), text.getLast? with
  | _ :: inner, some ')' =>
      (readArguments inner.dropLast).map fun args => (String.ofList (Text.trim name), args)
  | _, _ => .ok (String.ofList text, [])

def ofText (text : String) : Except Error Call := do
  let (negated, body) := splitNegation text.toList
  let (name, args) ← readBody body
  return ⟨negated, name, args⟩

/-- The arguments that an entry of an object gives: an array its items, null nothing, and any
other value itself. -/
def argumentsOf : Option Json → List Value
  | none | some .null => []
  | some (.array items) => items.map Value.ofJson
  | some j => [Value.ofJson j]

def ofJson (j : Json) : Except Error Call :=
  match j with
  | .string text => ofText text
  | .object _ =>
      match (j.field? "command").bind Json.string? with
      | some name =>
          .ok ⟨((j.field? "not").bind Json.bool?).getD false, name, argumentsOf (j.field? "args")⟩
      | none => .error (.invalidExpression s!"Command name must be a string: {j.compact}")
  | _ => .error (.invalidExpression s!"Not a command: {j.compact}")

/-- The JSON value has the form of a call: a string, or an object that names a command and
arguments. -/
def isCall (j : Json) : Bool :=
  match j with
  | .string _ => true
  | .object _ => (j.field? "command").isSome && (j.field? "args").isSome
  | _ => false

end Call

namespace Condition

/-! ## Parts -/

/-- The items between the occurrences of a separator; `n` separators give `n + 1` groups. -/
def splitOn {α : Type} (separates : α → Bool) : List α → List (List α)
  | [] => [[]]
  | item :: rest =>
      if separates item then [] :: splitOn separates rest
      else
        match splitOn separates rest with
        | [] => [[item]]
        | group :: groups => (item :: group) :: groups

/-- The condition of a comparison, or the error of its operator or its context. -/
def ofComparison (operator context right : Json) : Condition :=
  match Call.ofJson operator, Call.ofJson context with
  | .ok op, .ok c => .comparison c op (Value.ofJson right)
  | .error e, _ => .fault e
  | .ok _, .error e => .fault e

/-- The context, the operator and the value of an object that is a comparison. -/
def objectComparison? (j : Json) : Option (Json × Json × Json) := do
  let context ← (j.field? "context").filter Call.isCall
  let operator ← (j.field? "operator").filter Call.isCall
  let right ← j.field? "value"
  return (context, operator, right)

/-- The condition of a part of one item, given the condition of the item as an array. -/
def ofItem (j : Json) (nested : Condition) : Condition :=
  match objectComparison? j with
  | some (context, operator, right) => ofComparison operator context right
  | none =>
      if Call.isCall j then
        match Call.ofJson j with
        | .ok c => .call c
        | .error e => .fault e
      else
        match j with
        | .array _ => nested
        | _ => .fault (.invalidExpression (Json.array [j]).compact)

/-- The condition of a part. Each item comes with its condition as an array. -/
def ofPart : List (Json × Condition) → Condition
  | [(j, nested)] => ofItem j nested
  | [(context, _), (operator, _), (right, _)] =>
      if Call.isCall context && Call.isCall operator then ofComparison operator context right
      else .fault (.invalidExpression (Json.array [context, operator, right]).compact)
  | part => .fault (.invalidExpression (Json.array (part.map Prod.fst)).compact)

/-- An item is the given separator. -/
def separates (word : String) (item : Json × Condition) : Bool := item.1.string? == some word

def ofItems (items : List (Json × Condition)) : Condition :=
  .anyOf ((splitOn (separates "or") items).map fun group =>
    (splitOn (separates "and") group).map ofPart)

mutual

def ofJson : Json → Condition
  | .array items => ofItems (withConditions items)
  | j => .fault (.invalidExpression s!"Unexpected context value: {j.compact}")

/-- Each item with its condition. -/
def withConditions : List Json → List (Json × Condition)
  | [] => []
  | j :: rest => (j, ofJson j) :: withConditions rest

end

end Condition

end WhenClause
