import WhenClause.Json.Basic
import WhenClause.Number.Shortest
import WhenClause.Text.Quoted

set_option autoImplicit false

/-! # Writing JSON

Two written forms of a JSON value: the compact one, without any white space, and the indented
one, with one item a line. -/

namespace WhenClause.Json

/-! ## The compact form -/

mutual

def compact : Json → String
  | .null => "null"
  | .bool b => if b then "true" else "false"
  | .integer i => String.ofList (Decimal.intText i)
  | .float x => String.ofList x.jsonText
  | .string s => Text.Quoted.quote s
  | .array [] => "[]"
  | .array (item :: items) => "[" ++ compact item ++ compactItems items ++ "]"
  | .object [] => "\x7b\x7d"
  | .object ((k, v) :: entries) =>
      "\x7b" ++ Text.Quoted.quote k ++ ":" ++ compact v ++ compactEntries entries ++ "\x7d"

def compactItems : List Json → String
  | [] => ""
  | item :: items => "," ++ compact item ++ compactItems items

def compactEntries : List (String × Json) → String
  | [] => ""
  | (k, v) :: entries =>
      "," ++ Text.Quoted.quote k ++ ":" ++ compact v ++ compactEntries entries

end

/-! ## The indented form -/

/-- A line break and the indentation of a depth, two blanks a level. -/
def lineBreak (depth : Nat) : String := "\n" ++ String.ofList (List.replicate (2 * depth) ' ')

mutual

/-- The indented form, for a value that stands at the given depth. Containers without items
stay on their line. -/
def indented (depth : Nat) : Json → String
  | .null => "null"
  | .bool b => if b then "true" else "false"
  | .integer i => String.ofList (Decimal.intText i)
  | .float x => String.ofList x.jsonText
  | .string s => Text.Quoted.quote s
  | .array [] => "[]"
  | .array (item :: items) =>
      "[" ++ lineBreak (depth + 1) ++ indented (depth + 1) item ++
        indentedItems (depth + 1) items ++ lineBreak depth ++ "]"
  | .object [] => "\x7b\x7d"
  | .object ((k, v) :: entries) =>
      "\x7b" ++ lineBreak (depth + 1) ++ Text.Quoted.quote k ++ ": " ++ indented (depth + 1) v ++
        indentedEntries (depth + 1) entries ++ lineBreak depth ++ "\x7d"

/-- Further items of an array, each on a line of its own. -/
def indentedItems (depth : Nat) : List Json → String
  | [] => ""
  | item :: items => "," ++ lineBreak depth ++ indented depth item ++ indentedItems depth items

/-- Further entries of an object, each on a line of its own. -/
def indentedEntries (depth : Nat) : List (String × Json) → String
  | [] => ""
  | (k, v) :: entries =>
      "," ++ lineBreak depth ++ Text.Quoted.quote k ++ ": " ++ indented depth v ++
        indentedEntries depth entries

end

def pretty (j : Json) : String := indented 0 j

end WhenClause.Json
