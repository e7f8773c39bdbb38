import WhenClause.Text.LetterCase
import WhenClause.Text.Occurrence
import WhenClause.Value.Text

set_option autoImplicit false

/-! # Members of values

The members that strings, arrays and records have by themselves. A member is a value, or a method
that waits for its arguments. Lengths and positions count characters and items. -/

namespace WhenClause

/-- What the look-up of a member finds. -/
inductive Member where
  | value (v : Value)
  | method

/-! ## Methods of strings -/

/-- The methods of strings. -/
inductive TextMethod where
  | includes
  | startsWith
  | endsWith
  | indexOf
  | trim
  | toLowerCase
  | toUpperCase
deriving DecidableEq

namespace TextMethod

def name : TextMethod → String
  | includes => "includes"
  | startsWith => "startsWith"
  | endsWith => "endsWith"
  | indexOf => "indexOf"
  | trim => "trim"
  | toLowerCase => "toLowerCase"
  | toUpperCase => "toUpperCase"

def all : List TextMethod :=
  [includes, startsWith, endsWith, indexOf, trim, toLowerCase, toUpperCase]

def ofName? (name : String) : Option TextMethod := all.find? fun m => m.name == name

/-- The text that a method is given: its first argument, any value but a string by its text. -/
def argument (m : TextMethod) : List Value → Except String (List Char)
  | [] => .error s!"{m.name}() expects an argument"
  | .string s :: _ => .ok s.toList
  | v :: _ => .ok v.text.toList

/-- The position that a search found, or minus one. -/
def position (found : Option Nat) : Value :=
  .number (match found with
    | some i => Number.ofNat i
    | none => Number.ofInt (-1))

def apply (m : TextMethod) (s : List Char) (args : List Value) : Except String Value :=
  match m with
  | includes => do return .bool (Text.occursIn (← m.argument args) s)
  | startsWith => do return .bool ((← m.argument args).isPrefixOf s)
  | endsWith => do return .bool ((← m.argument args).isSuffixOf s)
  | indexOf => do return position (Text.indexOf? (← m.argument args) s)
  | trim => .ok (.string (String.ofList (Text.trim s)))
  | toLowerCase => .ok (.string (String.ofList (Text.toLower s)))
  | toUpperCase => .ok (.string (String.ofList (Text.toUpper s)))

end TextMethod

/-! ## Methods of arrays -/

/-- The methods of arrays. -/
inductive ListMethod where
  | includes
  | indexOf
  | join
deriving DecidableEq

namespace ListMethod

def name : ListMethod → String
  | includes => "includes"
  | indexOf => "indexOf"
  | join => "join"

def all : List ListMethod := [includes, indexOf, join]

def ofName? (name : String) : Option ListMethod := all.find? fun m => m.name == name

/-- The value that is searched for: the first argument, or null. -/
def needle (args : List Value) : Value := args.headD .null

/-- The text of an item between separators: strings stand for themselves, null for nothing. -/
def itemText : Value → String
  | .string s => s
  | .null => ""
  | v => v.text

/-- The separator of the joined items: the first argument, if it is a string, or a comma. -/
def separator (args : List Value) : String := (args.head?.bind Value.string?).getD ","

def apply (m : ListMethod) (items : List Value) (args : List Value) : Value :=
  match m with
  | includes => .bool (items.any fun item => item.deepEq (needle args))
  | indexOf => TextMethod.position (items.findIdx? fun item => item.deepEq (needle args))
  | join => .string (String.intercalate (separator args) (items.map itemText))

end ListMethod

/-! ## Look-up -/

namespace Value

/-- The member of a value by itself. Handles have none: their members are the host's. -/
def member? : Value → String → Option Member
  | .record fields, key => (Dictionary.find? key fields).map .value
  | .string s, key =>
      if key = "length" then some (.value (.number (Number.ofNat s.toList.length)))
      else (TextMethod.ofName? key).map fun _ => .method
  | .array items, key =>
      if key = "length" then some (.value (.number (Number.ofNat items.length)))
      else (ListMethod.ofName? key).map fun _ => .method
  | _, _ => none

/-- The result of a method that `member?` finds, given its name and the value it belongs to. -/
def applyMethod? (method : String) (args : List Value) : Value → Option (Except String Value)
  | .string s => (TextMethod.ofName? method).map fun m => m.apply s.toList args
  | .array items => (ListMethod.ofName? method).map fun m => .ok (m.apply items args)
  | _ => none

end Value

end WhenClause
