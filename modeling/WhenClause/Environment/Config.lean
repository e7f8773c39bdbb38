import WhenClause.Dictionary
import WhenClause.Error
import WhenClause.Text.Blank
import WhenClause.Yaml.Node

set_option autoImplicit false

/-! # Configurations

A configuration says whether calls are logged and which extensions are active. It is written in
YAML, as a mapping with the keys `debug` and `extensions`; other keys are ignored, and a text
without contents is the default configuration. -/

namespace WhenClause

/-- How a registry is to be composed. -/
structure Config where
  /-- Calls that are really made are logged. -/
  debug : Bool
  /-- The extensions by name, and whether they are active. -/
  extensions : List (String × Bool)
deriving DecidableEq

namespace Config

/-- No logging and no extensions. -/
def default : Config := ⟨false, []⟩

/-- The names of the active extensions, in ascending order. -/
def activeExtensions (config : Config) : List String :=
  (config.extensions.filter fun e => e.2).map Prod.fst

/-! ## The environment -/

def debugVariable : String := "SCOPE_DEBUG"

/-- The texts that turn logging on, up to blanks at the ends and the case of letters. -/
def turnsOn (text : String) : Bool :=
  ["1", "true", "yes"].contains (String.ofList ((Text.trim text.toList).map Char.toLower))

/-- Logging is turned on if the text says so; no text turns it off. -/
def withOverride (config : Config) (text : Option String) : Config :=
  { config with debug := config.debug || text.any turnsOn }

/-! ## Reading -/

def boolOf? (d : Yaml.Document) (n : Yaml.Node) : Option Bool :=
  match d.resolve n with
  | .scalar style tag text =>
      if style = .plain ∨ (style = .literal ∧ tag = some Yaml.Tag.bool) then
        if ["true", "True", "TRUE"].contains (String.ofList text) then some true
        else if ["false", "False", "FALSE"].contains (String.ofList text) then some false
        else none
      else none
  | _ => none

def textOf? (d : Yaml.Document) (n : Yaml.Node) : Option String :=
  match d.resolve n with
  | .scalar _ _ text => some (String.ofList text)
  | _ => none

/-- The entries of a mapping; an empty plain scalar is a mapping without entries. -/
def entriesOf? (d : Yaml.Document) (n : Yaml.Node) : Option (List (Yaml.Node × Yaml.Node)) :=
  match d.resolve n with
  | .mapping entries => some entries
  | .scalar .plain _ [] => some []
  | _ => none

def extensionsOf? (d : Yaml.Document) (n : Yaml.Node) : Option (List (String × Bool)) := do
  let entries ← (← entriesOf? d n).mapM fun (k, v) => do some (← textOf? d k, ← boolOf? d v)
  some (Dictionary.ofList entries)

def valuesOf (key : String) (entries : List (String × Yaml.Node)) : List Yaml.Node :=
  (entries.filter fun e => e.1 == key).map Prod.snd

/-- What the only entry of a key says, or what its absence does. A key must not come twice. -/
def only {α : Type} (absent : α) (read : Yaml.Node → Option α) : List Yaml.Node → Option α
  | [] => some absent
  | [n] => read n
  | _ => none

def ofDocument? (d : Yaml.Document) : Option Config :=
  match d.root with
  | none => some default
  | some n => do
      let entries ← (← entriesOf? d n).mapM fun (k, v) => do some (← textOf? d k, v)
      let debug ← only false (boolOf? d) (valuesOf "debug" entries)
      let extensions ← only [] (extensionsOf? d) (valuesOf "extensions" entries)
      some ⟨debug, extensions⟩

def parse (text : String) : Except Error Config :=
  if (Text.trim text.toList).isEmpty then .ok default
  else
    match (Yaml.parse text.toList).bind ofDocument? with
    | some config => .ok config
    | none => .error .yaml

end Config

end WhenClause
