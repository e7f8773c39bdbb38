import WhenClause.Evaluation.Memo

set_option autoImplicit false

/-! # Command tables

A registry holds the commands of a host by their names. A command registered later replaces one
of the same name, and the log tells so. -/

namespace WhenClause

/-- A command of a host. -/
structure Command (m : Type → Type) where
  name : String
  /-- What it gives, for people. -/
  description : String
  /-- The result for evaluated arguments; a failure is told by its text. -/
  run : List Value → ExceptT String m Value

/-- A table of commands. -/
structure Registry (m : Type → Type) where
  table : List (String × Command m)
  debug : Bool

namespace Registry

variable {m : Type → Type}

def empty (debug : Bool) : Registry m := ⟨[], debug⟩

def get? (registry : Registry m) (name : String) : Option (Command m) :=
  Dictionary.find? name registry.table

/-- The names in ascending order. -/
def names (registry : Registry m) : List String := Dictionary.keys registry.table

def register (registry : Registry m) (command : Command m) : Registry m :=
  { registry with table := Dictionary.insert command.name command registry.table }

def registerLog (registry : Registry m) (command : Command m) : Log :=
  if (registry.get? command.name).isSome then
    [⟨.debug, s!"Command '{command.name}' overridden"⟩]
  else []

/-- The table with more commands, registered in their order, and what the log says. -/
def extend (registry : Registry m) : List (Command m) → Registry m × Log
  | [] => (registry, [])
  | command :: rest =>
      let (result, log) := extend (registry.register command) rest
      (result, registry.registerLog command ++ log)

variable [Monad m]

def invoke (registry : Registry m) (name : String) (args : List Value) : ExceptT Error m Value :=
  match registry.get? name with
  | some command => ExceptT.adapt (Error.command name) (command.run args)
  | none => throw (.unknownCommand name)

def host (registry : Registry m) (objects : Objects m) : Host m where
  invoke := registry.invoke
  member := objects.memberOf
  call := objects.callOf

end Registry

end WhenClause
