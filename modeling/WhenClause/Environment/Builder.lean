import WhenClause.Environment.Config
import WhenClause.Registry

set_option autoImplicit false

/-! # Composing a registry

A host brings default commands and any number of extensions. The configuration decides which
extensions are active. The defaults are registered first and then the commands of the active
extensions in the order of their names, so that an extension replaces a default, and a later
extension an earlier one. The first extension that is not there or fails ends the composition. -/

namespace WhenClause

/-- A named bundle of commands. -/
structure Extension (m : Type → Type) where
  /-- The name under which configurations know it. -/
  name : String
  /-- Get ready; done once, before the commands are asked for. -/
  activate : ExceptT String m Unit
  commands : ExceptT String m (List (Command m))

/-- The commands that a registry may be composed of. -/
structure Environment (m : Type → Type) where
  defaults : List (Command m)
  /-- The extensions; of several with one name the last counts. -/
  extensions : List (Extension m)

namespace Environment

variable {m : Type → Type}

def extension? (env : Environment m) (name : String) : Option (Extension m) :=
  env.extensions.reverse.find? fun e => e.name == name

def activationMessage (name : String) (commands : List (Command m)) : String :=
  s!"Activated extension '{name}' ({Nat.repr commands.length} commands)"

variable [Monad m]

/-- A step of a composition, which may fail and writes a log. -/
abbrev BuildM (m : Type → Type) : Type → Type := ExceptT Error (StateT Log m)

/-- Something that an extension does, its failure reported under the name of the extension. -/
def attempt {α : Type} (name : String) (action : ExceptT String m α) : BuildM m α :=
  ExceptT.adapt (Error.extension name) (ExceptT.mk (StateT.lift action.run))

def extend (registry : Registry m) (commands : List (Command m)) : BuildM m (Registry m) := do
  let (result, log) := registry.extend commands
  modify (· ++ log)
  return result

/-- The commands of the extensions with the given names, one extension after the other. -/
def activateAll (env : Environment m) (registry : Registry m) : List String → BuildM m (Registry m)
  | [] => pure registry
  | name :: rest => do
      match env.extension? name with
      | none => throw (.config s!"Context extension declared but not found: {name}")
      | some extension => do
          attempt name extension.activate
          let commands ← attempt name extension.commands
          modify (· ++ [⟨.info, activationMessage name commands⟩])
          activateAll env (← extend registry commands) rest

def build (env : Environment m) (config : Config) : BuildM m (Registry m) := do
  let registry ← extend (Registry.empty config.debug) env.defaults
  activateAll env registry config.activeExtensions

end Environment

end WhenClause
