import WhenClause.CommandLine.Arguments
import WhenClause.Environment.Builder
import WhenClause.Expression.Json
import WhenClause.Json.Reader
import WhenClause.Machine.Basic
import WhenClause.Predicate

set_option autoImplicit false

/-! # The command line

What a call of the command line prints and how it ends. A check ends with the code zero when the
predicate holds and with one when it does not; everything else ends with zero, and an error with
two. -/

namespace WhenClause.CommandLine

/-- How a call ends. -/
inductive Outcome where
  /-- The arguments were not understood. -/
  | usage
  | answer (exit : Nat) (printed : String)
  | failure (e : Error)
deriving DecidableEq

def Outcome.exitCode : Outcome → Nat
  | answer exit _ => exit
  | usage | failure _ => 2

/-- How a call ends, and what it writes to the log. -/
structure Ending where
  /-- What is printed, or the error. -/
  outcome : Outcome
  log : Log

variable {m : Type → Type} [Monad m]

/-- A step of a call, which may fail and writes a log. -/
abbrev CallM (m : Type → Type) : Type → Type := ExceptT Error (StateT Log m)

/-- A result that is there already. -/
def given {α : Type} (result : Except Error α) : CallM m α := ExceptT.mk (pure result)

def logging {α : Type} (action : m (Except Error α × Log)) : CallM m α := do
  let (result, log) ← (action : m (Except Error α × Log))
  modify (· ++ log)
  given result

/-- The configuration in a file, with the override of the environment. -/
def loadConfig (machine : Machine m) (path : String) : CallM m Config := do
  let text ← given ((← (machine.readText path).run).mapError Error.io)
  let config ← given (Config.parse text)
  return config.withOverride (← machine.envValue Config.debugVariable)

def configFor (machine : Machine m) (options : Options) : CallM m Config := do
  let config ←
    match options.config with
    | some path => loadConfig machine path
    | none => do pure (Config.default.withOverride (← machine.envValue Config.debugVariable))
  return { config with debug := config.debug || options.debug }

/-- The registry of a call: the commands about the machine, and no extensions. -/
def registryFor (machine : Machine m) (options : Options) : CallM m (Registry m) := do
  let config ← configFor machine options
  let env : Environment m := ⟨machine.commands (Dictionary.ofList options.vars), []⟩
  env.build config

def verdict (holds : Bool) : Outcome :=
  if holds then .answer 0 "true\n" else .answer 1 "false\n"

def answer (machine : Machine m) : Request → CallM m Outcome
  | .check expression options => do
      let registry ← registryFor machine options
      return verdict (← logging (registry.check machine.objects (.text expression)))
  | .eval expression options => do
      let registry ← registryFor machine options
      let e ← given (Expression.parse expression)
      let v ← logging (registry.evaluate machine.objects e)
      return .answer 0 (v.toJson.pretty ++ "\n")
  | .parse expression => do
      let e ← given (Expression.parse expression)
      return .answer 0 (e.toJson.pretty ++ "\n")
  | .legacy tokens options => do
      let registry ← registryFor machine options
      match Json.parse tokens.toList with
      | some j => return verdict (← logging (registry.check machine.objects (.condition j)))
      | none => throw .json

def run (machine : Machine m) (args : List String) : m Ending := do
  match readRequest args with
  | none => return ⟨.usage, []⟩
  | some request =>
      let (result, log) ← ((answer machine request).run).run []
      match result with
      | .ok outcome => return ⟨outcome, log⟩
      | .error e => return ⟨.failure e, log⟩

end WhenClause.CommandLine
