import WhenClause.Evaluation.Host
import WhenClause.Machine.FilePath
import WhenClause.Registry

set_option autoImplicit false

/-! # Commands about the machine

The commands that the command line offers: environment variables, the variables given with the
call, the names of the operating system and of the architecture, the working directory, and
handles of file paths. -/

namespace WhenClause

/-- What a path leads to. -/
inductive PathKind where
  | file
  | directory
  | other
deriving DecidableEq

/-- What the commands ask of the machine. -/
structure Machine (m : Type → Type) where
  envValue : String → m (Option String)
  osName : String
  archName : String
  workingDirectory : ExceptT String m String
  pathKind? : String → m (Option PathKind)
  /-- The contents of a file; a failure is told in the words of the operating system. -/
  readText : String → ExceptT String m String
  fresh : m Nat

namespace Machine

variable {m : Type → Type} [Monad m]

/-- The text that a command is given as its first argument. Numbers and booleans count by their
texts. -/
def textArgument (command : String) (args : List Value) : Except String String :=
  match args with
  | [] => .error s!"{command}: missing argument 1"
  | .string s :: _ => .ok s
  | v@(.number _) :: _ | v@(.bool _) :: _ => .ok v.text
  | v :: _ => .error s!"{command}: argument 1 must be a string, got {v.text}"

/-- A text, or null. -/
def textOrNull (s : Option String) : Value :=
  match s with
  | some s => .string s
  | none => .null

/-! ## Paths -/

def pathType : String := "path"

def newPath (machine : Machine m) (path : String) : m Value := do
  return .handle ⟨pathType, path, ← machine.fresh⟩

def pathMethods : List String := ["toString", "join", "read"]

def pathMember (machine : Machine m) (h : Handle) (key : String) : m (Option Value) := do
  let path := h.subject
  if key = "exists" then return some (.bool (← machine.pathKind? path).isSome)
  else if key = "isFile" then return some (.bool ((← machine.pathKind? path) == some .file))
  else if key = "isDir" then return some (.bool ((← machine.pathKind? path) == some .directory))
  else if key = "name" then
    return some (textOrNull ((FilePath.fileName? path.toList).map String.ofList))
  else if key = "extension" then
    return some (textOrNull ((FilePath.extension? path.toList).map String.ofList))
  else if pathMethods.contains key then
    return some (.function (← machine.fresh) key (.handle h))
  else return none

def callPath (machine : Machine m) (path : String) (method : String) (args : List Value) :
    ExceptT String m Value :=
  if method = "toString" then pure (.string path)
  else if method = "join" then do
    let segment ← ExceptT.mk (pure (textArgument "join" args))
    machine.newPath (String.ofList (FilePath.join path.toList segment.toList))
  else do return .string (← machine.readText path)

def objects (machine : Machine m) : Objects m where
  fresh := machine.fresh
  member := machine.pathMember
  call f args :=
    match f.receiver with
    | .handle h => machine.callPath h.subject f.method args
    | _ => throw s!"{f.method} is no method"

/-! ## Commands -/

def envCommand (machine : Machine m) : Command m where
  name := "env"
  description := "Value of an environment variable, or null when unset"
  run args := do
    let name ← ExceptT.mk (pure (textArgument "env" args))
    return textOrNull (← machine.envValue name)

def varCommand (vars : List (String × String)) : Command m where
  name := "var"
  description := "Value of a --var KEY=VALUE pair, or null when not given"
  run args := do
    let name ← ExceptT.mk (pure (textArgument "var" args))
    return textOrNull (Dictionary.find? name vars)

def osCommand (machine : Machine m) : Command m where
  name := "os"
  description := "Operating system name, e.g. linux, macos, windows"
  run _ := pure (.string machine.osName)

def archCommand (machine : Machine m) : Command m where
  name := "arch"
  description := "CPU architecture, e.g. x86_64, aarch64"
  run _ := pure (.string machine.archName)

def cwdCommand (machine : Machine m) : Command m where
  name := "cwd"
  description := "Current working directory"
  run _ := do return .string (← machine.workingDirectory)

def pathCommand (machine : Machine m) : Command m where
  name := "path"
  description :=
    "Filesystem path handle with exists, isFile, isDir, name, extension, join() and read()"
  run args := do
    let path ← ExceptT.mk (pure (textArgument "path" args))
    machine.newPath path

/-- All commands about the machine, for variables given by their names. -/
def commands (machine : Machine m) (vars : List (String × String)) : List (Command m) :=
  [machine.envCommand, varCommand vars, machine.osCommand, machine.archCommand,
    machine.cwdCommand, machine.pathCommand]

end Machine

end WhenClause
