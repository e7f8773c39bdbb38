import WhenClause.CommandLine.Run

set_option autoImplicit false

/-! # The program

The command line on a real machine. Everything that decides is in `CommandLine.run`; here the
machine is asked, and the outcome is printed. -/

namespace WhenClause.Program

/-- The program's monad counts the serial numbers given out. -/
abbrev ProgramM : Type → Type := StateT Nat IO

/-- A failure of the operating system in its own words and with its number. -/
def failureText (e : IO.Error) : String :=
  match e with
  | .noFileOrDirectory _ code details => s!"{details} (os error {code})"
  | .inappropriateType _ code details => s!"{details} (os error {code})"
  | .permissionDenied _ code details => s!"{details} (os error {code})"
  | .invalidArgument _ code details => s!"{details} (os error {code})"
  | .resourceExhausted _ code details => s!"{details} (os error {code})"
  | .otherError code details => s!"{details} (os error {code})"
  | e => toString e

def attempt {α : Type} (action : IO α) : ExceptT String ProgramM α :=
  ExceptT.mk do
    match ← (action.toBaseIO : IO (Except IO.Error α)) with
    | .ok a => return .ok a
    | .error e => return .error (failureText e)

def pathKind? (path : String) : ProgramM (Option PathKind) := do
  let found ← (attempt do
    let place ← IO.FS.realPath path
    place.metadata).run
  match found with
  | .ok data =>
      match data.type with
      | .file => return some .file
      | .dir => return some .directory
      | _ => return some .other
  | .error _ => return none

def machine : Machine ProgramM where
  envValue name := (IO.getEnv name : IO (Option String))
  osName := "linux"
  archName := "x86_64"
  workingDirectory := attempt do return (← IO.currentDir).toString
  pathKind? := pathKind?
  readText path := attempt (IO.FS.readFile path)
  fresh := modifyGet fun n => (n, n + 1)

def usageText : String :=
  "Usage: check EXPRESSION [-c FILE] [--var KEY=VALUE]... [-d]\n" ++
  "       eval EXPRESSION [-c FILE] [--var KEY=VALUE]... [-d]\n" ++
  "       parse EXPRESSION\n" ++
  "       legacy TOKENS [-c FILE] [--var KEY=VALUE]... [-d]"

/-- The lines of the log that are shown: the calls that were made, if that was asked for. -/
def shownLog (args : List String) (log : Log) : Log :=
  if (CommandLine.readRequest args).any CommandLine.Request.debug then
    log.filter fun record => record.level == .info
  else []

end WhenClause.Program

def main (args : List String) : IO UInt32 := do
  let (ending, _) ← (WhenClause.CommandLine.run WhenClause.Program.machine args).run 0
  for record in WhenClause.Program.shownLog args ending.log do
    IO.eprintln s!"{record.level.text}: {record.message}"
  match ending.outcome with
  | .usage => IO.eprintln WhenClause.Program.usageText
  | .answer _ printed => IO.print printed
  | .failure e => IO.eprintln s!"Error: {e.message}"
  return ending.outcome.exitCode.toUInt32
