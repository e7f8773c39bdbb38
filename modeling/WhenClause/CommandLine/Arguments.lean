import WhenClause.Text.Occurrence

set_option autoImplicit false

/-! # Arguments of the command line

The command line has four commands. Each takes one text, and all but `parse` take options:

    check EXPRESSION [-c FILE] [--var KEY=VALUE]... [-d]
    eval EXPRESSION [-c FILE] [--var KEY=VALUE]... [-d]
    parse EXPRESSION
    legacy TOKENS [-c FILE] [--var KEY=VALUE]... [-d]

Options may stand anywhere behind the name of the command. The value of an option is the next
argument, unless that looks like an option, or what follows an equals sign or the letter of a
short option. Short options may be run together. Behind two dashes nothing is an option. -/

namespace WhenClause.CommandLine

/-- The options of a call. -/
structure Options where
  config : Option String
  /-- The variables, in the order given. -/
  vars : List (String × String)
  /-- Calls are logged. -/
  debug : Bool
deriving DecidableEq

/-- What a call of the command line asks for. -/
inductive Request where
  | check (expression : String) (options : Options)
  | eval (expression : String) (options : Options)
  | parse (expression : String)
  /-- The truth value of a condition in JSON. -/
  | legacy (tokens : String) (options : Options)
deriving DecidableEq

def Request.debug : Request → Bool
  | check _ options | eval _ options | legacy _ options => options.debug
  | parse _ => false

/-- What was understood so far. -/
structure Progress where
  text : Option String
  options : Options

namespace Progress

def start : Progress := ⟨none, ⟨none, [], false⟩⟩

/-- The text of the call, which is given once. -/
def withText (p : Progress) (s : String) : Option Progress :=
  if p.text.isSome then none else some { p with text := some s }

/-- The configuration file, which is given at most once. -/
def withConfig (p : Progress) (file : String) : Option Progress :=
  if p.options.config.isSome then none
  else some { p with options := { p.options with config := some file } }

/-- Logging, which is asked for at most once. -/
def withDebug (p : Progress) : Option Progress :=
  if p.options.debug then none else some { p with options := { p.options with debug := true } }

/-- The parts of a text before and behind the first equals sign. -/
def splitEquals? (s : List Char) : Option (List Char × List Char) :=
  match s.dropWhile (· ≠ '=') with
  | _ :: after => some (s.takeWhile (· ≠ '='), after)
  | [] => none

/-- A variable, as a key, an equals sign and a value. -/
def withVar (p : Progress) (s : String) : Option Progress := do
  let (key, value) ← splitEquals? s.toList
  let pair := (String.ofList key, String.ofList value)
  some { p with options := { p.options with vars := p.options.vars ++ [pair] } }

end Progress

/-- An option that takes a value. -/
inductive Valued where
  | config
  | var
deriving DecidableEq

def Valued.apply : Valued → Progress → String → Option Progress
  | config, p, s => p.withConfig s
  | var, p, s => p.withVar s

/-- What an argument in long form is: an option that lacks its value, or all of an option. -/
inductive Step where
  /-- The value comes with the next argument. -/
  | awaits (option : Valued) (p : Progress)
  /-- Nothing is missing. -/
  | done (p : Progress)

def longOption (p : Progress) (s : List Char) : Option Step :=
  match Progress.splitEquals? s with
  | some (name, value) =>
      if name = "config".toList then (p.withConfig (String.ofList value)).map .done
      else if name = "var".toList then (p.withVar (String.ofList value)).map .done
      else none
  | none =>
      if s = "config".toList then some (.awaits .config p)
      else if s = "var".toList then some (.awaits .var p)
      else if s = "debug".toList then p.withDebug.map .done
      else none

/-- Short options run together, without their dash. -/
def shortOptions (p : Progress) : List Char → Option Step
  | [] => some (.done p)
  | 'd' :: rest => do shortOptions (← p.withDebug) rest
  | ['c'] => some (.awaits .config p)
  | 'c' :: '=' :: value => (p.withConfig (String.ofList value)).map .done
  | 'c' :: value => (p.withConfig (String.ofList value)).map .done
  | _ => none

/-- An argument that looks like an option: it starts with a dash and is more than that. -/
def looksLikeOption : List Char → Bool
  | '-' :: _ :: _ => true
  | _ => false

/-- An option in either form, without its first dash. -/
def readOption (p : Progress) : List Char → Option Step
  | '-' :: more => longOption p more
  | s => shortOptions p s

/-- The arguments behind the name of a command that takes options. -/
def readOptions (p : Progress) : List String → Option Progress
  | [] => some p
  | arg :: rest =>
      match arg.toList with
      | ['-', '-'] => rest.foldlM Progress.withText p
      | '-' :: c :: more =>
          match readOption p (c :: more), rest with
          | none, _ => none
          | some (.done p), rest => readOptions p rest
          | some (.awaits _ _), [] => none
          | some (.awaits option p), value :: rest =>
              if looksLikeOption value.toList then none
              else do readOptions (← option.apply p value) rest
      | _ => do readOptions (← p.withText arg) rest

/-- The arguments behind the name of a command without options. -/
def readText (p : Progress) : List String → Option Progress
  | [] => some p
  | arg :: rest =>
      if arg = "--" then rest.foldlM Progress.withText p
      else if looksLikeOption arg.toList then none
      else do readText (← p.withText arg) rest

def readRequest : List String → Option Request
  | [] => none
  | command :: rest =>
      if command = "parse" then do
        let p ← readText .start rest
        return .parse (← p.text)
      else if command = "check" ∨ command = "eval" ∨ command = "legacy" then do
        let p ← readOptions .start rest
        let text ← p.text
        if command = "check" then return .check text p.options
        else if command = "eval" then return .eval text p.options
        else return .legacy text p.options
      else none

end WhenClause.CommandLine
