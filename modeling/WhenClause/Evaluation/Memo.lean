import WhenClause.Evaluation.Host

set_option autoImplicit false

/-! # Remembered calls

An evaluator makes the same call only once: the result of a command is remembered under the name
of the command and the text of its arguments, and later calls under that key are answered from
memory. Failures are not remembered, and neither are the members and methods of results.

Remembering is a matter between the evaluation and its host. `Host.memoized` turns any host into
one that remembers, and the evaluation does not know the difference. -/

namespace WhenClause

/-! ## Log -/

/-- How much a log record matters. -/
inductive LogLevel where
  | info
  | debug
  | trace
deriving DecidableEq

def LogLevel.text : LogLevel → String
  | info => "info"
  | debug => "debug"
  | trace => "trace"

/-- A line of the log. -/
structure LogRecord where
  level : LogLevel
  message : String
deriving DecidableEq

/-- The log so far, the oldest record first. -/
abbrev Log : Type := List LogRecord

/-! ## Keys -/

/-- The key of a call: its name, and the text of its arguments between brackets. -/
structure CallKey where
  name : String
  /-- The arguments. They are kept with the key, so that no later object takes the identity of
  one of them. -/
  args : List Value
  text : List Char

namespace CallKey

def argumentText (args : List Value) : List Char := (Value.array args).canonical

def of (name : String) (args : List Value) : CallKey := ⟨name, args, argumentText args⟩

def same (k l : CallKey) : Bool := k.name == l.name && k.text == l.text

end CallKey

/-! ## Memory -/

/-- The results remembered, each under its key. -/
structure Cache where
  entries : List (CallKey × Value)

namespace Cache

def empty : Cache := ⟨[]⟩

def find? (c : Cache) (key : CallKey) : Option Value :=
  (c.entries.find? fun e => e.1.same key).map Prod.snd

/-- The entries with one more; an entry of the same key takes the new result. -/
def insertEntry (key : CallKey) (v : Value) : List (CallKey × Value) → List (CallKey × Value)
  | [] => [(key, v)]
  | (k, w) :: rest => if k.same key then (k, v) :: rest else (k, w) :: insertEntry key v rest

def insert (c : Cache) (key : CallKey) (v : Value) : Cache := ⟨insertEntry key v c.entries⟩

def size (c : Cache) : Nat := c.entries.length

end Cache

/-- What an evaluator keeps from one evaluation to the next. -/
structure Memory where
  cache : Cache
  log : Log

namespace Memory

def empty : Memory := ⟨.empty, []⟩

def note (memory : Memory) (level : LogLevel) (message : String) : Memory :=
  { memory with log := memory.log ++ [⟨level, message⟩] }

def remember (memory : Memory) (key : CallKey) (v : Value) : Memory :=
  { memory with cache := memory.cache.insert key v }

end Memory

/-- The line of the log for a call that was really made. -/
def callMessage (name : String) (args : List Value) (result : Value) : String :=
  let shown := String.intercalate ", " (args.map Value.text)
  s!"{name}({shown}) = {result.text}"

namespace Host

variable {m : Type → Type} [Monad m]

/-- A host that makes each call of a command at most once. If it is `verbose`, it logs each call
that was really made and succeeded. -/
def memoized (verbose : Bool) (host : Host m) : Host (StateT Memory m) where
  invoke name args := do
    let key := CallKey.of name args
    match (← get).cache.find? key with
    | some v => do
        modify fun memory => memory.note .trace s!"Cache hit for {name}"
        return v
    | none => do
        let v ← ExceptT.mk (StateT.lift (host.invoke name args).run)
        if verbose then modify fun memory => memory.note .info (callMessage name args v)
        modify fun memory => memory.remember key v
        return v
  member v key := StateT.lift (host.member v key)
  call f args := ExceptT.mk (StateT.lift (host.call f args).run)

end Host

end WhenClause
