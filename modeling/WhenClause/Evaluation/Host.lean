import WhenClause.Error
import WhenClause.Value.Member

set_option autoImplicit false

/-! # Hosts

An evaluation asks its host for three things: to run a command, to look up a member of a value,
and to call a function. What a host does to answer is its own affair, which the monad `m` stands
for: a host may keep a state, or act on the world. -/

namespace WhenClause

/-- What an evaluation asks of its surroundings. -/
structure Host (m : Type → Type) where
  /-- Run the command of a name with arguments. -/
  invoke : String → List Value → ExceptT Error m Value
  member : Value → String → m (Option Value)
  /-- Call a function; a failure is told by its text. -/
  call : Callee → List Value → ExceptT String m Value

/-- How a host gives its functions and handles a life. -/
structure Objects (m : Type → Type) where
  /-- A serial number that no function and no handle has had so far. -/
  fresh : m Nat
  member : Handle → String → m (Option Value)
  /-- Call a function that belongs to no string and no array. -/
  call : Callee → List Value → ExceptT String m Value

namespace Objects

variable {m : Type → Type} [Monad m]

/-- The member of any value. Each look-up of a method of a string or an array makes a new
function. -/
def memberOf (objects : Objects m) (v : Value) (key : String) : m (Option Value) :=
  match v with
  | .handle h => objects.member h key
  | v =>
      match v.member? key with
      | some (.value x) => pure (some x)
      | some .method => do return some (.function (← objects.fresh) key v)
      | none => pure none

def callOf (objects : Objects m) (f : Callee) (args : List Value) : ExceptT String m Value :=
  match f.receiver.applyMethod? f.method args with
  | some result => ExceptT.mk (pure result)
  | none => objects.call f args

end Objects

end WhenClause
