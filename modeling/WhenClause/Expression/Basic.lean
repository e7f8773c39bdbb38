import WhenClause.Number.Basic

set_option autoImplicit false

/-! # Expressions

An expression is a literal, a sequence, a record, an invocation of a command, or the negation of
an expression. An invocation names its command, gives it arguments, may be negated, and may be
followed by a chain of members of its result. The operators are invocations too: their names are
reserved and never reach a command. -/

namespace WhenClause

/-! ## Operators -/

/-- The built-in operators. -/
inductive Operator where
  | and
  | or
  | equal
  | notEqual
  | less
  | lessEqual
  | greater
  | greaterEqual
deriving DecidableEq

namespace Operator

def name : Operator → String
  | and => "and"
  | or => "or"
  | equal => "=="
  | notEqual => "!="
  | less => "<"
  | lessEqual => "<="
  | greater => ">"
  | greaterEqual => ">="

def all : List Operator :=
  [and, or, equal, notEqual, less, lessEqual, greater, greaterEqual]

def ofName? (name : String) : Option Operator := all.find? fun op => op.name == name

/-- `and` and `or` take any number of operands, the comparisons exactly two. -/
def isLogical : Operator → Bool
  | and | or => true
  | _ => false

/-- A name is reserved for the operator whose name it is, and for no other. -/
theorem ofName?_name (op : Operator) : ofName? op.name = some op := by
  cases op <;> decide +kernel

end Operator

/-! ## Expressions -/

/-- A literal. -/
inductive Literal where
  | null
  | bool (b : Bool)
  | number (x : Number)
  | string (s : String)
deriving DecidableEq

mutual

/-- An expression. -/
inductive Expression where
  | literal (value : Literal)
  /-- The array of the values of its items. -/
  | sequence (items : List Expression)
  /-- The record of the values of its entries; of several entries of one key the last counts. -/
  | record (entries : List (String × Expression))
  /-- A call of a command or an operator. -/
  | invocation (name : String) (args : List Expression) (negated : Bool) (chain : List Step)
  /-- The negation of an expression that carries none itself. -/
  | not (inner : Expression)

/-- A step from a value to one of its members. -/
inductive Step where
  | property (key : String)
  /-- The result of the member, called with arguments. -/
  | method (name : String) (args : List Expression)

end

instance : Inhabited Expression := ⟨.literal .null⟩

instance : Inhabited Step := ⟨.property ""⟩

namespace Expression

/-- A call without negation and chain. -/
def call (name : String) (args : List Expression) : Expression := .invocation name args false []

def operator (op : Operator) (operands : List Expression) : Expression := call op.name operands

/-- The operator of an invocation of one. -/
def operator? : Expression → Option Operator
  | .invocation name _ _ _ => Operator.ofName? name
  | _ => none

/-- The negation of an expression. An invocation that is not negated takes the negation on
itself, and every other expression is wrapped. -/
def negate : Expression → Expression
  | .invocation name args false chain => .invocation name args true chain
  | e => .not e

/-- One operand of a logical operator stands for itself; more make an invocation. -/
def combine (op : Operator) (first : Expression) : List Expression → Expression
  | [] => first
  | more => operator op (first :: more)

end Expression

end WhenClause
