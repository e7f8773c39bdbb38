import WhenClause.Evaluation.Host
import WhenClause.Expression.Basic

set_option autoImplicit false

/-! # Evaluation

The value of an expression, for a host. Everything is evaluated from left to right: arguments
before their command, a command before the arguments of the methods in its chain, operands in
their order. The logical operators stop at the first operand that decides them, and the first
error ends the evaluation. -/

namespace WhenClause

def Literal.value : Literal → Value
  | .null => .null
  | .bool b => .bool b
  | .number x => .number x
  | .string s => .string s

def Operator.holds (op : Operator) (left right : Value) : Bool :=
  match op with
  | .equal => left.deepEq right
  | .notEqual => !left.deepEq right
  | .less => left.compare right == some .lt
  | .lessEqual => left.compare right == some .lt || left.compare right == some .eq
  | .greater => left.compare right == some .gt
  | .greaterEqual => left.compare right == some .gt || left.compare right == some .eq
  | .and => left.truthy && right.truthy
  | .or => left.truthy || right.truthy

/-- The value, or its negation as a boolean. -/
def Value.negateIf (negated : Bool) (v : Value) : Value := if negated then .bool !v.truthy else v

def Error.operatorChain (op : Operator) : Error :=
  .invalidExpression s!"operator '{op.name}' cannot be followed by a chain"

/-- The error for a member that a value does not have. -/
def Error.noMember (kind : MemberKind) (key : String) (target : Value) : Error :=
  .unknownMember kind key target.text

namespace Expression

variable {m : Type → Type} [Monad m]

/-- The outcome of a function call, a failure reported under the name of the method. -/
def callMethod (host : Host m) (f : Callee) (name : String) (args : List Value) :
    ExceptT Error m Value :=
  ExceptT.adapt (Error.command name) (host.call f args)

mutual

def eval (host : Host m) : Expression → ExceptT Error m Value
  | .literal l => pure l.value
  | .sequence items => do return .array (← evalItems host items)
  | .record entries => do return .record (← evalEntries host [] entries)
  | .invocation name args negated chain => do
      let result ←
        match Operator.ofName? name with
        | some op =>
            if chain.isEmpty then evalOperator host op args else throw (Error.operatorChain op)
        | none => do
            let values ← evalItems host args
            let first ← host.invoke name values
            evalChain host first chain
      return result.negateIf negated
  | .not inner => do return .bool !(← eval host inner).truthy

def evalItems (host : Host m) : List Expression → ExceptT Error m (List Value)
  | [] => pure []
  | e :: rest => do
      let v ← eval host e
      return v :: (← evalItems host rest)

/-- The fields of the entries of a record, put into the fields found so far. -/
def evalEntries (host : Host m) (fields : List (String × Value)) :
    List (String × Expression) → ExceptT Error m (List (String × Value))
  | [] => pure fields
  | (key, e) :: rest => do
      let v ← eval host e
      evalEntries host (Dictionary.insert key v fields) rest

def evalOperator (host : Host m) (op : Operator) (operands : List Expression) :
    ExceptT Error m Value :=
  match op with
  | .and => do return .bool (← evalAll host operands)
  | .or => do return .bool (← evalAny host operands)
  | op =>
      match operands with
      | [left, right] => do
          let a ← eval host left
          let b ← eval host right
          return .bool (op.holds a b)
      | _ => throw (.arity op.name operands.length)

/-- Every operand is truthy; none is evaluated after one that is not. -/
def evalAll (host : Host m) : List Expression → ExceptT Error m Bool
  | [] => pure true
  | e :: rest => do
      let v ← eval host e
      if v.truthy then evalAll host rest else return false

/-- Some operand is truthy; none is evaluated after one that is. -/
def evalAny (host : Host m) : List Expression → ExceptT Error m Bool
  | [] => pure false
  | e :: rest => do
      let v ← eval host e
      if v.truthy then return true else evalAny host rest

/-- The value at the end of a chain that starts from a value. A method is looked up before its
arguments are evaluated. -/
def evalChain (host : Host m) (target : Value) : List Step → ExceptT Error m Value
  | [] => pure target
  | .property key :: rest => do
      match ← (host.member target key : m (Option Value)) with
      | some v => evalChain host v rest
      | none => throw (Error.noMember .property key target)
  | .method name args :: rest => do
      match (← (host.member target name : m (Option Value))).bind Value.callee? with
      | some f => do
          let values ← evalItems host args
          let v ← callMethod host f name values
          evalChain host v rest
      | none => throw (Error.noMember .method name target)

end

def check (host : Host m) (e : Expression) : ExceptT Error m Bool := do
  return (← eval host e).truthy

end Expression

end WhenClause
