import WhenClause.Condition.Basic
import WhenClause.Evaluation.Eval

set_option autoImplicit false

/-! # Checking conditions

The truth value of a condition, for a host. Groups and the parts of a group are taken in their
order; a part that fails ends its group, a group that holds ends the check, and the first error
ends everything. -/

namespace WhenClause.Condition

variable {m : Type → Type} [Monad m]

/-- The record that a command is given when it serves as the operator of a comparison. -/
def comparisonRecord (args : List Value) (left right : Value) : Value :=
  Value.recordOf [("args", .array args), ("left", left), ("right", right)]

def comparisonOperator? (name : String) : Option Operator :=
  (Operator.ofName? name).filter fun op => !op.isLogical

/-- The outcome of a comparison. The negation of the context does not count. -/
def checkComparison (host : Host m) (context operator : Call) (right : Value) :
    ExceptT Error m Bool := do
  let left ← host.invoke context.name context.args
  let outcome ←
    match comparisonOperator? operator.name with
    | some op => pure (op.holds left right)
    | none => do
        let v ← host.invoke operator.name [comparisonRecord operator.args left right]
        pure v.truthy
  return outcome != operator.negated

mutual

def check (host : Host m) : Condition → ExceptT Error m Bool
  | .anyOf groups => checkAny host groups
  | .call c => do
      let v ← host.invoke c.name c.args
      return v.truthy != c.negated
  | .comparison context operator right => checkComparison host context operator right
  | .fault e => throw e

/-- Some group holds. -/
def checkAny (host : Host m) : List (List Condition) → ExceptT Error m Bool
  | [] => pure false
  | group :: rest => do
      if ← checkAll host group then return true else checkAny host rest

/-- Every part of a group holds. -/
def checkAll (host : Host m) : List Condition → ExceptT Error m Bool
  | [] => pure true
  | part :: rest => do
      if ← check host part then checkAll host rest else return false

end

end WhenClause.Condition
