import WhenClause.Condition.Check
import WhenClause.Proofs.Value.Quote

set_option autoImplicit false

/-! # Conditions as expressions

Every condition has an expression that says the same. Its groups become the operands of `or` and
their parts the operands of `and`; a call becomes an invocation with its arguments as literals; a
comparison becomes the operator it names, or an invocation of the command it names on a record.

A malformed part has no counterpart among expressions, since expressions fail only through what
they ask of the host. It becomes an invocation of a name that no other part uses, and the host is
asked to refuse that name with the error of the part (`Host.refusing`). -/

namespace WhenClause

namespace Condition

/-! ## Parts without parts -/

mutual

/-- The calls, the comparisons and the malformed parts of a condition, in their order. -/
def leaves : Condition → List Condition
  | .anyOf groups => groupLeaves groups
  | leaf => [leaf]

def groupLeaves : List (List Condition) → List Condition
  | [] => []
  | group :: rest => partLeaves group ++ groupLeaves rest

def partLeaves : List Condition → List Condition
  | [] => []
  | part :: rest => leaves part ++ partLeaves rest

end

/-- The names that a leaf may call. -/
def leafNames : Condition → List String
  | .call c => [c.name]
  | .comparison context operator _ => [context.name, operator.name]
  | _ => []

def fault? : Condition → Option Error
  | .fault e => some e
  | _ => none

/-- The names of a leaf are those of commands, but for an operator that compares. -/
def leafUnreserved : Condition → Bool
  | .call c => (Operator.ofName? c.name).isNone
  | .comparison context operator _ =>
      (Operator.ofName? context.name).isNone &&
        (Operator.ofName? operator.name).all fun op => !op.isLogical
  | _ => true

/-- No command, no context and no operator that is a command has the reserved name of an
operator. -/
def Unreserved (c : Condition) : Prop := ∀ leaf ∈ c.leaves, leaf.leafUnreserved = true

instance (c : Condition) : Decidable c.Unreserved :=
  inferInstanceAs (Decidable (∀ leaf ∈ c.leaves, leaf.leafUnreserved = true))

end Condition

/-! ## Refused names -/

/-- Errors, each with a name of its own that is longer than some names in use. -/
structure Refusals where
  errors : List Error
  /-- The length of the longest name in use. -/
  longest : Nat

namespace Refusals

def name (r : Refusals) (e : Error) : String :=
  String.ofList (List.replicate (r.longest + 1 + r.errors.idxOf e) '?')

def error? (r : Refusals) (name : String) : Option Error :=
  r.errors.find? fun e => r.name e == name

theorem error?_name {r : Refusals} {e : Error} (h : e ∈ r.errors) :
    r.error? (r.name e) = some e := by
  cases hfind : r.error? (r.name e) with
  | none =>
      have hnone := List.find?_eq_none.mp hfind e h
      simp at hnone
  | some e' =>
      have hmem := List.mem_of_find?_eq_some hfind
      have hname : r.name e' = r.name e := by simpa using List.find?_some hfind
      -- Names of different errors are of different lengths.
      have hlength := congrArg String.length hname
      simp only [name, String.length_ofList, List.length_replicate] at hlength
      have hidx : r.errors.idxOf e' = r.errors.idxOf e := by omega
      rw [(List.idxOf_inj hmem).mp hidx]

theorem error?_of_length {r : Refusals} {name : String} (h : name.length ≤ r.longest) :
    r.error? name = none := by
  refine List.find?_eq_none.mpr fun e _ => ?_
  intro heq
  have hname : r.name e = name := by simpa using heq
  rw [← hname] at h
  simp only [Refusals.name, String.length_ofList, List.length_replicate] at h
  omega

/-- The name of an error is reserved for no operator. -/
theorem ofName?_name (r : Refusals) (e : Error) : Operator.ofName? (r.name e) = none := by
  refine List.find?_eq_none.mpr fun op _ heq => ?_
  have hname : op.name = r.name e := by simpa using heq
  have hhead : op.name.toList.head? = some '?' := by
    rw [hname, name, String.toList_ofList, Nat.add_right_comm, List.replicate_succ]
    rfl
  -- No operator begins with a question mark.
  cases op <;> exact absurd hhead (by decide)

end Refusals

namespace Host

variable {m : Type → Type} [Monad m]

/-- A host that refuses names with their errors. -/
def refusing (r : Refusals) (host : Host m) : Host m where
  invoke name args :=
    match r.error? name with
    | some e => throw e
    | none => host.invoke name args
  member := host.member
  call := host.call

theorem refusing_invoke {r : Refusals} {name : String} (h : r.error? name = none) (host : Host m)
    (args : List Value) : (host.refusing r).invoke name args = host.invoke name args := by
  simp only [refusing, h]

theorem refusing_invoke_error {r : Refusals} {name : String} {e : Error}
    (h : r.error? name = some e) (host : Host m) (args : List Value) :
    (host.refusing r).invoke name args = throw e := by
  simp only [refusing, h]

end Host

/-! ## The expression of a condition -/

namespace Condition

/-- The expression of a comparison. The negation of the context does not count. -/
def comparisonExpression (context operator : Call) (right : Value) : Expression :=
  let left := Expression.call context.name (Value.quoteItems context.args)
  match comparisonOperator? operator.name with
  | some op => .invocation op.name [left, right.quote] operator.negated []
  | none =>
      let fields :=
        [("args", .sequence (Value.quoteItems operator.args)), ("left", left),
          ("right", right.quote)]
      .invocation operator.name [.record fields] operator.negated []

mutual

/-- The expression of a condition whose malformed parts are refused. -/
def toExpression (r : Refusals) : Condition → Expression
  | .anyOf groups => .operator .or (groupExpressions r groups)
  | .call c => .invocation c.name (Value.quoteItems c.args) c.negated []
  | .comparison context operator right => comparisonExpression context operator right
  | .fault e => .call (r.name e) []

def groupExpressions (r : Refusals) : List (List Condition) → List Expression
  | [] => []
  | group :: rest => .operator .and (partExpressions r group) :: groupExpressions r rest

def partExpressions (r : Refusals) : List Condition → List Expression
  | [] => []
  | part :: rest => toExpression r part :: partExpressions r rest

end

/-- The errors of the malformed parts, with names that the condition does not use. -/
def refusals (c : Condition) : Refusals where
  errors := c.leaves.filterMap fault?
  longest := ((c.leaves.flatMap leafNames).map String.length).foldr max 0

def translation (c : Condition) : Expression := c.toExpression c.refusals

end Condition

end WhenClause
