import WhenClause.Evaluation.Eval

set_option autoImplicit false

/-! # The nodes of an expression

Some nodes have a fault that no host can help: an operator with a chain behind it, and a
comparison of other than two operands. All others are regular. -/

namespace WhenClause

namespace Expression

mutual

/-- The nodes of an expression, itself first. -/
def nodes : Expression → List Expression
  | .literal l => [.literal l]
  | .sequence items => .sequence items :: nodesOfItems items
  | .record entries => .record entries :: nodesOfEntries entries
  | .invocation name args negated chain =>
      .invocation name args negated chain :: (nodesOfItems args ++ nodesOfChain chain)
  | .not inner => .not inner :: nodes inner

def nodesOfItems : List Expression → List Expression
  | [] => []
  | e :: rest => nodes e ++ nodesOfItems rest

def nodesOfEntries : List (String × Expression) → List Expression
  | [] => []
  | (_, e) :: rest => nodes e ++ nodesOfEntries rest

/-- The nodes of the arguments of the methods in a chain. -/
def nodesOfChain : List Step → List Expression
  | [] => []
  | .property _ :: rest => nodesOfChain rest
  | .method _ args :: rest => nodesOfItems args ++ nodesOfChain rest

end

/-- An operator has no chain behind it, and a comparison has two operands. -/
def Regular : Expression → Prop
  | .invocation name args _ chain =>
      ∀ op : Operator, op.name = name → chain = [] ∧ (op.isLogical = false → args.length = 2)
  | _ => True

def fault? : Expression → Option Error
  | .invocation name args _ chain =>
      (Operator.ofName? name).bind fun op =>
        if chain.isEmpty then
          if op.isLogical || args.length == 2 then none else some (.arity op.name args.length)
        else some (Error.operatorChain op)
  | _ => none

end Expression

/-- The error is about an expression, or a text, and no host could have avoided it. -/
def Error.isStructural : Error → Bool
  | .malformed _ _ _ | .arity _ _ | .argumentParse _ _ | .argumentJson _ | .invalidExpression _ =>
      true
  | _ => false

theorem Operator.ofName?_eq_some_iff {name : String} {op : Operator} :
    ofName? name = some op ↔ op.name = name := by
  constructor
  · intro h
    simpa using List.find?_some h
  · rintro rfl
    exact ofName?_name op

namespace Expression

theorem Regular.fault?_eq_none {e : Expression} (h : e.Regular) : e.fault? = none := by
  cases e with
  | invocation name args negated chain =>
      cases hname : Operator.ofName? name with
      | none => simp [fault?, hname]
      | some op =>
          obtain ⟨rfl, hlength⟩ := h op (Operator.ofName?_eq_some_iff.mp hname)
          cases hop : op.isLogical with
          | true => simp [fault?, hname, hop]
          | false => simp [fault?, hname, hlength hop]
  | _ => rfl

end Expression

end WhenClause
