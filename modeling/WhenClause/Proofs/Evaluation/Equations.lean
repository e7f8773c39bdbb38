import WhenClause.Predicate

set_option autoImplicit false

/-! # What an evaluation does, form by form

One equation for each form of expression, so that proofs about evaluations do not open the
evaluator. An invocation has three: it names a command, it names an operator, or it names an
operator with a chain behind it. -/

namespace WhenClause.Expression

variable {m : Type → Type} [Monad m] (host : Host m)

@[simp] theorem eval_literal (l : Literal) : eval host (.literal l) = pure l.value := by
  rw [eval]

theorem eval_sequence (items : List Expression) :
    eval host (.sequence items) = do return .array (← evalItems host items) := by
  rw [eval]

theorem eval_record (entries : List (String × Expression)) :
    eval host (.record entries) = do return .record (← evalEntries host [] entries) := by
  rw [eval]

theorem eval_not (inner : Expression) :
    eval host (.not inner) = do return .bool !(← eval host inner).truthy := by
  rw [eval]

theorem eval_command {name : String} (h : Operator.ofName? name = none) (args : List Expression)
    (negated : Bool) (chain : List Step) :
    eval host (.invocation name args negated chain) = do
      let values ← evalItems host args
      let first ← host.invoke name values
      let result ← evalChain host first chain
      return result.negateIf negated := by
  rw [eval]
  simp only [h]

theorem eval_operator {name : String} {op : Operator} (h : Operator.ofName? name = some op)
    (args : List Expression) (negated : Bool) :
    eval host (.invocation name args negated []) = do
      let result ← evalOperator host op args
      return result.negateIf negated := by
  rw [eval]
  simp only [h]
  rfl

/-- An invocation of an operator with a chain behind it. -/
theorem eval_operatorChain {name : String} {op : Operator} (h : Operator.ofName? name = some op)
    (args : List Expression) (negated : Bool) (step : Step) (chain : List Step) :
    eval host (.invocation name args negated (step :: chain)) = do
      let result ← (throw (Error.operatorChain op) : ExceptT Error m Value)
      return result.negateIf negated := by
  rw [eval]
  simp only [h]
  rfl

@[simp] theorem evalItems_nil : evalItems host [] = pure [] := by
  rw [evalItems]

theorem evalItems_cons (e : Expression) (rest : List Expression) :
    evalItems host (e :: rest) = do
      let v ← eval host e
      return v :: (← evalItems host rest) := by
  rw [evalItems]

@[simp] theorem evalEntries_nil (fields : List (String × Value)) :
    evalEntries host fields [] = pure fields := by
  rw [evalEntries]

theorem evalEntries_cons (fields : List (String × Value)) (key : String) (e : Expression)
    (rest : List (String × Expression)) :
    evalEntries host fields ((key, e) :: rest) =
      eval host e >>= fun v => evalEntries host (Dictionary.insert key v fields) rest := by
  rw [evalEntries]

theorem evalOperator_and (operands : List Expression) :
    evalOperator host .and operands = do return .bool (← evalAll host operands) := by
  rw [evalOperator]

theorem evalOperator_or (operands : List Expression) :
    evalOperator host .or operands = do return .bool (← evalAny host operands) := by
  rw [evalOperator]

theorem evalOperator_comparison {op : Operator} (h : op.isLogical = false)
    (left right : Expression) :
    evalOperator host op [left, right] = do
      let a ← eval host left
      let b ← eval host right
      return .bool (op.holds a b) := by
  cases op <;> first | exact absurd h (by decide) | (rw [evalOperator] <;> simp)

/-- A comparison of any other number of operands. -/
theorem evalOperator_arity {op : Operator} (h : op.isLogical = false) {operands : List Expression}
    (hlen : operands.length ≠ 2) :
    evalOperator host op operands = throw (.arity op.name operands.length) := by
  match operands with
  | [] | [_] | _ :: _ :: _ :: _ =>
      cases op <;> first | exact absurd h (by decide) | (rw [evalOperator] <;> simp)
  | [_, _] => exact absurd rfl hlen

@[simp] theorem evalAll_nil : evalAll host [] = pure true := by
  rw [evalAll]

theorem evalAll_cons (e : Expression) (rest : List Expression) :
    evalAll host (e :: rest) =
      eval host e >>= fun v => if v.truthy then evalAll host rest else pure false := by
  rw [evalAll]

@[simp] theorem evalAny_nil : evalAny host [] = pure false := by
  rw [evalAny]

theorem evalAny_cons (e : Expression) (rest : List Expression) :
    evalAny host (e :: rest) =
      eval host e >>= fun v => if v.truthy then pure true else evalAny host rest := by
  rw [evalAny]

@[simp] theorem evalChain_nil (target : Value) : evalChain host target [] = pure target := by
  rw [evalChain]

theorem evalChain_property (target : Value) (key : String) (rest : List Step) :
    evalChain host target (.property key :: rest) =
      ExceptT.lift (host.member target key) >>= fun found =>
        match found with
        | some v => evalChain host v rest
        | none => throw (Error.noMember .property key target) := by
  rw [evalChain]
  rfl

theorem evalChain_method (target : Value) (name : String) (args : List Expression)
    (rest : List Step) :
    evalChain host target (.method name args :: rest) =
      ExceptT.lift (host.member target name) >>= fun found =>
        match found.bind Value.callee? with
        | some f =>
            evalItems host args >>= fun values =>
              callMethod host f name values >>= fun v => evalChain host v rest
        | none => throw (Error.noMember .method name target) := by
  rw [evalChain]
  rfl

end WhenClause.Expression

namespace WhenClause

variable {m : Type → Type} [Monad m] [LawfulMonad m] (host : Host m)

/-- The check of a text that is read is the check of its expression. -/
theorem checkText_of_parse {t : String} {e : Expression} (h : Expression.parse t = .ok e) :
    checkText host t = e.check host := by
  rw [checkText, h]
  exact pure_bind (m := ExceptT Error m) e fun e => e.check host

/-- The check of a text that is not read fails with the error of the reader. -/
theorem checkText_of_error {t : String} {e : Error} (h : Expression.parse t = .error e) :
    checkText host t = throw e := by
  rw [checkText, h]
  exact ExceptT.ext (pure_bind _ _)

end WhenClause
