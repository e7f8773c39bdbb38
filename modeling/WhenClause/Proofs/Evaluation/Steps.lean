import WhenClause.Proofs.Evaluation.Equations

set_option autoImplicit false

/-! # The steps of an evaluation

An evaluation takes steps of four kinds: it runs a command, looks up a property, looks up a
method, and calls a method. Each of them may fail, and apart from its steps an evaluation fails
only at a node that no steps can help. `Expression.evalWith` is the evaluation over any such
steps, and over the steps of a host it is the evaluation for that host
(`Expression.eval_eq_evalWith`). So what is said of evaluations over steps is said of evaluations
for hosts, and steps may be related, or written down, one kind at a time. -/

namespace WhenClause

/-- What an evaluation does, one thing at a time. -/
structure Steps (m : Type → Type) where
  invoke : String → List Value → ExceptT Error m Value
  property : Value → String → ExceptT Error m Value
  method : Value → String → ExceptT Error m Callee
  call : String → Callee → List Value → ExceptT Error m Value

section

variable {m : Type → Type} [Monad m]

/-- A member that was looked for, or the error that there is none. -/
def Value.foundOr {α : Type} (kind : MemberKind) (key : String) (target : Value) :
    Option α → ExceptT Error m α
  | some found => pure found
  | none => throw (Error.noMember kind key target)

theorem Value.foundOr_bind [LawfulMonad m] {α β : Type} (kind : MemberKind) (key : String)
    (target : Value) (found : Option α) (f : α → ExceptT Error m β) :
    foundOr kind key target found >>= f =
      match found with
      | some a => f a
      | none => throw (Error.noMember kind key target) := by
  cases found with
  | some a => exact pure_bind a f
  | none => exact ExceptT.ext (pure_bind _ _)

def Host.steps (host : Host m) : Steps m where
  invoke := host.invoke
  property target key :=
    ExceptT.lift (host.member target key) >>= Value.foundOr .property key target
  method target name :=
    ExceptT.lift (host.member target name) >>= fun found =>
      Value.foundOr .method name target (found.bind Value.callee?)
  call name f args := Expression.callMethod host f name args

end

namespace Expression

variable {m : Type → Type} [Monad m]

/-! ## Evaluation over steps -/

mutual

def evalWith (steps : Steps m) : Expression → ExceptT Error m Value
  | .literal l => pure l.value
  | .sequence items => do return .array (← itemsWith steps items)
  | .record entries => do return .record (← entriesWith steps [] entries)
  | .invocation name args negated chain => do
      let result ←
        match Operator.ofName? name with
        | some op =>
            if chain.isEmpty then operatorWith steps op args else throw (Error.operatorChain op)
        | none => do
            let values ← itemsWith steps args
            let first ← steps.invoke name values
            chainWith steps first chain
      return result.negateIf negated
  | .not inner => do return .bool !(← evalWith steps inner).truthy

def itemsWith (steps : Steps m) : List Expression → ExceptT Error m (List Value)
  | [] => pure []
  | e :: rest => do
      let v ← evalWith steps e
      return v :: (← itemsWith steps rest)

/-- The fields of the entries of a record, put into the fields found so far. -/
def entriesWith (steps : Steps m) (fields : List (String × Value)) :
    List (String × Expression) → ExceptT Error m (List (String × Value))
  | [] => pure fields
  | (key, e) :: rest => do
      let v ← evalWith steps e
      entriesWith steps (Dictionary.insert key v fields) rest

def operatorWith (steps : Steps m) (op : Operator) (operands : List Expression) :
    ExceptT Error m Value :=
  match op with
  | .and => do return .bool (← allWith steps operands)
  | .or => do return .bool (← anyWith steps operands)
  | op =>
      match operands with
      | [left, right] => do
          let a ← evalWith steps left
          let b ← evalWith steps right
          return .bool (op.holds a b)
      | _ => throw (.arity op.name operands.length)

def allWith (steps : Steps m) : List Expression → ExceptT Error m Bool
  | [] => pure true
  | e :: rest => do
      let v ← evalWith steps e
      if v.truthy then allWith steps rest else return false

def anyWith (steps : Steps m) : List Expression → ExceptT Error m Bool
  | [] => pure false
  | e :: rest => do
      let v ← evalWith steps e
      if v.truthy then return true else anyWith steps rest

def chainWith (steps : Steps m) (target : Value) : List Step → ExceptT Error m Value
  | [] => pure target
  | .property key :: rest => do
      let v ← steps.property target key
      chainWith steps v rest
  | .method name args :: rest => do
      let f ← steps.method target name
      let values ← itemsWith steps args
      let v ← steps.call name f values
      chainWith steps v rest

end

/-! ## The steps of a host -/

section

variable (steps : Steps m)

theorem evalWith_command {name : String} (h : Operator.ofName? name = none)
    (args : List Expression) (negated : Bool) (chain : List Step) :
    evalWith steps (.invocation name args negated chain) = do
      let values ← itemsWith steps args
      let first ← steps.invoke name values
      let result ← chainWith steps first chain
      return result.negateIf negated := by
  rw [evalWith]
  simp only [h]

theorem evalWith_operator {name : String} {op : Operator} (h : Operator.ofName? name = some op)
    (args : List Expression) (negated : Bool) :
    evalWith steps (.invocation name args negated []) = do
      let result ← operatorWith steps op args
      return result.negateIf negated := by
  rw [evalWith]
  simp only [h]
  rfl

/-- An invocation of an operator with a chain behind it. -/
theorem evalWith_operatorChain {name : String} {op : Operator}
    (h : Operator.ofName? name = some op) (args : List Expression) (negated : Bool) (step : Step)
    (chain : List Step) :
    evalWith steps (.invocation name args negated (step :: chain)) = do
      let result ← (throw (Error.operatorChain op) : ExceptT Error m Value)
      return result.negateIf negated := by
  rw [evalWith]
  simp only [h]
  rfl

theorem operatorWith_and (operands : List Expression) :
    operatorWith steps .and operands = do return .bool (← allWith steps operands) := by
  rw [operatorWith]

theorem operatorWith_or (operands : List Expression) :
    operatorWith steps .or operands = do return .bool (← anyWith steps operands) := by
  rw [operatorWith]

theorem operatorWith_comparison {op : Operator} (h : op.isLogical = false)
    (left right : Expression) :
    operatorWith steps op [left, right] = do
      let a ← evalWith steps left
      let b ← evalWith steps right
      return .bool (op.holds a b) := by
  cases op with
  | and => cases h
  | or => cases h
  | _ => rw [operatorWith] <;> simp

theorem operatorWith_arity {op : Operator} (h : op.isLogical = false)
    {operands : List Expression} (hlength : operands.length ≠ 2) :
    operatorWith steps op operands = throw (.arity op.name operands.length) := by
  match operands with
  | [_, _] => exact absurd rfl hlength
  | [] | [_] | _ :: _ :: _ :: _ =>
      cases op with
      | and => cases h
      | or => cases h
      | _ => rw [operatorWith] <;> simp

end

section

variable [LawfulMonad m] (host : Host m)

-- Only the case of chains uses the laws of the monad, and all cases are proved together.
set_option linter.unusedSectionVars false in
mutual

/-- **The evaluation for a host is the evaluation over its steps.** -/
theorem eval_eq_evalWith (e : Expression) : eval host e = evalWith host.steps e := by
  cases e with
  | literal l => rw [eval_literal, evalWith]
  | sequence items => rw [eval_sequence, evalWith, evalItems_eq]
  | record entries => rw [eval_record, evalWith, evalEntries_eq]
  | invocation name args negated chain =>
      cases hname : Operator.ofName? name with
      | none =>
          rw [eval_command host hname, evalWith_command _ hname, evalItems_eq args]
          refine bind_congr fun values => bind_congr fun first => ?_
          rw [evalChain_eq first chain]
      | some op =>
          cases chain with
          | nil => rw [eval_operator host hname, evalWith_operator _ hname, evalOperator_eq op args]
          | cons step rest =>
              rw [eval_operatorChain host hname, evalWith_operatorChain _ hname]
  | not inner => rw [eval_not, evalWith, eval_eq_evalWith inner]

theorem evalItems_eq (items : List Expression) :
    evalItems host items = itemsWith host.steps items := by
  cases items with
  | nil => rw [evalItems_nil, itemsWith]
  | cons e rest => rw [evalItems_cons, itemsWith, eval_eq_evalWith e, evalItems_eq rest]

theorem evalEntries_eq (fields : List (String × Value)) (entries : List (String × Expression)) :
    evalEntries host fields entries = entriesWith host.steps fields entries := by
  match entries with
  | [] => rw [evalEntries_nil, entriesWith]
  | (key, e) :: rest =>
      rw [evalEntries_cons, entriesWith, eval_eq_evalWith e]
      exact bind_congr fun v => evalEntries_eq _ rest

theorem evalOperator_eq (op : Operator) (operands : List Expression) :
    evalOperator host op operands = operatorWith host.steps op operands := by
  by_cases hand : op = .and
  · rw [hand, evalOperator_and, operatorWith_and, evalAll_eq operands]
  by_cases hor : op = .or
  · rw [hor, evalOperator_or, operatorWith_or, evalAny_eq operands]
  have hop : op.isLogical = false := by cases op <;> first | rfl | contradiction
  match operands with
  | [left, right] =>
      rw [evalOperator_comparison host hop, operatorWith_comparison _ hop, eval_eq_evalWith left,
        eval_eq_evalWith right]
  | [] | [_] | _ :: _ :: _ :: _ =>
      rw [evalOperator_arity host hop (by simp), operatorWith_arity _ hop (by simp)]

theorem evalAll_eq (operands : List Expression) :
    evalAll host operands = allWith host.steps operands := by
  cases operands with
  | nil => rw [evalAll_nil, allWith]
  | cons e rest => rw [evalAll_cons, allWith, eval_eq_evalWith e, evalAll_eq rest]

theorem evalAny_eq (operands : List Expression) :
    evalAny host operands = anyWith host.steps operands := by
  cases operands with
  | nil => rw [evalAny_nil, anyWith]
  | cons e rest => rw [evalAny_cons, anyWith, eval_eq_evalWith e, evalAny_eq rest]

theorem evalChain_eq (target : Value) (chain : List Step) :
    evalChain host target chain = chainWith host.steps target chain := by
  match chain with
  | [] => rw [evalChain_nil, chainWith]
  | .property key :: rest =>
      rw [evalChain_property, chainWith]
      show _ = (ExceptT.lift (host.member target key) >>= Value.foundOr .property key target) >>=
        fun v => chainWith host.steps v rest
      rw [bind_assoc]
      refine bind_congr fun found => ?_
      rw [Value.foundOr_bind]
      cases found with
      | none => rfl
      | some v => exact evalChain_eq v rest
  | .method name args :: rest =>
      rw [evalChain_method, chainWith]
      show _ = (ExceptT.lift (host.member target name) >>= fun found =>
        Value.foundOr .method name target (found.bind Value.callee?)) >>= _
      rw [bind_assoc]
      refine bind_congr fun found => ?_
      rw [Value.foundOr_bind]
      cases found.bind Value.callee? with
      | none => rfl
      | some f =>
          show (evalItems host args >>= _) = itemsWith host.steps args >>= _
          rw [evalItems_eq args]
          exact bind_congr fun values => bind_congr fun v => evalChain_eq v rest

end

end

end Expression

end WhenClause
