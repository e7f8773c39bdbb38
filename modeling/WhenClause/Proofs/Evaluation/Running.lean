import WhenClause.Proofs.Evaluation.Remembering
import WhenClause.Proofs.Evaluation.Steps
import WhenClause.Registry

set_option autoImplicit false

/-! # Evaluators at work

An evaluator keeps a memory, and its commands act on a world of any type `σ`, which stands for all
that they read and change. Here is what each step of an evaluator does to both. -/

namespace WhenClause

open Stateful

/-- The computations of an evaluator. -/
abbrev EvalM (σ α : Type) : Type := ExceptT Error (StateT Memory (StateM σ)) α

namespace EvalM

variable {σ α β : Type}

/-- What a computation gives in a memory and a world, and the memory and the world when it ends. -/
def runAt (x : EvalM σ α) (memory : Memory) (world : σ) : Except Error α × Memory × σ :=
  let ((outcome, memory), world) := (runIn x memory).run world
  (outcome, memory, world)

variable {memory : Memory} {world : σ}

@[simp] theorem runAt_pure (a : α) : runAt (pure a) memory world = (.ok a, memory, world) := rfl

@[simp] theorem runAt_throw (e : Error) :
    runAt (throw e : EvalM σ α) memory world = (.error e, memory, world) := rfl

theorem runAt_bind (x : EvalM σ α) (f : α → EvalM σ β) :
    runAt (x >>= f) memory world =
      match runAt x memory world with
      | (.ok a, memory', world') => runAt (f a) memory' world'
      | (.error e, memory', world') => (.error e, memory', world') := by
  unfold runAt
  rw [runIn_bind, StateT.run_bind]
  cases (runIn x memory).run world with
  | mk found world =>
      obtain ⟨outcome, memory⟩ := found
      cases outcome <;> rfl

theorem runAt_bind_ok {x : EvalM σ α} {a : α} {memory' : Memory} {world' : σ}
    (h : runAt x memory world = (.ok a, memory', world')) (f : α → EvalM σ β) :
    runAt (x >>= f) memory world = runAt (f a) memory' world' := by
  rw [runAt_bind, h]

theorem runAt_bind_error {x : EvalM σ α} {e : Error} {memory' : Memory} {world' : σ}
    (h : runAt x memory world = (.error e, memory', world')) (f : α → EvalM σ β) :
    runAt (x >>= f) memory world = (.error e, memory', world') := by
  rw [runAt_bind, h]

/-! ## Commands -/

section

variable (host : Host (StateM σ)) (verbose : Bool) {name : String} {args : List Value}

theorem runAt_hit {v : Value} (h : memory.cache.find? (CallKey.of name args) = some v) :
    runAt ((host.memoized verbose).invoke name args) memory world
      = (.ok v, memory.note .trace s!"Cache hit for {name}", world) := by
  unfold runAt
  rw [Host.memoized_hit host verbose h]
  rfl

/-- A call that is made and gives a result. -/
theorem runAt_success {v : Value} {world' : σ}
    (h : memory.cache.find? (CallKey.of name args) = none)
    (hinvoke : (host.invoke name args).run.run world = (.ok v, world')) :
    runAt ((host.memoized verbose).invoke name args) memory world
      = (.ok v, Host.remembering verbose memory name args v, world') := by
  unfold runAt
  rw [Host.memoized_miss host verbose h, StateT.run_bind, hinvoke]
  rfl

theorem runAt_failure {e : Error} {world' : σ}
    (h : memory.cache.find? (CallKey.of name args) = none)
    (hinvoke : (host.invoke name args).run.run world = (.error e, world')) :
    runAt ((host.memoized verbose).invoke name args) memory world
      = (.error e, memory, world') := by
  unfold runAt
  rw [Host.memoized_miss host verbose h, StateT.run_bind, hinvoke]
  rfl

end

/-! ## Members and methods -/

def found (kind : MemberKind) (key : String) (target : Value) : Option α → Except Error α
  | some a => .ok a
  | none => .error (Error.noMember kind key target)

theorem runAt_foundOr (kind : MemberKind) (key : String) (target : Value) (member : Option α) :
    runAt (Value.foundOr kind key target member) memory world
      = (found kind key target member, memory, world) := by
  cases member <;> rfl

section

variable (host : Host (StateM σ)) (verbose : Bool)

theorem runAt_member (target : Value) (key : String) :
    runAt (ExceptT.lift ((host.memoized verbose).member target key)) memory world =
      (.ok ((host.member target key).run world).1, memory, ((host.member target key).run world).2) :=
  rfl

theorem runAt_property (target : Value) (key : String) :
    runAt ((host.memoized verbose).steps.property target key) memory world =
      (found .property key target ((host.member target key).run world).1, memory,
        ((host.member target key).run world).2) :=
  (runAt_bind_ok (runAt_member host verbose target key) _).trans (runAt_foundOr _ _ _ _)

theorem runAt_method (target : Value) (name : String) :
    runAt ((host.memoized verbose).steps.method target name) memory world =
      (found .method name target (((host.member target name).run world).1.bind Value.callee?),
        memory, ((host.member target name).run world).2) :=
  (runAt_bind_ok (runAt_member host verbose target name) _).trans (runAt_foundOr _ _ _ _)

theorem runAt_call (name : String) (f : Callee) (args : List Value) :
    runAt ((host.memoized verbose).steps.call name f args) memory world =
      (((host.call f args).run.run world).1.mapError (Error.command name), memory,
        ((host.call f args).run.run world).2) := rfl

end

end EvalM

/-! ## Command tables -/

namespace Registry

variable {σ : Type} {registry : Registry (StateM σ)} {name : String}

theorem run_missing (h : registry.get? name = none) (args : List Value) (world : σ) :
    (registry.invoke name args).run.run world = (.error (.unknownCommand name), world) := by
  rw [invoke, h]
  rfl

theorem run_command {command : Command (StateM σ)} (h : registry.get? name = some command)
    (args : List Value) (world : σ) :
    (registry.invoke name args).run.run world =
      (((command.run args).run.run world).1.mapError (Error.command name),
        ((command.run args).run.run world).2) := by
  rw [invoke, h]
  rfl

end Registry

end WhenClause
