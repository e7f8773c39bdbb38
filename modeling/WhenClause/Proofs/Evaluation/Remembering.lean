import WhenClause.Evaluation.Memo

set_option autoImplicit false

/-! # What a remembering host does

A call is either answered from memory or made, and then a result is remembered and a failure is
not (`Host.memoized_hit`, `Host.memoized_miss`). -/

namespace WhenClause

/-! ## Computations that keep a state and may fail -/

namespace Stateful

variable {m : Type → Type} [Monad m] {τ ε α β : Type}

def runIn (x : ExceptT ε (StateT τ m) α) (s : τ) : m (Except ε α × τ) := (x.run).run s

@[simp] theorem runIn_pure (a : α) (s : τ) :
    runIn (pure a : ExceptT ε (StateT τ m) α) s = pure (.ok a, s) := rfl

@[simp] theorem runIn_throw (e : ε) (s : τ) :
    runIn (throw e : ExceptT ε (StateT τ m) α) s = pure (.error e, s) := rfl

theorem runIn_bind (x : ExceptT ε (StateT τ m) α) (f : α → ExceptT ε (StateT τ m) β) (s : τ) :
    runIn (x >>= f) s = runIn x s >>= fun r =>
      match r with
      | (.ok a, t) => runIn (f a) t
      | (.error e, t) => pure (.error e, t) := by
  unfold runIn
  rw [ExceptT.run_bind, StateT.run_bind]
  refine bind_congr fun r => ?_
  obtain ⟨outcome, t⟩ := r
  cases outcome <;> rfl

variable [LawfulMonad m]

theorem runIn_map (f : α → β) (x : ExceptT ε (StateT τ m) α) (s : τ) :
    runIn (f <$> x) s = (fun done => (done.1.map f, done.2)) <$> runIn x s := by
  rw [← bind_pure_comp, runIn_bind, ← bind_pure_comp]
  refine bind_congr fun done => ?_
  rcases done with ⟨outcome, t⟩
  cases outcome <;> rfl

@[simp] theorem runIn_get (s : τ) :
    runIn (get : ExceptT ε (StateT τ m) τ) s = pure (.ok s, s) := by
  show (Except.ok <$> (get : StateT τ m τ)).run s = _
  simp

@[simp] theorem runIn_modify (f : τ → τ) (s : τ) :
    runIn (modify f : ExceptT ε (StateT τ m) PUnit) s = pure (.ok ⟨⟩, f s) := by
  show (Except.ok <$> (modify f : StateT τ m PUnit)).run s = _
  simp

@[simp] theorem runIn_lift (x : ExceptT ε m α) (s : τ) :
    runIn (ExceptT.mk (StateT.lift x.run)) s = (fun outcome => (outcome, s)) <$> x.run :=
  bind_pure_comp _ _

end Stateful

open Stateful

namespace Host

variable {m : Type → Type} [Monad m] [LawfulMonad m]

/-- The memory after a call that was made and gave a result. -/
def remembering (verbose : Bool) (memory : Memory) (name : String) (args : List Value)
    (v : Value) : Memory :=
  let noted := if verbose then memory.note .info (callMessage name args v) else memory
  noted.remember (CallKey.of name args) v

@[simp] theorem remembering_cache (verbose : Bool) (memory : Memory) (name : String)
    (args : List Value) (v : Value) :
    (remembering verbose memory name args v).cache
      = memory.cache.insert (CallKey.of name args) v := by
  cases verbose <;> rfl

theorem memoized_hit (host : Host m) (verbose : Bool) {name : String} {args : List Value}
    {memory : Memory} {v : Value} (h : memory.cache.find? (CallKey.of name args) = some v) :
    runIn ((host.memoized verbose).invoke name args) memory
      = pure (.ok v, memory.note .trace s!"Cache hit for {name}") := by
  simp only [memoized, runIn_bind, runIn_get, pure_bind, h, runIn_modify, runIn_pure]

theorem memoized_miss (host : Host m) (verbose : Bool) {name : String} {args : List Value}
    {memory : Memory} (h : memory.cache.find? (CallKey.of name args) = none) :
    runIn ((host.memoized verbose).invoke name args) memory =
      (host.invoke name args).run >>= fun outcome =>
        match outcome with
        | .ok v => pure (.ok v, remembering verbose memory name args v)
        | .error e => pure (.error e, memory) := by
  simp only [memoized, runIn_bind, runIn_get, pure_bind, h, runIn_lift, bind_map_left]
  refine bind_congr fun outcome => ?_
  cases outcome with
  | error e => rfl
  | ok v =>
      cases verbose <;>
        simp only [remembering, if_true, if_false, Bool.false_eq_true, runIn_bind, runIn_modify,
          runIn_pure, pure_bind]

end Host

end WhenClause
