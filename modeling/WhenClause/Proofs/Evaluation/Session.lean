import WhenClause.Proofs.Evaluation.Relation
import WhenClause.Proofs.Evaluation.Remembering
import WhenClause.Registry

set_option autoImplicit false

/-! # Sessions under watch

A session is one evaluator at work: it evaluates expressions one after another and keeps its
memory, and between two evaluations a command may be registered, through this handle of the
command table or any other. The commands act on a world of any type `σ`, which stands for all that
they read and change.

A watched session writes down what happens: each time the registry is really asked, and each time
a call of an expression is answered. Watching changes nothing (`Watched.session_run`), so what
the history says of a watched session is said of the session. -/

namespace WhenClause

open Stateful

/-! ## Sessions -/

/-- What may be done in a session. -/
inductive Action (σ : Type) where
  /-- The evaluation of an expression, which may fail. -/
  | evaluate (e : Expression)
  /-- The registration of a command, which may replace one of its name. -/
  | register (command : Command (StateM σ))

/-- An evaluator between two evaluations, with the commands and the world it works on. -/
structure Session (σ : Type) where
  /-- The commands as they are now. -/
  registry : Registry (StateM σ)
  memory : Memory
  /-- What the commands act on. -/
  world : σ

namespace Session

variable {σ : Type}

def start (registry : Registry (StateM σ)) (world : σ) : Session σ :=
  ⟨registry, Memory.empty, world⟩

def evaluate (objects : Objects (StateM σ)) (e : Expression) (s : Session σ) :
    Except Error Value × Session σ :=
  let ((outcome, memory), world) :=
    (runIn (e.eval ((s.registry.host objects).memoized s.registry.debug)) s.memory).run s.world
  (outcome, ⟨s.registry, memory, world⟩)

def step (objects : Objects (StateM σ)) (s : Session σ) : Action σ → Session σ
  | .evaluate e => (s.evaluate objects e).2
  | .register command => { s with registry := s.registry.register command }

def run (objects : Objects (StateM σ)) (s : Session σ) (actions : List (Action σ)) : Session σ :=
  actions.foldl (step objects) s

end Session

/-! ## History -/

/-- Something that happens to a call of a command. -/
inductive Event where
  /-- The registry was asked to make the call. -/
  | invoked (key : CallKey) (outcome : Except Error Value)
  /-- The expression that makes the call got its answer. -/
  | called (key : CallKey) (outcome : Except Error Value)

def Event.key : Event → CallKey
  | invoked key _ | called key _ => key

/-- What happened so far, the first event first. -/
abbrev History : Type := List Event

namespace Host

variable {m : Type → Type} [Monad m]

/-- A host that does not touch a further state. -/
def lifted (τ : Type) (host : Host m) : Host (StateT τ m) where
  invoke name args := ExceptT.mk (StateT.lift (host.invoke name args).run)
  member v key := StateT.lift (host.member v key)
  call f args := ExceptT.mk (StateT.lift (host.call f args).run)

/-- A host whose calls of commands are noted with their outcome. -/
def noting (note : String → List Value → Except Error Value → m Unit) (host : Host m) :
    Host m where
  invoke name args := ExceptT.mk do
    let outcome ← (host.invoke name args).run
    note name args outcome
    return outcome
  member := host.member
  call := host.call

/-- A host whose calls of commands are written into the history. -/
def asked (host : Host m) : Host (StateT History m) :=
  (host.lifted History).noting fun name args outcome =>
    modify (· ++ [.invoked (CallKey.of name args) outcome])

/-- The host that remembers, with a history of the calls on both of its sides. -/
def watched (verbose : Bool) (host : Host m) : Host (StateT Memory (StateT History m)) :=
  (host.asked.memoized verbose).noting fun name args outcome =>
    StateT.lift (modify (· ++ [.called (CallKey.of name args) outcome]))

end Host

/-! ## Watched sessions -/

/-- A moment of a watched evaluation. -/
structure Moment (σ : Type) where
  memory : Memory
  history : History
  world : σ

/-- The computations of a watched evaluation. -/
abbrev WatchM (σ α : Type) : Type := ExceptT Error (StateT Memory (StateT History (StateM σ))) α

/-- What a computation gives at a moment, and the moment when it ends. -/
def WatchM.runAt {σ α : Type} (x : WatchM σ α) (s : Moment σ) : Except Error α × Moment σ :=
  let (((outcome, memory), history), world) := ((runIn x s.memory).run s.history).run s.world
  (outcome, ⟨memory, history, world⟩)

/-- A session with its history. -/
structure Watched (σ : Type) where
  registry : Registry (StateM σ)
  moment : Moment σ

namespace Watched

variable {σ : Type}

def start (registry : Registry (StateM σ)) (world : σ) : Watched σ :=
  ⟨registry, Memory.empty, [], world⟩

def session (s : Watched σ) : Session σ := ⟨s.registry, s.moment.memory, s.moment.world⟩

def evaluate (objects : Objects (StateM σ)) (e : Expression) (s : Watched σ) :
    Except Error Value × Watched σ :=
  let (outcome, moment) :=
    WatchM.runAt (e.eval ((s.registry.host objects).watched s.registry.debug)) s.moment
  (outcome, ⟨s.registry, moment⟩)

def step (objects : Objects (StateM σ)) (s : Watched σ) : Action σ → Watched σ
  | .evaluate e => (s.evaluate objects e).2
  | .register command => { s with registry := s.registry.register command }

def run (objects : Objects (StateM σ)) (s : Watched σ) (actions : List (Action σ)) : Watched σ :=
  actions.foldl (step objects) s

end Watched

/-! ## Watched computations, step by step -/

namespace WatchM

variable {σ α β : Type}

@[simp] theorem runAt_pure (a : α) (s : Moment σ) : runAt (pure a) s = (.ok a, s) := rfl

@[simp] theorem runAt_throw (e : Error) (s : Moment σ) :
    runAt (throw e : WatchM σ α) s = (.error e, s) := rfl

theorem runAt_bind (x : WatchM σ α) (f : α → WatchM σ β) (s : Moment σ) :
    runAt (x >>= f) s =
      match runAt x s with
      | (.ok a, t) => runAt (f a) t
      | (.error e, t) => (.error e, t) := by
  unfold runAt
  rw [runIn_bind]
  simp only [StateT.run_bind]
  cases ((runIn x s.memory).run s.history).run s.world with
  | mk found world =>
      obtain ⟨⟨outcome, memory⟩, history⟩ := found
      cases outcome <;> rfl

/-! ## What a watched host does -/

variable (host : Host (StateM σ)) (verbose : Bool) {name : String} {args : List Value}
  {s : Moment σ}

/-- What the registry's answer adds to the history. -/
theorem asked_invoke {history : History} {world world' : σ} {outcome : Except Error Value}
    (h : (host.invoke name args).run.run world = (outcome, world')) :
    ((host.asked.invoke name args).run.run history).run world
      = ((outcome, history ++ [Event.invoked (CallKey.of name args) outcome]), world') := by
  show (match (host.invoke name args).run.run world with
    | (outcome, world') =>
        ((outcome, history ++ [Event.invoked (CallKey.of name args) outcome]), world')) = _
  rw [h]

/-- What the answer of a watched host adds to the history. -/
theorem runAt_called :
    runAt ((host.watched verbose).invoke name args) s =
      let (outcome, t) := runAt ((host.asked.memoized verbose).invoke name args) s
      (outcome, { t with history := t.history ++ [.called (CallKey.of name args) outcome] }) := rfl

theorem runAt_hit {v : Value} (h : s.memory.cache.find? (CallKey.of name args) = some v) :
    runAt ((host.watched verbose).invoke name args) s =
      (.ok v, ⟨s.memory.note .trace s!"Cache hit for {name}",
        s.history ++ [.called (CallKey.of name args) (.ok v)], s.world⟩) := by
  rw [runAt_called]
  unfold runAt
  rw [Host.memoized_hit host.asked verbose h]
  rfl

/-- A call that is made and gives a result. -/
theorem runAt_success {v : Value} {world : σ}
    (h : s.memory.cache.find? (CallKey.of name args) = none)
    (hinvoke : (host.invoke name args).run.run s.world = (.ok v, world)) :
    runAt ((host.watched verbose).invoke name args) s =
      (.ok v, ⟨Host.remembering verbose s.memory name args v,
        s.history ++ [.invoked (CallKey.of name args) (.ok v)]
          ++ [.called (CallKey.of name args) (.ok v)], world⟩) := by
  rw [runAt_called]
  unfold runAt
  rw [Host.memoized_miss host.asked verbose h, StateT.run_bind, StateT.run_bind,
    asked_invoke host hinvoke]
  rfl

theorem runAt_failure {e : Error} {world : σ}
    (h : s.memory.cache.find? (CallKey.of name args) = none)
    (hinvoke : (host.invoke name args).run.run s.world = (.error e, world)) :
    runAt ((host.watched verbose).invoke name args) s =
      (.error e, ⟨s.memory,
        s.history ++ [.invoked (CallKey.of name args) (.error e)]
          ++ [.called (CallKey.of name args) (.error e)], world⟩) := by
  rw [runAt_called]
  unfold runAt
  rw [Host.memoized_miss host.asked verbose h, StateT.run_bind, StateT.run_bind,
    asked_invoke host hinvoke]
  rfl

theorem runAt_member (v : Value) (key : String) :
    runAt (ExceptT.lift ((host.watched verbose).member v key)) s =
      let (found, world) := (host.member v key).run s.world
      (.ok found, { s with world }) := rfl

theorem runAt_call (f : Callee) :
    runAt (Expression.callMethod (host.watched verbose) f name args) s =
      let (outcome, world) := (Expression.callMethod host f name args).run.run s.world
      (outcome, { s with world }) := rfl

end WatchM

/-! ## Watching changes nothing -/

/-- A watched computation does the same as one that nobody watches. -/
def sameUnwatched (σ : Type) : Congruence (StateT Memory (StateT History (StateM σ)))
    (StateT Memory (StateM σ)) where
  rel x y := ∀ s : Moment σ,
    let (outcome, t) := WatchM.runAt x s
    (runIn y s.memory).run s.world = ((outcome, t.memory), t.world)
  pure_rel _ _ := rfl
  throw_rel _ _ := rfl
  bind_rel {α β x y f g} hx hf s := by
    rw [WatchM.runAt_bind, runIn_bind, StateT.run_bind]
    have h := hx s
    rcases hr : WatchM.runAt x s with ⟨outcome, t⟩
    rw [hr] at h
    rw [h]
    cases outcome with
    | ok a => exact hf a t
    | error e => rfl

theorem watched_related {σ : Type} (host : Host (StateM σ)) (verbose : Bool) :
    (host.watched verbose).Related (sameUnwatched σ) (host.memoized verbose) where
  invoke name args s := by
    cases h : s.memory.cache.find? (CallKey.of name args) with
    | some v =>
        rw [WatchM.runAt_hit host verbose h, Host.memoized_hit host verbose h]
        rfl
    | none =>
        rw [Host.memoized_miss host verbose h, StateT.run_bind]
        rcases hr : (host.invoke name args).run.run s.world with ⟨outcome, world⟩
        cases outcome with
        | ok v =>
            rw [WatchM.runAt_success host verbose h hr]
            rfl
        | error e =>
            rw [WatchM.runAt_failure host verbose h hr]
            rfl
  member _ _ _ := rfl
  call _ _ _ _ := rfl

namespace Watched

variable {σ : Type} (objects : Objects (StateM σ))

theorem session_evaluate (e : Expression) (s : Watched σ) :
    s.session.evaluate objects e
      = ((s.evaluate objects e).1, (s.evaluate objects e).2.session) := by
  have h := Expression.eval_related (watched_related (s.registry.host objects) s.registry.debug) e
    s.moment
  unfold Session.evaluate evaluate session
  rw [h]
  rfl

theorem session_step (s : Watched σ) (action : Action σ) :
    (s.step objects action).session = s.session.step objects action := by
  cases action with
  | evaluate e => exact (congrArg Prod.snd (session_evaluate objects e s)).symm
  | register command => rfl

/-- **Watching changes nothing.** A session goes the same way with and without a history. -/
theorem session_run (s : Watched σ) (actions : List (Action σ)) :
    (s.run objects actions).session = s.session.run objects actions := by
  induction actions generalizing s with
  | nil => rfl
  | cons action rest ih =>
      show ((s.step objects action).run objects rest).session = _
      rw [ih, session_step]
      rfl

end Watched

end WhenClause
