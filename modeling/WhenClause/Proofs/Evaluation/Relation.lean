import WhenClause.Proofs.Evaluation.Simulation

set_option autoImplicit false

/-! # Evaluation respects relations of computations

An evaluation does nothing but what its host does: it puts the host's computations one after
another. Whatever relates the computations of two hosts and is kept by sequencing therefore
relates the two evaluations of every expression (`Expression.eval_related`). An invariant of one
host is the special case in which the second side does not count. -/

namespace WhenClause

/-- A relation between the computations of two monads that sequencing keeps. -/
structure Congruence (m n : Type → Type) [Monad m] [Monad n] where
  rel : {α : Type} → ExceptT Error m α → ExceptT Error n α → Prop
  pure_rel : ∀ {α : Type} (a : α), rel (pure a) (pure a)
  /-- A failure is related to the same failure. -/
  throw_rel : ∀ {α : Type} (e : Error), rel (throw e : ExceptT Error m α) (throw e)
  /-- Related computations that go on with related ones are related. -/
  bind_rel : ∀ {α β : Type} {x : ExceptT Error m α} {y : ExceptT Error n α}
    {f : α → ExceptT Error m β} {g : α → ExceptT Error n β},
    rel x y → (∀ a, rel (f a) (g a)) → rel (x >>= f) (y >>= g)

variable {m n : Type → Type} [Monad m] [Monad n]

/-- Two hosts whose operations are related. -/
structure Host.Related (R : Congruence m n) (host : Host m) (other : Host n) : Prop where
  invoke : ∀ name args, R.rel (host.invoke name args) (other.invoke name args)
  member : ∀ v key, R.rel (ExceptT.lift (host.member v key)) (ExceptT.lift (other.member v key))
  call : ∀ f name args,
    R.rel (Expression.callMethod host f name args) (Expression.callMethod other f name args)

variable [LawfulMonad m] [LawfulMonad n]

namespace Congruence

variable (R : Congruence m n)

/-- Computations with results of any two types: they are related if all that goes on from related
results makes them so. -/
def simulation : Simulation m n where
  -- The relation is for one type of results only, so the results are compared by what uses them.
  rel {α β} P x y := ∀ (γ : Type) (f : α → ExceptT Error m γ) (g : β → ExceptT Error n γ),
    (∀ a b, P a b → R.rel (f a) (g b)) → R.rel (x >>= f) (y >>= g)
  throws _ := True
  pure_rel hab _ f g hfg := by
    rw [pure_bind, pure_bind]
    exact hfg _ _ hab
  throw_rel {α β P e} _ _ f g _ := by
    have hleft : (throw e : ExceptT Error m α) >>= f = throw e := ExceptT.ext (pure_bind _ _)
    have hright : (throw e : ExceptT Error n β) >>= g = throw e := ExceptT.ext (pure_bind _ _)
    rw [hleft, hright]
    exact R.throw_rel e
  bind_rel hx hf δ k l hkl := by
    rw [bind_assoc, bind_assoc]
    exact hx δ _ _ fun a b hab => hf a b hab δ k l hkl

variable {R}

theorem simulation_eq_iff {α : Type} {x : ExceptT Error m α} {y : ExceptT Error n α} :
    R.simulation.rel Eq x y ↔ R.rel x y := by
  constructor
  · intro h
    have hpure := h α pure pure (by rintro a _ rfl; exact R.pure_rel a)
    rwa [bind_pure, bind_pure] at hpure
  · intro h γ f g hfg
    exact R.bind_rel h fun a => hfg a a rfl

end Congruence

variable {R : Congruence m n} {host : Host m} {other : Host n}

theorem Host.Related.steps (h : host.Related R other) :
    host.steps.Simulated R.simulation Likeness.identity other.steps where
  invoke {args args'} name _ hargs := by
    obtain rfl := Likeness.identity_values hargs
    exact Congruence.simulation_eq_iff.mpr (h.invoke name args)
  property {v w} key hvw := by
    obtain rfl : v = w := hvw
    refine R.simulation.bind_rel (Congruence.simulation_eq_iff.mpr (h.member v key)) ?_
    rintro found _ rfl
    exact Value.foundOr_rel (S := R.simulation) trivial found
  method {v w} name hvw := by
    obtain rfl : v = w := hvw
    refine R.simulation.bind_rel (Congruence.simulation_eq_iff.mpr (h.member v name)) ?_
    rintro found _ rfl
    exact Value.foundOr_rel (S := R.simulation) trivial _
  call {f g args args'} name hfg hargs := by
    obtain rfl : f = g := hfg
    obtain rfl := Likeness.identity_values hargs
    exact Congruence.simulation_eq_iff.mpr (h.call f name args)

/-- **Related hosts evaluate every expression to related computations.** -/
theorem Expression.eval_related (h : host.Related R other) (e : Expression) :
    R.rel (eval host e) (eval other e) := by
  rw [eval_eq_evalWith, eval_eq_evalWith]
  exact Congruence.simulation_eq_iff.mp (evalWith_simulated h.steps e fun _ _ _ _ => trivial)

end WhenClause
