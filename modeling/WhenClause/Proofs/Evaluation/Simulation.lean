import Mathlib.Data.List.Forall2
import WhenClause.Proofs.Evaluation.Steps
import WhenClause.Proofs.Expression.Nodes

set_option autoImplicit false

/-! # Evaluations over related steps

Two evaluations of an expression are related when their steps are, step by step, even if the
steps give different values, as long as these cannot be told apart by what the evaluation itself
does with values: take their truth, compare them, and put them into arrays and records
(`Expression.evalWith_simulated`). -/

namespace WhenClause

/-! ## Values that cannot be told apart -/

/-- Which values may stand for each other. Two values may do so in arguments and operands; where a
chain goes on from them, more may be asked. -/
structure Likeness where
  /-- The values may stand for each other in arguments and operands. -/
  value : Value → Value → Prop
  /-- A chain may go on from one or the other. -/
  target : Value → Value → Prop
  /-- The methods may be called for each other. -/
  callee : Callee → Callee → Prop
  value_of_target : ∀ {v w}, target v w → value v w
  literal : ∀ l : Literal, value l.value l.value
  array : ∀ {vs ws}, List.Forall₂ value vs ws → value (.array vs) (.array ws)
  record : ∀ {fs gs}, List.Forall₂ (fun f g => f.1 = g.1 ∧ value f.2 g.2) fs gs →
    value (.record fs) (.record gs)
  truthy : ∀ {v w}, value v w → v.truthy = w.truthy
  holds : ∀ {v v' w w'} (op : Operator), value v v' → value w w' → op.holds v w = op.holds v' w'

namespace Likeness

/-- Every value stands for itself only. -/
def identity : Likeness where
  value := Eq
  target := Eq
  callee := Eq
  value_of_target h := h
  literal _ := rfl
  array h := by rw [List.forall₂_eq_eq_eq] at h; rw [h]
  record {fs gs} h := by
    have hpairs : List.Forall₂ Eq fs gs := h.imp fun _ _ hfg => Prod.ext hfg.1 hfg.2
    rw [List.forall₂_eq_eq_eq] at hpairs
    rw [hpairs]
  truthy h := by rw [h]
  holds op hv hw := by rw [hv, hw]

theorem identity_values {vs ws : List Value} (h : List.Forall₂ identity.value vs ws) : vs = ws := by
  have hvalues : List.Forall₂ Eq vs ws := h
  rw [List.forall₂_eq_eq_eq] at hvalues
  exact hvalues

variable (L : Likeness)

/-- Fields of one key with values that may stand for each other. -/
def field (f g : String × Value) : Prop := f.1 = g.1 ∧ L.value f.2 g.2

variable {L}

theorem bool (b : Bool) : L.value (.bool b) (.bool b) := L.literal (.bool b)

theorem negateIf {v w : Value} (h : L.value v w) (negated : Bool) :
    L.value (v.negateIf negated) (w.negateIf negated) := by
  cases negated with
  | false => exact h
  | true =>
      show L.value (.bool !v.truthy) (.bool !w.truthy)
      rw [L.truthy h]
      exact bool _

theorem insert {key : String} {v w : Value} (h : L.value v w) {fs gs : List (String × Value)}
    (hfs : List.Forall₂ L.field fs gs) :
    List.Forall₂ L.field (Dictionary.insert key v fs) (Dictionary.insert key w gs) := by
  induction hfs with
  | nil => exact .cons ⟨rfl, h⟩ .nil
  | @cons f g fs gs hfg hrest ih =>
      obtain ⟨k, a⟩ := f
      obtain ⟨l, b⟩ := g
      obtain ⟨rfl, hab⟩ : k = l ∧ L.value a b := hfg
      rw [Dictionary.insert, Dictionary.insert]
      split
      · exact .cons ⟨rfl, h⟩ (.cons ⟨rfl, hab⟩ hrest)
      split
      · exact .cons ⟨rfl, h⟩ hrest
      · exact .cons ⟨rfl, hab⟩ ih

end Likeness

/-! ## Simulations -/

/-- A relation between computations of two monads, over every relation of their results. -/
structure Simulation (m n : Type → Type) [Monad m] [Monad n] where
  /-- The computations are related, and so are their results. -/
  rel : {α β : Type} → (α → β → Prop) → ExceptT Error m α → ExceptT Error n β → Prop
  /-- The errors that an evaluation may end with by itself. -/
  throws : Error → Prop
  pure_rel : ∀ {α β : Type} {P : α → β → Prop} {a : α} {b : β}, P a b → rel P (pure a) (pure b)
  throw_rel : ∀ {α β : Type} {P : α → β → Prop} {e : Error}, throws e → rel P (throw e) (throw e)
  bind_rel : ∀ {α β γ δ : Type} {P : α → β → Prop} {Q : γ → δ → Prop} {x : ExceptT Error m α}
    {y : ExceptT Error n β} {f : α → ExceptT Error m γ} {g : β → ExceptT Error n δ},
    rel P x y → (∀ a b, P a b → rel Q (f a) (g b)) → rel Q (x >>= f) (y >>= g)

variable {m n : Type → Type} [Monad m] [Monad n]

theorem Value.foundOr_rel {S : Simulation m n} {α : Type} {kind : MemberKind} {key : String}
    {target : Value} (h : S.throws (Error.noMember kind key target)) (found : Option α) :
    S.rel Eq (foundOr kind key target found) (foundOr kind key target found) := by
  cases found with
  | some a => exact S.pure_rel rfl
  | none => exact S.throw_rel h

/-- Two kinds of steps are related. An evaluation never invokes a reserved name, so that nothing is
asked of invocations of such names. -/
structure Steps.Simulated (S : Simulation m n) (L : Likeness) (steps : Steps m)
    (other : Steps n) : Prop where
  invoke : ∀ {args args'} (name : String), Operator.ofName? name = none →
    List.Forall₂ L.value args args' →
    S.rel L.target (steps.invoke name args) (other.invoke name args')
  property : ∀ {v w} (key : String), L.target v w →
    S.rel L.target (steps.property v key) (other.property w key)
  method : ∀ {v w} (name : String), L.target v w →
    S.rel L.callee (steps.method v name) (other.method w name)
  call : ∀ {f g args args'} (name : String), L.callee f g → List.Forall₂ L.value args args' →
    S.rel L.target (steps.call name f args) (other.call name g args')

/-- An evaluation may end with the faults of the nodes. -/
def Simulation.Permits (S : Simulation m n) (nodes : List Expression) : Prop :=
  ∀ node ∈ nodes, ∀ e, node.fault? = some e → S.throws e

namespace Expression

variable {S : Simulation m n} {L : Likeness} {steps : Steps m} {other : Steps n}

mutual

/-- **Related steps make related evaluations** of every expression whose faults are permitted. -/
theorem evalWith_simulated (h : steps.Simulated S L other) (e : Expression)
    (hfaults : S.Permits e.nodes) : S.rel L.value (evalWith steps e) (evalWith other e) := by
  cases e with
  | literal l =>
      rw [evalWith, evalWith]
      exact S.pure_rel (L.literal l)
  | sequence items =>
      rw [nodes] at hfaults
      rw [evalWith, evalWith]
      refine S.bind_rel (itemsWith_simulated h items (List.forall_mem_cons.mp hfaults).2) ?_
      exact fun _ _ hvs => S.pure_rel (L.array hvs)
  | record entries =>
      rw [nodes] at hfaults
      rw [evalWith, evalWith]
      refine S.bind_rel
        (entriesWith_simulated h entries .nil (List.forall_mem_cons.mp hfaults).2) ?_
      exact fun _ _ hfs => S.pure_rel (L.record hfs)
  | invocation name args negated chain =>
      rw [nodes] at hfaults
      obtain ⟨hroot, hinner⟩ := List.forall_mem_cons.mp hfaults
      obtain ⟨hargs, hchain⟩ := List.forall_mem_append.mp hinner
      cases hname : Operator.ofName? name with
      | none =>
          -- The chain goes on from targets; what stands at its end need only be alike as a value.
          rw [evalWith_command _ hname, evalWith_command _ hname]
          refine S.bind_rel (itemsWith_simulated h args hargs) fun _ _ hvalues => ?_
          refine S.bind_rel (h.invoke name hname hvalues) fun _ _ hfirst => ?_
          refine S.bind_rel (chainWith_simulated h chain hfirst hchain) fun _ _ hresult => ?_
          exact S.pure_rel (Likeness.negateIf (L.value_of_target hresult) negated)
      | some op =>
          cases chain with
          | nil =>
              rw [evalWith_operator _ hname, evalWith_operator _ hname]
              refine S.bind_rel (operatorWith_simulated h op args ?_ hargs) fun _ _ hresult => ?_
              · intro hop hlength
                exact hroot _ (by simp [fault?, hname, hop, hlength])
              · exact S.pure_rel (Likeness.negateIf hresult negated)
          | cons step rest =>
              rw [evalWith_operatorChain _ hname, evalWith_operatorChain _ hname]
              have hthrows : S.throws (Error.operatorChain op) :=
                hroot _ (by simp [fault?, hname])
              exact S.bind_rel (P := L.value) (S.throw_rel hthrows) fun _ _ hresult =>
                S.pure_rel (Likeness.negateIf hresult negated)
  | not inner =>
      rw [nodes] at hfaults
      rw [evalWith, evalWith]
      refine S.bind_rel (evalWith_simulated h inner (List.forall_mem_cons.mp hfaults).2) ?_
      intro v w hvw
      rw [L.truthy hvw]
      exact S.pure_rel (L.bool _)

theorem itemsWith_simulated (h : steps.Simulated S L other) (items : List Expression)
    (hfaults : S.Permits (nodesOfItems items)) :
    S.rel (List.Forall₂ L.value) (itemsWith steps items) (itemsWith other items) := by
  cases items with
  | nil =>
      rw [itemsWith, itemsWith]
      exact S.pure_rel .nil
  | cons e rest =>
      obtain ⟨he, hrest⟩ := List.forall_mem_append.mp hfaults
      rw [itemsWith, itemsWith]
      refine S.bind_rel (evalWith_simulated h e he) fun _ _ hv => ?_
      refine S.bind_rel (itemsWith_simulated h rest hrest) fun _ _ hvs => ?_
      exact S.pure_rel (.cons hv hvs)

theorem entriesWith_simulated (h : steps.Simulated S L other)
    (entries : List (String × Expression)) {fs gs : List (String × Value)}
    (hfs : List.Forall₂ L.field fs gs) (hfaults : S.Permits (nodesOfEntries entries)) :
    S.rel (List.Forall₂ L.field) (entriesWith steps fs entries) (entriesWith other gs entries) := by
  match entries with
  | [] =>
      rw [entriesWith, entriesWith]
      exact S.pure_rel hfs
  | (key, e) :: rest =>
      obtain ⟨he, hrest⟩ := List.forall_mem_append.mp hfaults
      rw [entriesWith, entriesWith]
      refine S.bind_rel (evalWith_simulated h e he) fun _ _ hv => ?_
      exact entriesWith_simulated h rest (Likeness.insert hv hfs) hrest

theorem operatorWith_simulated (h : steps.Simulated S L other) (op : Operator)
    (operands : List Expression)
    (harity : op.isLogical = false → operands.length ≠ 2 →
      S.throws (.arity op.name operands.length))
    (hfaults : S.Permits (nodesOfItems operands)) :
    S.rel L.value (operatorWith steps op operands) (operatorWith other op operands) := by
  by_cases hand : op = .and
  · rw [hand, operatorWith_and, operatorWith_and]
    refine S.bind_rel (allWith_simulated h operands hfaults) ?_
    rintro b _ rfl
    exact S.pure_rel (L.bool b)
  by_cases hor : op = .or
  · rw [hor, operatorWith_or, operatorWith_or]
    refine S.bind_rel (anyWith_simulated h operands hfaults) ?_
    rintro b _ rfl
    exact S.pure_rel (L.bool b)
  have hop : op.isLogical = false := by cases op <;> first | rfl | contradiction
  match operands with
  | [left, right] =>
      obtain ⟨hleft, hrest⟩ := List.forall_mem_append.mp hfaults
      have hright := (List.forall_mem_append.mp hrest).1
      rw [operatorWith_comparison _ hop, operatorWith_comparison _ hop]
      refine S.bind_rel (evalWith_simulated h left hleft) fun a a' ha => ?_
      refine S.bind_rel (evalWith_simulated h right hright) fun b b' hb => ?_
      rw [L.holds op ha hb]
      exact S.pure_rel (L.bool _)
  | [] | [_] | _ :: _ :: _ :: _ =>
      rw [operatorWith_arity _ hop (by simp), operatorWith_arity _ hop (by simp)]
      exact S.throw_rel (harity hop (by simp))

theorem allWith_simulated (h : steps.Simulated S L other) (operands : List Expression)
    (hfaults : S.Permits (nodesOfItems operands)) :
    S.rel Eq (allWith steps operands) (allWith other operands) := by
  cases operands with
  | nil =>
      rw [allWith, allWith]
      exact S.pure_rel rfl
  | cons e rest =>
      obtain ⟨he, hrest⟩ := List.forall_mem_append.mp hfaults
      rw [allWith, allWith]
      refine S.bind_rel (evalWith_simulated h e he) fun v w hvw => ?_
      rw [L.truthy hvw]
      cases w.truthy with
      | true => exact allWith_simulated h rest hrest
      | false => exact S.pure_rel rfl

theorem anyWith_simulated (h : steps.Simulated S L other) (operands : List Expression)
    (hfaults : S.Permits (nodesOfItems operands)) :
    S.rel Eq (anyWith steps operands) (anyWith other operands) := by
  cases operands with
  | nil =>
      rw [anyWith, anyWith]
      exact S.pure_rel rfl
  | cons e rest =>
      obtain ⟨he, hrest⟩ := List.forall_mem_append.mp hfaults
      rw [anyWith, anyWith]
      refine S.bind_rel (evalWith_simulated h e he) fun v w hvw => ?_
      rw [L.truthy hvw]
      cases w.truthy with
      | true => exact S.pure_rel rfl
      | false => exact anyWith_simulated h rest hrest

theorem chainWith_simulated (h : steps.Simulated S L other) (chain : List Step)
    {target target' : Value} (htarget : L.target target target')
    (hfaults : S.Permits (nodesOfChain chain)) :
    S.rel L.target (chainWith steps target chain) (chainWith other target' chain) := by
  match chain with
  | [] =>
      rw [chainWith, chainWith]
      exact S.pure_rel htarget
  | .property key :: rest =>
      rw [chainWith, chainWith]
      refine S.bind_rel (h.property key htarget) fun _ _ hv => ?_
      exact chainWith_simulated h rest hv hfaults
  | .method name args :: rest =>
      obtain ⟨hargs, hrest⟩ := List.forall_mem_append.mp hfaults
      rw [chainWith, chainWith]
      refine S.bind_rel (h.method name htarget) fun _ _ hf => ?_
      refine S.bind_rel (itemsWith_simulated h args hargs) fun _ _ hvalues => ?_
      refine S.bind_rel (h.call name hf hvalues) fun _ _ hv => ?_
      exact chainWith_simulated h rest hv hrest

end

end Expression

end WhenClause
