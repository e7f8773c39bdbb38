import Mathlib
import WhenClause.Proofs.Evaluation.Running
import WhenClause.Proofs.Expression.Places

set_option autoImplicit false

/-! # Side effects follow the order of the source

An evaluation that knows at which place of the expression it is (`Expression.evalAt`) can write
down which invocation asked for a command, and which operands were passed over because an operand
before them decided. It does what every evaluation does, and what it writes down shows in which
order commands are asked for (`Registry.asked_in_source_order`): in the order in which the
invocations are listed in the expression, each at most once, and none below an operand that was
passed over. -/

namespace WhenClause

/-! ## Evaluation with places -/

/-- What an evaluation does at each place. -/
structure PlacedSteps (m : Type → Type) where
  node : Place → Steps m
  /-- The operands of the node at a place are passed over, from a number on and as many as given. -/
  passOver : Place → Nat → Nat → ExceptT Error m PUnit

namespace Expression

variable {m : Type → Type} [Monad m]

mutual

def evalAt (steps : PlacedSteps m) (place : Place) (e : Expression) : ExceptT Error m Value :=
  match e with
  | .literal l => pure l.value
  | .sequence items => do return .array (← itemsAt steps place 0 items)
  | .record entries => do return .record (← entriesAt steps place 0 [] entries)
  | .invocation name args negated chain => do
      let result ←
        match Operator.ofName? name with
        | some op =>
            if chain.isEmpty then operatorAt steps place op args else throw (Error.operatorChain op)
        | none => do
            let values ← itemsAt steps place 0 args
            let first ← (steps.node place).invoke name values
            chainAt steps place args.length first chain
      return result.negateIf negated
  | .not inner => do return .bool !(← evalAt steps (place ++ [0]) inner).truthy
termination_by (sizeOf e, 0)

/-- The values of parts that are numbered from `k` on. -/
def itemsAt (steps : PlacedSteps m) (place : Place) (k : Nat) (items : List Expression) :
    ExceptT Error m (List Value) :=
  match items with
  | [] => pure []
  | e :: rest => do
      let v ← evalAt steps (place ++ [k]) e
      return v :: (← itemsAt steps place (k + 1) rest)
termination_by (sizeOf items, 0)

/-- The fields of the entries of a record, put into the fields found so far. -/
def entriesAt (steps : PlacedSteps m) (place : Place) (k : Nat) (fields : List (String × Value))
    (entries : List (String × Expression)) : ExceptT Error m (List (String × Value)) :=
  match entries with
  | [] => pure fields
  | (key, e) :: rest => do
      let v ← evalAt steps (place ++ [k]) e
      entriesAt steps place (k + 1) (Dictionary.insert key v fields) rest
termination_by (sizeOf entries, 0)

def operatorAt (steps : PlacedSteps m) (place : Place) (op : Operator)
    (operands : List Expression) : ExceptT Error m Value :=
  match op with
  | .and => do return .bool (← allAt steps place 0 operands)
  | .or => do return .bool (← anyAt steps place 0 operands)
  | op =>
      match operands with
      | [left, right] => do
          let a ← evalAt steps (place ++ [0]) left
          let b ← evalAt steps (place ++ [1]) right
          return .bool (op.holds a b)
      | _ => throw (.arity op.name operands.length)
termination_by (sizeOf operands, 1)

/-- Every operand is truthy. Those behind one that is not are passed over. -/
def allAt (steps : PlacedSteps m) (place : Place) (k : Nat) (operands : List Expression) :
    ExceptT Error m Bool :=
  match operands with
  | [] => pure true
  | e :: rest => do
      let v ← evalAt steps (place ++ [k]) e
      if v.truthy then allAt steps place (k + 1) rest
      else do
        steps.passOver place (k + 1) rest.length
        return false
termination_by (sizeOf operands, 0)

/-- Some operand is truthy. Those behind it are passed over. -/
def anyAt (steps : PlacedSteps m) (place : Place) (k : Nat) (operands : List Expression) :
    ExceptT Error m Bool :=
  match operands with
  | [] => pure false
  | e :: rest => do
      let v ← evalAt steps (place ++ [k]) e
      if v.truthy then do
        steps.passOver place (k + 1) rest.length
        return true
      else anyAt steps place (k + 1) rest
termination_by (sizeOf operands, 0)

/-- The value at the end of a chain whose methods have arguments numbered from `k` on. -/
def chainAt (steps : PlacedSteps m) (place : Place) (k : Nat) (target : Value)
    (chain : List Step) : ExceptT Error m Value :=
  match chain with
  | [] => pure target
  | .property key :: rest => do
      let v ← (steps.node place).property target key
      chainAt steps place k v rest
  | .method name args :: rest => do
      let f ← (steps.node place).method target name
      let values ← itemsAt steps place k args
      let v ← (steps.node place).call name f values
      chainAt steps place (k + args.length) v rest
termination_by (sizeOf chain, 0)

end

section

variable (steps : PlacedSteps m) (place : Place)

theorem evalAt_command {name : String} (h : Operator.ofName? name = none)
    (args : List Expression) (negated : Bool) (chain : List Step) :
    evalAt steps place (.invocation name args negated chain) = do
      let values ← itemsAt steps place 0 args
      let first ← (steps.node place).invoke name values
      let result ← chainAt steps place args.length first chain
      return result.negateIf negated := by
  rw [evalAt]
  simp only [h]

theorem evalAt_operator {name : String} {op : Operator} (h : Operator.ofName? name = some op)
    (args : List Expression) (negated : Bool) :
    evalAt steps place (.invocation name args negated []) = do
      let result ← operatorAt steps place op args
      return result.negateIf negated := by
  rw [evalAt]
  simp only [h]
  rfl

theorem evalAt_operatorChain {name : String} {op : Operator} (h : Operator.ofName? name = some op)
    (args : List Expression) (negated : Bool) (step : Step) (chain : List Step) :
    evalAt steps place (.invocation name args negated (step :: chain)) = do
      let result ← (throw (Error.operatorChain op) : ExceptT Error m Value)
      return result.negateIf negated := by
  rw [evalAt]
  simp only [h]
  rfl

theorem operatorAt_and (operands : List Expression) :
    operatorAt steps place .and operands = do
      return .bool (← allAt steps place 0 operands) := by
  rw [operatorAt]

theorem operatorAt_or (operands : List Expression) :
    operatorAt steps place .or operands = do
      return .bool (← anyAt steps place 0 operands) := by
  rw [operatorAt]

theorem operatorAt_comparison {op : Operator} (h : op.isLogical = false)
    (left right : Expression) :
    operatorAt steps place op [left, right] = do
      let a ← evalAt steps (place ++ [0]) left
      let b ← evalAt steps (place ++ [1]) right
      return .bool (op.holds a b) := by
  cases op with
  | and => cases h
  | or => cases h
  | _ => rw [operatorAt] <;> simp

theorem operatorAt_arity {op : Operator} (h : op.isLogical = false)
    {operands : List Expression} (hlength : operands.length ≠ 2) :
    operatorAt steps place op operands = throw (.arity op.name operands.length) := by
  match operands with
  | [_, _] => exact absurd rfl hlength
  | [] | [_] | _ :: _ :: _ :: _ =>
      cases op with
      | and => cases h
      | or => cases h
      | _ => rw [operatorAt] <;> simp

end

end Expression

/-! ## Trails -/

/-- Something that was seen at a place. -/
inductive Sight where
  | asked (site : Site)
  | passed (place : Place)

/-- What was seen so far, the first sight first. -/
abbrev Trail : Type := List Sight

namespace Sight

def place : Sight → Place
  | asked site => site.place
  | passed place => place

def asked? : Sight → Option Site
  | asked site => some site
  | passed _ => none

def passed? : Sight → Option Place
  | asked _ => none
  | passed place => some place

end Sight

namespace Trail

/-- The calls that were asked for, in their order. -/
def asked (trail : Trail) : List Site := trail.filterMap Sight.asked?

def passed (trail : Trail) : List Place := trail.filterMap Sight.passed?

@[simp] theorem asked_append (t u : Trail) : asked (t ++ u) = t.asked ++ u.asked :=
  List.filterMap_append

@[simp] theorem passed_append (t u : Trail) : passed (t ++ u) = t.passed ++ u.passed :=
  List.filterMap_append

/-- The operands of the node at a place from number `k` on are passed over, `count` of them. -/
def passedOver (place : Place) (k count : Nat) : Trail :=
  (List.range' k count).map fun j => .passed (place ++ [j])

theorem mem_of_mem_asked {trail : Trail} {site : Site} (h : site ∈ trail.asked) :
    Sight.asked site ∈ trail := by
  obtain ⟨sight, hsight, heq⟩ := List.mem_filterMap.mp h
  cases sight with
  | asked other => rwa [← Option.some.inj heq]
  | passed place => cases heq

theorem mem_of_mem_passed {trail : Trail} {place : Place} (h : place ∈ trail.passed) :
    Sight.passed place ∈ trail := by
  obtain ⟨sight, hsight, heq⟩ := List.mem_filterMap.mp h
  cases sight with
  | asked site => cases heq
  | passed other => rwa [← Option.some.inj heq]

end Trail

/-- A trail that goes through a region in the order of its calls, and asks for nothing below an
operand that was passed over. -/
structure Orderly (region : Place → Prop) (sites : List Site) (trail : Trail) : Prop where
  sublist : trail.asked.Sublist sites
  inside : ∀ sight ∈ trail, region sight.place
  /-- Nothing is asked for below an operand that was passed over. -/
  settled : ∀ q ∈ trail.passed, ∀ site ∈ trail.asked, ¬ q <+: site.place

namespace Orderly

variable {region region₁ region₂ : Place → Prop} {sites sites₁ sites₂ : List Site}
  {t u : Trail} {place : Place} {a b c k : Nat}

theorem nil (region : Place → Prop) (sites : List Site) : Orderly region sites [] where
  sublist := List.nil_sublist sites
  inside := List.forall_mem_nil _
  settled := List.forall_mem_nil _

theorem mono (h : Orderly region₁ sites₁ t) (hregion : ∀ p, region₁ p → region p)
    (hsites : sites₁.Sublist sites) : Orderly region sites t where
  sublist := h.sublist.trans hsites
  inside sight hsight := hregion _ (h.inside sight hsight)
  settled := h.settled

/-- Trails through different parts of a node, one after the other. -/
theorem append (h₁ : Orderly (place.Within a b) sites₁ t)
    (h₂ : Orderly (place.Within b c) sites₂ u) (hab : a ≤ b) (hbc : b ≤ c) :
    Orderly (place.Within a c) (sites₁ ++ sites₂) (t ++ u) where
  sublist := by
    rw [Trail.asked_append]
    exact h₁.sublist.append h₂.sublist
  inside := by
    rw [List.forall_mem_append]
    exact ⟨fun sight hsight => (h₁.inside sight hsight).mono (Nat.le_refl a) hbc,
      fun sight hsight => (h₂.inside sight hsight).mono hab (Nat.le_refl c)⟩
  settled := by
    intro q hq site hsite hbelow
    rw [Trail.passed_append, List.mem_append] at hq
    rw [Trail.asked_append, List.mem_append] at hsite
    -- What is below a place in one of the parts is in that part, and so not in the other.
    rcases hq with hq | hq <;> rcases hsite with hsite | hsite
    · exact h₁.settled q hq site hsite hbelow
    · have hleft := (h₁.inside _ (Trail.mem_of_mem_passed hq)).below hbelow
      exact hleft.apart (h₂.inside _ (Trail.mem_of_mem_asked hsite))
    · have hright := (h₂.inside _ (Trail.mem_of_mem_passed hq)).below hbelow
      exact (h₁.inside _ (Trail.mem_of_mem_asked hsite)).apart hright
    · exact h₂.settled q hq site hsite hbelow

/-- A trail through a part of a node. -/
theorem part (h : Orderly ((place ++ [k]) <+: ·) sites t) :
    Orderly (place.Within k (k + 1)) sites t :=
  h.mono (fun _ => Place.within_part) (List.Sublist.refl sites)

/-- A trail through the parts of a node is one through the node. -/
theorem whole (h : Orderly (place.Within a b) sites t) : Orderly (place <+: ·) sites t :=
  h.mono (fun _ => Place.Within.below_node) (List.Sublist.refl sites)

theorem passedOver (place : Place) (k count : Nat) (sites : List Site) :
    Orderly (place.Within k (k + count)) sites (Trail.passedOver place k count) where
  sublist := by
    have hasked : (Trail.passedOver place k count).asked = [] := by
      rw [Trail.passedOver, Trail.asked, List.filterMap_map]
      exact List.filterMap_eq_nil_iff.mpr fun _ _ => rfl
    rw [hasked]
    exact List.nil_sublist sites
  inside sight hsight := by
    obtain ⟨j, hj, rfl⟩ := List.mem_map.mp hsight
    obtain ⟨hkj, hjc⟩ := List.mem_range'_1.mp hj
    exact ⟨j, hkj, hjc, List.prefix_refl _⟩
  settled q _ site hsite := by
    obtain ⟨j, -, hj⟩ := List.mem_map.mp (Trail.mem_of_mem_asked hsite)
    cases hj

/-- The call of a node, between trails through its parts. -/
theorem around {own : Trail} {name : String} (h₁ : Orderly (place.Within a b) sites₁ t)
    (hown : own.Sublist [.asked ⟨place, name⟩]) (h₂ : Orderly (place.Within b c) sites₂ u)
    (hab : a ≤ b) (hbc : b ≤ c) :
    Orderly (place <+: ·) (sites₁ ++ ([⟨place, name⟩] ++ sites₂)) (t ++ (own ++ u)) := by
  have hparts := (h₁.append h₂ hab hbc).inside
  have hsettled := (h₁.append h₂ hab hbc).settled
  have hown' : ∀ sight ∈ own, sight = .asked ⟨place, name⟩ := fun sight hsight =>
    List.mem_singleton.mp (hown.subset hsight)
  have hasked : own.asked.Sublist [⟨place, name⟩] := hown.filterMap _
  have hpassed : own.passed = [] := by
    refine List.eq_nil_iff_forall_not_mem.mpr fun q hq => ?_
    cases hown' _ (Trail.mem_of_mem_passed hq)
  refine ⟨?_, ?_, ?_⟩
  · rw [Trail.asked_append, Trail.asked_append]
    exact h₁.sublist.append (hasked.append h₂.sublist)
  · intro sight hsight
    rw [List.mem_append, List.mem_append, or_left_comm] at hsight
    rcases hsight with hsight | hsight
    · have hplace : sight.place = place := congrArg Sight.place (hown' sight hsight)
      exact hplace ▸ List.prefix_refl place
    · exact (hparts sight (List.mem_append.mpr hsight)).below_node
  · intro q hq s hs
    rw [Trail.passed_append, Trail.passed_append, hpassed, List.nil_append,
      ← Trail.passed_append] at hq
    rw [Trail.asked_append, Trail.asked_append, List.mem_append, List.mem_append,
      or_left_comm] at hs
    rcases hs with hs | hs
    · -- An operand that was passed over lies in a part, and the node does not.
      intro hbelow
      rw [List.mem_singleton.mp (hasked.subset hs)] at hbelow
      exact Place.not_within_self ((hparts _ (Trail.mem_of_mem_passed hq)).below hbelow)
    · refine hsettled q hq s ?_
      rw [Trail.asked_append]
      exact List.mem_append.mpr hs

/-- A trail that begins with the call of a node, if that is asked for, and goes on through parts of
the node. -/
def Onward (site : Site) (region : Place → Prop) (sites : List Site) (trail : Trail) : Prop :=
  ∃ own rest, trail = own ++ rest ∧ own.Sublist [.asked site] ∧ Orderly region sites rest

end Orderly

/-! ## Writing trails down -/

variable {σ α β : Type}

/-- A host that writes down that the invocation at a place asks it for a command. -/
def Host.sighting (host : Host (StateM σ)) (place : Place) : Host (StateM (σ × Trail)) where
  invoke name args := ExceptT.mk fun s =>
    let (outcome, world) := (host.invoke name args).run.run s.1
    (outcome, world, s.2 ++ [.asked ⟨place, name⟩])
  member target key := fun s =>
    let (found, world) := (host.member target key).run s.1
    (found, world, s.2)
  call f args := ExceptT.mk fun s =>
    let (outcome, world) := (host.call f args).run.run s.1
    (outcome, world, s.2)

theorem Host.run_sighting (host : Host (StateM σ)) (place : Place) (name : String)
    (args : List Value) (world : σ) (earlier : Trail) :
    ((host.sighting place).invoke name args).run.run (world, earlier) =
      (((host.invoke name args).run.run world).1, ((host.invoke name args).run.run world).2,
        earlier ++ [.asked ⟨place, name⟩]) := rfl

/-- The steps of an evaluator at each place. A call that is answered from memory is not asked for,
and nothing is written. -/
def Host.placedSteps (host : Host (StateM σ)) (verbose : Bool) :
    PlacedSteps (StateT Memory (StateM (σ × Trail))) where
  node place := ((host.sighting place).memoized verbose).steps
  passOver place k count :=
    ExceptT.mk (StateT.lift fun s => (.ok ⟨⟩, s.1, s.2 ++ Trail.passedOver place k count))

/-- A computation of an evaluator, and one that does the same and leaves a good trail. -/
def Traced (good : Trail → Prop) (x : EvalM σ α) (y : EvalM (σ × Trail) α) : Prop :=
  ∀ memory world earlier, ∃ outcome memory' world' trail,
    EvalM.runAt x memory world = (outcome, memory', world') ∧
    EvalM.runAt y memory (world, earlier) = (outcome, memory', world', earlier ++ trail) ∧
    good trail

namespace Traced

variable {good good₁ good₂ : Trail → Prop} {x : EvalM σ α} {y : EvalM (σ × Trail) α}
  {f : α → EvalM σ β} {g : α → EvalM (σ × Trail) β}

theorem pure (a : α) (h : good []) : Traced good (pure a : EvalM σ α) (pure a) := by
  intro memory world earlier
  refine ⟨.ok a, memory, world, [], rfl, ?_, h⟩
  rw [List.append_nil]
  rfl

theorem throw (e : Error) (h : good []) :
    Traced good (throw e : EvalM σ α) (MonadExcept.throw e) := by
  intro memory world earlier
  refine ⟨.error e, memory, world, [], rfl, ?_, h⟩
  rw [List.append_nil]
  rfl

theorem mono (h : Traced good₁ x y) (hgood : ∀ t, good₁ t → good t) : Traced good x y := by
  intro memory world earlier
  obtain ⟨outcome, memory', world', trail, hx, hy, htrail⟩ := h memory world earlier
  exact ⟨outcome, memory', world', trail, hx, hy, hgood trail htrail⟩

/-- One computation after another leaves one trail after another, unless the first one fails. -/
theorem bind (hx : Traced good₁ x y) (hf : ∀ a, Traced good₂ (f a) (g a))
    (hstop : ∀ t, good₁ t → good t) (hgo : ∀ t u, good₁ t → good₂ u → good (t ++ u)) :
    Traced good (x >>= f) (y >>= g) := by
  intro memory world earlier
  obtain ⟨outcome, memory₁, world₁, t, hrx, hry, ht⟩ := hx memory world earlier
  cases outcome with
  | error e =>
      exact ⟨.error e, memory₁, world₁, t, EvalM.runAt_bind_error hrx f,
        EvalM.runAt_bind_error hry g, hstop t ht⟩
  | ok a =>
      obtain ⟨result, memory₂, world₂, u, hrf, hrg, hu⟩ := hf a memory₁ world₁ (earlier ++ t)
      refine ⟨result, memory₂, world₂, t ++ u, ?_, ?_, hgo t u ht hu⟩
      · rw [EvalM.runAt_bind_ok hrx, hrf]
      · rw [EvalM.runAt_bind_ok hry, hrg, List.append_assoc]

/-- What comes after leaves no trail. -/
theorem bind_pure (hx : Traced good x y) (h : α → β) :
    Traced good (x >>= fun a => Pure.pure (h a)) (y >>= fun a => Pure.pure (h a)) := by
  have hpure : ∀ a, Traced (· = []) (Pure.pure (h a) : EvalM σ β) (Pure.pure (h a)) :=
    fun a => .pure (h a) rfl
  refine hx.bind hpure (fun _ ht => ht) ?_
  rintro t _ ht rfl
  rwa [List.append_nil]

/-- What comes before leaves no trail. -/
theorem bind_silent (hx : Traced (· = []) x y) (hf : ∀ a, Traced good (f a) (g a))
    (hnil : good []) : Traced good (x >>= f) (y >>= g) := by
  refine hx.bind hf ?_ ?_
  · rintro _ rfl
    exact hnil
  · rintro _ u rfl hu
    exact hu

/-- One computation for a part of a node, and one for the parts behind it. -/
theorem bind_part {place : Place} {k count : Nat} {sites₁ sites₂ : List Site}
    (hx : Traced (Orderly ((place ++ [k]) <+: ·) sites₁) x y)
    (hf : ∀ a, Traced (Orderly (place.Within (k + 1) (k + 1 + count)) sites₂) (f a) (g a)) :
    Traced (Orderly (place.Within k (k + (count + 1))) (sites₁ ++ sites₂))
      (x >>= f) (y >>= g) := by
  have hk : k + (count + 1) = k + 1 + count := by omega
  rw [hk]
  refine hx.bind hf (fun t ht => ?_) fun t u ht hu => ?_
  · exact ht.part.mono (fun _ hp => hp.mono (Nat.le_refl k) (Nat.le_add_right _ _))
      (List.sublist_append_left _ _)
  · exact ht.part.append hu (Nat.le_succ k) (Nat.le_add_right _ _)

end Traced

section

variable (host : Host (StateM σ)) (verbose : Bool) (place : Place)

/-! ## Steps and their trails -/

/-- A call of a command: it is answered from memory, or it is asked for. -/
theorem Host.invoke_traced (name : String) (args : List Value) :
    Traced (List.Sublist · [Sight.asked ⟨place, name⟩])
      ((host.memoized verbose).steps.invoke name args)
      (((host.placedSteps verbose).node place).invoke name args) := by
  intro memory world earlier
  cases hfind : memory.cache.find? (CallKey.of name args) with
  | some v =>
      refine ⟨.ok v, _, world, [], EvalM.runAt_hit host verbose hfind, ?_, List.nil_sublist _⟩
      rw [List.append_nil]
      exact EvalM.runAt_hit (host.sighting place) verbose hfind
  | none =>
      rcases hrun : (host.invoke name args).run.run world with ⟨outcome, world'⟩
      have hsighting : ((host.sighting place).invoke name args).run.run (world, earlier)
          = (outcome, world', earlier ++ [Sight.asked ⟨place, name⟩]) := by
        rw [Host.run_sighting, hrun]
      cases outcome with
      | ok v =>
          exact ⟨.ok v, _, world', _, EvalM.runAt_success host verbose hfind hrun,
            EvalM.runAt_success (host.sighting place) verbose hfind hsighting, .refl _⟩
      | error e =>
          exact ⟨.error e, _, world', _, EvalM.runAt_failure host verbose hfind hrun,
            EvalM.runAt_failure (host.sighting place) verbose hfind hsighting, .refl _⟩

/-- A look-up of a property leaves no trail. -/
theorem Host.property_traced (target : Value) (key : String) :
    Traced (· = []) ((host.memoized verbose).steps.property target key)
      (((host.placedSteps verbose).node place).property target key) := by
  intro memory world earlier
  refine ⟨_, _, _, [], EvalM.runAt_property host verbose target key, ?_, rfl⟩
  rw [List.append_nil]
  exact EvalM.runAt_property (host.sighting place) verbose target key

/-- A look-up of a method leaves no trail. -/
theorem Host.method_traced (target : Value) (name : String) :
    Traced (· = []) ((host.memoized verbose).steps.method target name)
      (((host.placedSteps verbose).node place).method target name) := by
  intro memory world earlier
  refine ⟨_, _, _, [], EvalM.runAt_method host verbose target name, ?_, rfl⟩
  rw [List.append_nil]
  exact EvalM.runAt_method (host.sighting place) verbose target name

/-- A call of a method leaves no trail. -/
theorem Host.call_traced (name : String) (f : Callee) (args : List Value) :
    Traced (· = []) ((host.memoized verbose).steps.call name f args)
      (((host.placedSteps verbose).node place).call name f args) := by
  intro memory world earlier
  refine ⟨_, _, _, [], EvalM.runAt_call host verbose name f args, ?_, rfl⟩
  rw [List.append_nil]
  exact EvalM.runAt_call (host.sighting place) verbose name f args

/-- To pass over operands and to give a truth is to give the truth. -/
theorem Host.passedOver_traced (k count : Nat) (b : Bool) (sites : List Site) :
    Traced (Orderly (place.Within k (k + count)) sites) (pure b : EvalM σ Bool) (do
      (host.placedSteps verbose).passOver place k count
      return b) := fun memory world _ =>
  ⟨.ok b, memory, world, Trail.passedOver place k count, rfl, rfl, .passedOver place k count sites⟩

end

/-! ## Evaluations and their trails -/

namespace Expression

variable (host : Host (StateM σ)) (verbose : Bool)

mutual

/-- **An evaluation leaves an orderly trail.** -/
theorem evalAt_traced (place : Place) (e : Expression) :
    Traced (Orderly (place <+: ·) (sitesAt place e))
      (evalWith (host.memoized verbose).steps e) (evalAt (host.placedSteps verbose) place e) := by
  cases e with
  | literal l =>
      rw [evalWith, evalAt]
      exact .pure _ (.nil _ _)
  | sequence items =>
      rw [evalWith, evalAt, sitesAt]
      exact ((itemsAt_traced place 0 items).mono fun t ht => ht.whole).bind_pure _
  | record entries =>
      rw [evalWith, evalAt, sitesAt]
      exact ((entriesAt_traced place 0 [] entries).mono fun t ht => ht.whole).bind_pure _
  | invocation name args negated chain =>
      cases hname : Operator.ofName? name with
      | none =>
          have hsites : sitesAt place (.invocation name args negated chain) =
              sitesOfItems place 0 args ++ ([⟨place, name⟩] ++
                sitesOfChain place args.length chain) := by
            rw [sitesAt, ownSites, hname]
            rfl
          rw [evalWith_command _ hname, evalAt_command _ _ hname, hsites]
          -- The call goes with the chain behind it, for a call that fails ends the trail.
          have hinvoke : ∀ values, Traced
              (Orderly.Onward ⟨place, name⟩ (place.Within args.length
                (args.length + (chain.flatMap Step.arguments).length))
                (sitesOfChain place args.length chain))
              (do
                let first ← (host.memoized verbose).steps.invoke name values
                let result ← chainWith (host.memoized verbose).steps first chain
                return result.negateIf negated)
              (do
                let first ← ((host.placedSteps verbose).node place).invoke name values
                let result ← chainAt (host.placedSteps verbose) place args.length first chain
                return result.negateIf negated) := by
            intro values
            refine (host.invoke_traced verbose place name values).bind (fun first =>
              (chainAt_traced place args.length first chain).bind_pure _) ?_ ?_
            · exact fun t ht => ⟨t, [], (List.append_nil t).symm, ht, .nil _ _⟩
            · exact fun t u ht hu => ⟨t, u, rfl, ht, hu⟩
          refine (itemsAt_traced place 0 args).bind hinvoke ?_ ?_
          · exact fun t ht => ht.whole.mono (fun _ hp => hp) (List.sublist_append_left _ _)
          · rintro t _ ht ⟨own, u, rfl, hown, hu⟩
            rw [Nat.zero_add] at ht
            exact ht.around hown hu (Nat.zero_le _) (Nat.le_add_right _ _)
      | some op =>
          have hsites : sitesAt place (.invocation name args negated chain) =
              sitesOfItems place 0 args ++ sitesOfChain place args.length chain := by
            rw [sitesAt, ownSites, hname]
            rfl
          rw [hsites]
          cases chain with
          | nil =>
              rw [evalWith_operator _ hname, evalAt_operator _ _ hname, sitesOfChain,
                List.append_nil]
              exact (operatorAt_traced place op args).bind_pure _
          | cons step rest =>
              rw [evalWith_operatorChain _ hname, evalAt_operatorChain _ _ hname]
              exact Traced.bind_pure (.throw _ (.nil _ _)) _
  | not inner =>
      rw [evalWith, evalAt, sitesAt]
      exact ((evalAt_traced (place ++ [0]) inner).mono fun t ht => ht.part.whole).bind_pure _
termination_by (sizeOf e, 0)

theorem itemsAt_traced (place : Place) (k : Nat) (items : List Expression) :
    Traced (Orderly (place.Within k (k + items.length)) (sitesOfItems place k items))
      (itemsWith (host.memoized verbose).steps items)
      (itemsAt (host.placedSteps verbose) place k items) := by
  cases items with
  | nil =>
      rw [itemsWith, itemsAt]
      exact .pure _ (.nil _ _)
  | cons e rest =>
      rw [itemsWith, itemsAt, sitesOfItems]
      refine (evalAt_traced (place ++ [k]) e).bind_part fun v => ?_
      exact (itemsAt_traced place (k + 1) rest).bind_pure _
termination_by (sizeOf items, 0)

theorem entriesAt_traced (place : Place) (k : Nat) (fields : List (String × Value))
    (entries : List (String × Expression)) :
    Traced (Orderly (place.Within k (k + entries.length)) (sitesOfEntries place k entries))
      (entriesWith (host.memoized verbose).steps fields entries)
      (entriesAt (host.placedSteps verbose) place k fields entries) := by
  match entries with
  | [] =>
      rw [entriesWith, entriesAt]
      exact .pure _ (.nil _ _)
  | (key, e) :: rest =>
      rw [entriesWith, entriesAt, sitesOfEntries]
      refine (evalAt_traced (place ++ [k]) e).bind_part fun v => ?_
      exact entriesAt_traced place (k + 1) _ rest
termination_by (sizeOf entries, 0)

theorem operatorAt_traced (place : Place) (op : Operator) (operands : List Expression) :
    Traced (Orderly (place <+: ·) (sitesOfItems place 0 operands))
      (operatorWith (host.memoized verbose).steps op operands)
      (operatorAt (host.placedSteps verbose) place op operands) := by
  by_cases hand : op = .and
  · rw [hand, operatorWith_and, operatorAt_and]
    exact ((allAt_traced place 0 operands).mono fun t ht => ht.whole).bind_pure _
  by_cases hor : op = .or
  · rw [hor, operatorWith_or, operatorAt_or]
    exact ((anyAt_traced place 0 operands).mono fun t ht => ht.whole).bind_pure _
  have hop : op.isLogical = false := by cases op <;> first | rfl | contradiction
  match operands with
  | [left, right] =>
      rw [operatorWith_comparison _ hop, operatorAt_comparison _ _ hop]
      have hright : ∀ a : Value, Traced
          (Orderly (place.Within 1 (1 + 1)) (sitesOfItems place 1 [right]))
          (do
            let b ← evalWith (host.memoized verbose).steps right
            return Value.bool (op.holds a b))
          (do
            let b ← evalAt (host.placedSteps verbose) (place ++ [1]) right
            return Value.bool (op.holds a b)) := by
        intro a
        rw [sitesOfItems, sitesOfItems, List.append_nil]
        exact ((evalAt_traced (place ++ [1]) right).mono fun t ht => ht.part).bind_pure _
      refine Traced.mono ?_ fun t (ht : Orderly (place.Within 0 2) _ t) => ht.whole
      exact (evalAt_traced (place ++ [0]) left).bind_part hright
  | [] | [_] | _ :: _ :: _ :: _ =>
      rw [operatorWith_arity _ hop (by simp), operatorAt_arity _ _ hop (by simp)]
      exact .throw _ (.nil _ _)
termination_by (sizeOf operands, 1)

theorem allAt_traced (place : Place) (k : Nat) (operands : List Expression) :
    Traced (Orderly (place.Within k (k + operands.length)) (sitesOfItems place k operands))
      (allWith (host.memoized verbose).steps operands)
      (allAt (host.placedSteps verbose) place k operands) := by
  cases operands with
  | nil =>
      rw [allWith, allAt]
      exact .pure _ (.nil _ _)
  | cons e rest =>
      rw [allWith, allAt, sitesOfItems]
      refine (evalAt_traced (place ++ [k]) e).bind_part fun v => ?_
      cases v.truthy with
      | true => exact allAt_traced place (k + 1) rest
      | false =>
          -- This operand decides.
          exact host.passedOver_traced verbose place (k + 1) rest.length false _
termination_by (sizeOf operands, 0)

theorem anyAt_traced (place : Place) (k : Nat) (operands : List Expression) :
    Traced (Orderly (place.Within k (k + operands.length)) (sitesOfItems place k operands))
      (anyWith (host.memoized verbose).steps operands)
      (anyAt (host.placedSteps verbose) place k operands) := by
  cases operands with
  | nil =>
      rw [anyWith, anyAt]
      exact .pure _ (.nil _ _)
  | cons e rest =>
      rw [anyWith, anyAt, sitesOfItems]
      refine (evalAt_traced (place ++ [k]) e).bind_part fun v => ?_
      cases v.truthy with
      | true =>
          -- This operand decides.
          exact host.passedOver_traced verbose place (k + 1) rest.length true _
      | false => exact anyAt_traced place (k + 1) rest
termination_by (sizeOf operands, 0)

theorem chainAt_traced (place : Place) (k : Nat) (target : Value) (chain : List Step) :
    Traced (Orderly (place.Within k (k + (chain.flatMap Step.arguments).length))
        (sitesOfChain place k chain))
      (chainWith (host.memoized verbose).steps target chain)
      (chainAt (host.placedSteps verbose) place k target chain) := by
  match chain with
  | [] =>
      rw [chainWith, chainAt]
      exact .pure _ (.nil _ _)
  | .property key :: rest =>
      rw [chainWith, chainAt, sitesOfChain]
      refine (host.property_traced verbose place target key).bind_silent (fun v => ?_) (.nil _ _)
      exact chainAt_traced place k v rest
  | .method name args :: rest =>
      have hlength : k + ((Step.method name args :: rest).flatMap Step.arguments).length
          = k + args.length + (rest.flatMap Step.arguments).length := by
        rw [List.flatMap_cons, List.length_append, ← Nat.add_assoc]
        rfl
      rw [chainWith, chainAt, sitesOfChain, hlength]
      refine (host.method_traced verbose place target name).bind_silent (fun f => ?_) (.nil _ _)
      have hcall : ∀ values, Traced (Orderly (place.Within (k + args.length)
          (k + args.length + (rest.flatMap Step.arguments).length))
          (sitesOfChain place (k + args.length) rest))
          (do
            let v ← (host.memoized verbose).steps.call name f values
            chainWith (host.memoized verbose).steps v rest)
          (do
            let v ← ((host.placedSteps verbose).node place).call name f values
            chainAt (host.placedSteps verbose) place (k + args.length) v rest) := by
        intro values
        refine (host.call_traced verbose place name f values).bind_silent (fun v => ?_) (.nil _ _)
        exact chainAt_traced place (k + args.length) v rest
      refine (itemsAt_traced place k args).bind hcall (fun t ht => ?_) fun t u ht hu => ?_
      · exact ht.mono (fun _ hp => hp.mono (Nat.le_refl k) (Nat.le_add_right _ _))
          (List.sublist_append_left _ _)
      · exact ht.append hu (Nat.le_add_right _ _) (Nat.le_add_right _ _)
termination_by (sizeOf chain, 0)

end

end Expression

/-- **Side effects follow the order of the source.** Whatever the commands are and whatever is
remembered, an evaluation that writes its trail down does what the evaluation does, and asks for
commands in the order in which their invocations are listed, for each of them at most once, and
for none at or below an operand that was passed over. -/
theorem Registry.asked_in_source_order (registry : Registry (StateM σ))
    (objects : Objects (StateM σ)) (e : Expression) (memory : Memory) (world : σ) :
    ∃ outcome memory' world' trail,
      EvalM.runAt (e.eval ((registry.host objects).memoized registry.debug)) memory world
        = (outcome, memory', world') ∧
      EvalM.runAt (e.evalAt ((registry.host objects).placedSteps registry.debug) []) memory
        (world, []) = (outcome, memory', world', trail) ∧
      trail.asked.Sublist e.callSites ∧
      (trail.asked.map Site.place).Nodup ∧
      (∀ site ∈ trail.asked, ∃ args negated chain,
        e.node? site.place = some (.invocation site.name args negated chain)) ∧
      ∀ q ∈ trail.passed, ∀ site ∈ trail.asked, ¬ q <+: site.place := by
  have htraced := Expression.evalAt_traced (registry.host objects) registry.debug [] e
  obtain ⟨outcome, memory', world', trail, heval, hevalAt, horderly⟩ := htraced memory world []
  rw [← Expression.eval_eq_evalWith] at heval
  refine ⟨outcome, memory', world', trail, heval, hevalAt, horderly.sublist,
    (horderly.sublist.map Site.place).nodup e.places_nodup, fun site hsite => ?_,
    horderly.settled⟩
  exact (Expression.node?_of_mem_callSites (horderly.sublist.subset hsite)).2

/-- The second operand decides, so the third is passed over, and the command around them is asked
for last. -/
theorem Registry.third_operand_not_asked :
    let first : Command (StateM Nat) :=
      ⟨"first", "", fun args => ExceptT.mk fun n => (.ok (args.headD .null), n + 1)⟩
    let registry := (Registry.empty false).register first
    let objects : Objects (StateM Nat) := ⟨pure 0, fun _ _ => pure none, fun _ _ => throw ""⟩
    let e : Expression := .call "first"
      [.operator .or
        [.call "first" [.literal .null], .call "first" [.literal (.bool true)],
          .call "first" [.literal (.string "a")]],
        .literal .null]
    ∃ memory trail,
      EvalM.runAt (e.eval ((registry.host objects).memoized registry.debug)) Memory.empty 0
        = (.ok (.bool true), memory, 3) ∧
      EvalM.runAt (e.evalAt ((registry.host objects).placedSteps registry.debug) []) Memory.empty
        (0, []) = (.ok (.bool true), memory, 3, trail) ∧
      trail.asked = [⟨[0, 0], "first"⟩, ⟨[0, 1], "first"⟩, ⟨[], "first"⟩] ∧
      trail.passed = [[0, 2]] ∧
      e.callSites
        = [⟨[0, 0], "first"⟩, ⟨[0, 1], "first"⟩, ⟨[0, 2], "first"⟩, ⟨[], "first"⟩] := by
  intro first registry objects e
  obtain ⟨outcome, memory, world, trail, heval, hevalAt, -⟩ :=
    asked_in_source_order registry objects e Memory.empty 0
  have hend : (EvalM.runAt (e.evalAt ((registry.host objects).placedSteps registry.debug) [])
      Memory.empty (0, [])).2.2
      = (3, [.asked ⟨[0, 0], "first"⟩, .asked ⟨[0, 1], "first"⟩, .passed [0, 2],
          .asked ⟨[], "first"⟩]) := by cbv
  have houtcome : (EvalM.runAt (e.eval ((registry.host objects).memoized registry.debug))
      Memory.empty 0).1 = .ok (.bool true) := by cbv
  rw [heval] at houtcome
  rw [hevalAt] at hend
  obtain rfl : outcome = _ := houtcome
  cases hend
  exact ⟨memory, _, heval, hevalAt, rfl, rfl, by cbv⟩

end WhenClause
