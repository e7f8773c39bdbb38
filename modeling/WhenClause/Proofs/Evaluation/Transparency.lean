import WhenClause.Proofs.Evaluation.AtMostOnce
import WhenClause.Proofs.Evaluation.CallKey
import WhenClause.Proofs.Evaluation.Running
import WhenClause.Proofs.Evaluation.Simulation
import WhenClause.Proofs.Value.Members

set_option autoImplicit false

/-! # Remembering changes no answer

Where the answer of a command depends on nothing but the call, an evaluator that remembers calls
gives the same truth values and the same errors as one that makes every call
(`Expression.check_memoized`). The two do not work with the same values: an answer from memory may
be a zero of the other sign, or another NaN, than a call would give now. But such values cannot be
told apart, and neither can what they are members, arguments or items of. -/

namespace WhenClause

open Stateful Value

variable {σ κ : Type}

/-! ## Commands that answer by the call alone -/

/-- The commands of the host give data, and their answer to a call depends on nothing but the key
of the call. The commands make no functions. What the serial numbers of functions depend on is
what `view` sees of the world, and running a command does not change it. -/
structure Host.Functional (host : Host (StateM σ)) (objects : Objects (StateM σ))
    (view : σ → κ) : Prop where
  member : host.member = objects.memberOf
  call : host.call = objects.callOf
  plain : ∀ name args world v, ((host.invoke name args).run.run world).1 = .ok v → v.Plain
  answers : ∀ name args args' world world',
    (CallKey.of name args).same (CallKey.of name args') = true →
      EndAlike (fun v w => v.same w = true) ((host.invoke name args).run.run world).1
        ((host.invoke name args').run.run world').1
  untouched : ∀ name args world, view ((host.invoke name args).run.run world).2 = view world
  fresh : ∀ world world', view world = view world' →
    (objects.fresh.run world).1 = (objects.fresh.run world').1 ∧
      view (objects.fresh.run world).2 = view (objects.fresh.run world').2

/-- What is remembered is what the host answers. -/
def Host.Answers (host : Host (StateM σ)) (cache : Cache) : Prop :=
  ∀ entry ∈ cache.entries, entry.2.Plain ∧ ∀ name args world,
    entry.1.same (CallKey.of name args) = true →
      EndAlike (fun v w => v.same w = true) (.ok entry.2)
        ((host.invoke name args).run.run world).1

theorem Host.answers_empty (host : Host (StateM σ)) : host.Answers Cache.empty :=
  fun _ h => absurd h List.not_mem_nil

/-! ## Values that two evaluations work with -/

/-- Two values that a chain goes on from: the same data, or one method of the same data. -/
inductive SameTarget : Value → Value → Prop
  | data {v w : Value} : SameData v w → SameTarget v w
  | method {v w : Value} (serial : Nat) {key : String} : SameData v w →
      v.member? key = some .method → SameTarget (.function serial key v) (.function serial key w)

/-- One method of the same data. -/
inductive SameCallee : Callee → Callee → Prop
  | method {v w : Value} (serial : Nat) {key : String} : SameData v w →
      v.member? key = some .method → SameCallee ⟨serial, key, v⟩ ⟨serial, key, w⟩

theorem SameTarget.same {v w : Value} (h : SameTarget v w) : v.same w = true := by
  cases h with
  | data hdata => exact hdata.same
  | method serial _ _ => exact beq_self_eq_true serial

/-- Values that are the same may stand for each other. -/
def Likeness.sameness : Likeness where
  value v w := v.same w = true
  target := SameTarget
  callee := SameCallee
  value_of_target := SameTarget.same
  literal _ := same_refl _
  array := same_array.mpr
  record := same_record.mpr
  truthy := truthy_eq_of_same
  holds op hv hw := op.holds_eq_of_same hv hw

/-- The methods among what a look-up finds. -/
theorem SameTarget.callee? {found found' : Option Value} (h : Option.Rel SameTarget found found') :
    Option.Rel SameCallee (found.bind Value.callee?) (found'.bind Value.callee?) := by
  cases h with
  | none => exact .none
  | some htarget =>
      cases htarget with
      | @data v w hdata =>
          have hcallee : ∀ {v : Value}, v.Plain → v.callee? = none := by
            intro v hv
            cases v <;> first | rfl | exact hv.elim
          rw [Option.bind_some, Option.bind_some, hcallee hdata.left, hcallee hdata.right]
          exact .none
      | method serial hdata hmethod => exact .some (.method serial hdata hmethod)

/-! ## Members of data -/

namespace Objects

variable (objects : Objects (StateM σ)) {v : Value} {key : String}

theorem memberOf_none (hv : v.Plain) (h : v.member? key = none) :
    objects.memberOf v key = pure none := by
  cases v <;> first | exact hv.elim | simp only [memberOf, h]

theorem memberOf_value (hv : v.Plain) {x : Value} (h : v.member? key = some (.value x)) :
    objects.memberOf v key = pure (some x) := by
  cases v <;> first | exact hv.elim | simp only [memberOf, h]

theorem memberOf_method (hv : v.Plain) (h : v.member? key = some .method) :
    objects.memberOf v key = objects.fresh >>= fun serial =>
      pure (some (.function serial key v)) := by
  cases v <;> first | exact hv.elim | simp only [memberOf, h]

end Objects

theorem EvalM.found_endAlike {α β : Type} {P : α → β → Prop} {kind : MemberKind} {key : String}
    {v w : Value} (h : v.same w = true) {a : Option α} {b : Option β} (hab : Option.Rel P a b) :
    EndAlike P (EvalM.found kind key v a) (EvalM.found kind key w b) := by
  cases hab with
  | none => exact congrArg (Error.unknownMember kind key) (text_eq_of_same h)
  | some hP => exact hP

/-! ## Evaluations that remember nothing -/

section

variable {α β : Type} {world world' : σ}

theorem run_bind_ok {x : ExceptT Error (StateM σ) α} {a : α} (h : x.run.run world = (.ok a, world'))
    (f : α → ExceptT Error (StateM σ) β) : (x >>= f).run.run world = (f a).run.run world' := by
  rw [ExceptT.run_bind, StateT.run_bind, h]
  rfl

theorem run_bind_error {x : ExceptT Error (StateM σ) α} {e : Error}
    (h : x.run.run world = (.error e, world')) (f : α → ExceptT Error (StateM σ) β) :
    (x >>= f).run.run world = (.error e, world') := by
  rw [ExceptT.run_bind, StateT.run_bind, h]
  rfl

theorem run_foundOr (kind : MemberKind) (key : String) (target : Value) (member : Option α) :
    (Value.foundOr kind key target member : ExceptT Error (StateM σ) α).run.run world
      = (EvalM.found kind key target member, world) := by
  cases member <;> rfl

variable (host : Host (StateM σ))

theorem run_property (target : Value) (key : String) :
    (host.steps.property target key).run.run world =
      (EvalM.found .property key target ((host.member target key).run world).1,
        ((host.member target key).run world).2) :=
  (run_bind_ok rfl _).trans (run_foundOr _ _ _ _)

theorem run_method (target : Value) (name : String) :
    (host.steps.method target name).run.run world =
      (EvalM.found .method name target
        (((host.member target name).run world).1.bind Value.callee?),
        ((host.member target name).run world).2) :=
  (run_bind_ok rfl _).trans (run_foundOr _ _ _ _)

theorem run_call (name : String) (f : Callee) (args : List Value) :
    (host.steps.call name f args).run.run world =
      (((host.call f args).run.run world).1.mapError (Error.command name),
        ((host.call f args).run.run world).2) := rfl

end

/-! ## Steps with and without memory -/

/-- A computation that remembers ends as one that does not: with related results, or with the same
error. What is remembered stays what the host answers, and functions get the same serial numbers
on both sides. -/
def transparent (host : Host (StateM σ)) (view : σ → κ) :
    Simulation (StateT Memory (StateM σ)) (StateM σ) where
  rel P x y := ∀ memory world world', host.Answers memory.cache → view world = view world' →
    EndAlike P (EvalM.runAt x memory world).1 (y.run.run world').1 ∧
      host.Answers (EvalM.runAt x memory world).2.1.cache ∧
      view (EvalM.runAt x memory world).2.2 = view (y.run.run world').2
  throws _ := True
  pure_rel h _ _ _ hmemory hview := ⟨h, hmemory, hview⟩
  throw_rel _ _ _ _ hmemory hview := ⟨rfl, hmemory, hview⟩
  bind_rel {α β γ δ P Q x y f g} hx hf memory world world' hmemory hview := by
    have h := hx memory world world' hmemory hview
    rcases hrx : EvalM.runAt x memory world with ⟨outcome, memory₁, world₁⟩
    rcases hry : y.run.run world' with ⟨outcome', world₁'⟩
    rw [hrx, hry] at h
    obtain ⟨houtcome, hmemory₁, hview₁⟩ := h
    rcases houtcome.elim with ⟨a, b, rfl, rfl, hab⟩ | ⟨e, rfl, rfl⟩
    · rw [EvalM.runAt_bind_ok hrx, run_bind_ok hry]
      exact hf a b hab memory₁ world₁ world₁' hmemory₁ hview₁
    · rw [EvalM.runAt_bind_error hrx, run_bind_error hry]
      exact ⟨rfl, hmemory₁, hview₁⟩

namespace Host.Functional

variable {host : Host (StateM σ)} {objects : Objects (StateM σ)} {view : σ → κ}

/-- The members of values that may stand for each other may do so too. -/
theorem member_alike (h : host.Functional objects view) {v w : Value} (hvw : SameTarget v w)
    (key : String) {world world' : σ} (hview : view world = view world') :
    Option.Rel SameTarget ((host.member v key).run world).1 ((host.member w key).run world').1 ∧
      view ((host.member v key).run world).2 = view ((host.member w key).run world').2 := by
  rw [h.member]
  cases hvw with
  | method => exact ⟨.none, hview⟩
  | data hdata =>
      rcases member?_cases hdata key with ⟨hv, hw⟩ | ⟨x, y, hv, hw, hxy⟩ | ⟨hv, hw⟩
      · rw [objects.memberOf_none hdata.left hv, objects.memberOf_none hdata.right hw]
        exact ⟨.none, hview⟩
      · rw [objects.memberOf_value hdata.left hv, objects.memberOf_value hdata.right hw]
        exact ⟨.some (.data hxy), hview⟩
      · -- Each side makes a new function, and the two get one serial number.
        obtain ⟨hserial, hview'⟩ := h.fresh world world' hview
        rw [objects.memberOf_method hdata.left hv, objects.memberOf_method hdata.right hw]
        refine ⟨.some ?_, hview'⟩
        show SameTarget (.function (objects.fresh.run world).1 key v)
          (.function (objects.fresh.run world').1 key w)
        rw [hserial]
        exact .method _ hdata hv

/-- A call is answered alike, from memory or not. -/
theorem invoke_alike (h : host.Functional objects view) (verbose : Bool) (name : String)
    {args args' : List Value} (hargs : List.Forall₂ (fun v w => v.same w = true) args args') :
    (transparent host view).rel SameTarget ((host.memoized verbose).invoke name args)
      (host.invoke name args') := by
  intro memory world world' hmemory hview
  have htext : CallKey.argumentText args = CallKey.argumentText args' :=
    (CallKey.argumentText_eq_iff args args').mpr hargs
  have hkey : (CallKey.of name args).same (CallKey.of name args') = true :=
    CallKey.same_iff.mpr ⟨rfl, htext⟩
  have huntouched := h.untouched name args' world'
  cases hfind : memory.cache.find? (CallKey.of name args) with
  | some v =>
      rw [EvalM.runAt_hit host verbose hfind]
      obtain ⟨entry, hentry, rfl⟩ := Option.map_eq_some_iff.mp hfind
      have hsame : entry.1.same (CallKey.of name args) = true := by
        simpa using List.find?_some hentry
      obtain ⟨hplain, hanswer⟩ := hmemory entry (List.mem_of_find?_eq_some hentry)
      have hend := hanswer name args' world' (by
        rw [CallKey.same_iff] at hsame hkey ⊢
        exact ⟨hsame.1.trans hkey.1, hsame.2.trans hkey.2⟩)
      refine ⟨hend.mono fun _ w hv hw hvw => ?_, hmemory, hview.trans huntouched.symm⟩
      cases hv
      exact .data ⟨hplain, h.plain name args' world' w hw, hvw⟩
  | none =>
      have hend := h.answers name args args' world world' hkey
      have hview' : view ((host.invoke name args).run.run world).2
          = view ((host.invoke name args').run.run world').2 :=
        (h.untouched name args world).trans (hview.trans huntouched.symm)
      rcases hr : (host.invoke name args).run.run world with ⟨outcome, world₁⟩
      rw [hr] at hend hview'
      have htargets : EndAlike SameTarget outcome ((host.invoke name args').run.run world').1 :=
        hend.mono fun v w hv hw hvw => .data
          ⟨h.plain name args world v ((congrArg Prod.fst hr).trans hv),
            h.plain name args' world' w hw, hvw⟩
      cases outcome with
      | ok v =>
          rw [EvalM.runAt_success host verbose hfind hr]
          refine ⟨htargets, ?_, hview'⟩
          -- The new result is what the host answers to every call of the same key.
          rw [Host.remembering_cache, Host.Answers, Cache.insert_entries hfind]
          refine List.forall_mem_append.mpr ⟨hmemory, List.forall_mem_singleton.mpr ?_⟩
          refine ⟨h.plain name args world v (congrArg Prod.fst hr), fun other args₂ world₂ hsame => ?_⟩
          obtain rfl : name = other := (CallKey.same_iff.mp hsame).1
          have hother := h.answers name args args₂ world world₂ hsame
          rw [hr] at hother
          exact hother
      | error e =>
          rw [EvalM.runAt_failure host verbose hfind hr]
          exact ⟨htargets, hmemory, hview'⟩

/-- Every step ends alike with memory and without. -/
theorem steps_simulated (h : host.Functional objects view) (verbose : Bool) :
    (host.memoized verbose).steps.Simulated (transparent host view) Likeness.sameness
      host.steps where
  invoke name _ hargs := h.invoke_alike verbose name hargs
  property {v w} key hvw memory world world' hmemory hview := by
    obtain ⟨hmember, hview'⟩ := h.member_alike hvw key hview
    rw [EvalM.runAt_property, run_property]
    exact ⟨EvalM.found_endAlike hvw.same hmember, hmemory, hview'⟩
  method {v w} name hvw memory world world' hmemory hview := by
    obtain ⟨hmember, hview'⟩ := h.member_alike hvw name hview
    rw [EvalM.runAt_method, run_method]
    exact ⟨EvalM.found_endAlike hvw.same (SameTarget.callee? hmember), hmemory, hview'⟩
  call {f g args args'} name hfg hargs memory world world' hmemory hview := by
    rw [EvalM.runAt_call, run_call, h.call]
    cases hfg with
    | @method v w serial key hdata hmethod =>
        obtain ⟨outcome, outcome', hv, hw, hend⟩ := applyMethod?_of_same hdata hmethod hargs
        have hcallOf : ∀ {x : Value} {as : List Value} {r : Except String Value},
            x.applyMethod? key as = some r →
              objects.callOf ⟨serial, key, x⟩ as = ExceptT.mk (pure r) := by
          intro x as r hr
          unfold Objects.callOf
          rw [hr]
        rw [hcallOf hv, hcallOf hw]
        exact ⟨(hend.mapError _).mono fun _ _ _ _ => .data, hmemory, hview⟩

end Host.Functional

/-! ## Truth values -/

namespace Expression

/-- **Remembering changes no answer.** Where the answers of a host depend on the calls alone, an
evaluator that remembers them checks every expression with the same outcome, the same truth value
or the same error, as one that makes every call. What it remembers afterwards is still what the
host answers, so the same holds of every later check with the same memory. -/
theorem check_memoized {host : Host (StateM σ)} {objects : Objects (StateM σ)} {view : σ → κ}
    (h : host.Functional objects view) (verbose : Bool) (e : Expression) {memory : Memory}
    (hmemory : host.Answers memory.cache) (world : σ) :
    (EvalM.runAt (e.check (host.memoized verbose)) memory world).1
        = ((e.check host).run.run world).1 ∧
      host.Answers (EvalM.runAt (e.check (host.memoized verbose)) memory world).2.1.cache := by
  have hcheck : (transparent host view).rel Eq (e.check (host.memoized verbose)) (e.check host) := by
    unfold check
    rw [eval_eq_evalWith, eval_eq_evalWith]
    refine (transparent host view).bind_rel
      (evalWith_simulated (h.steps_simulated verbose) e fun _ _ _ _ => trivial) ?_
    intro v w hvw
    rw [truthy_eq_of_same hvw]
    exact (transparent host view).pure_rel rfl
  obtain ⟨hend, hanswers, -⟩ := hcheck memory world world hmemory rfl
  exact ⟨hend.eq, hanswers⟩

/-- A command that gives zeros of either sign in turn. The second call has a member behind it that
no zero has. -/
theorem check_memoized_zeros :
    let objects : Objects (StateM (Nat × Bool)) :=
      ⟨fun s => (s.1, s.1 + 1, s.2), fun _ _ => pure none, fun _ _ => throw ""⟩
    let host : Host (StateM (Nat × Bool)) :=
      ⟨fun _ _ => ExceptT.mk fun s => (.ok (.number (Number.ofMagnitude s.2 0)), s.1, !s.2),
        objects.memberOf, objects.callOf⟩
    let e : Expression := .operator .equal
      [.call "zero" [], .call "zero" [.invocation "zero" [] false [.property "length"]]]
    host.Functional objects Prod.fst ∧ host.Answers Memory.empty.cache ∧
      (EvalM.runAt (e.check (host.memoized false)) Memory.empty (0, true)).1
        = ((e.check host).run.run (0, true)).1 := by
  intro objects host e
  have hzeros : ∀ negative negative', (Value.number (Number.ofMagnitude negative 0)).same
      (.number (Number.ofMagnitude negative' 0)) = true := by decide +kernel
  have hhost : host.Functional objects Prod.fst :=
    { member := rfl
      call := rfl
      plain := by
        rintro _ _ _ _ ⟨⟩
        trivial
      answers := fun _ _ _ world world' _ => hzeros world.2 world'.2
      untouched := fun _ _ _ => rfl
      fresh := fun _ _ hview => ⟨hview, congrArg (· + 1) hview⟩ }
  have hmemory := host.answers_empty
  exact ⟨hhost, hmemory, (check_memoized hhost false e hmemory (0, true)).1⟩

end Expression

end WhenClause
