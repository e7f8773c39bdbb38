import WhenClause.Proofs.Evaluation.CallKey
import WhenClause.Proofs.Evaluation.Negation
import WhenClause.Proofs.Evaluation.ReservedNames
import WhenClause.Proofs.Expression.Fields
import WhenClause.Proofs.Value.Indiscernible

set_option autoImplicit false

/-! # What a record holds is read back

Let the command `first` give back its first argument. A text that is put into a record and taken
out again by way of `first` gives what the text gives, or fails as it fails, and calls the same
other commands (`fields_read_back`). Since calls are remembered, the record that comes back may be
an earlier one that is the same. -/

namespace WhenClause

open WhenClause.Lexer

variable {σ : Type}

/-! ## What an evaluation keeps -/

/-- A computation keeps a property of what is remembered. -/
def keeping (σ : Type) (kept : Cache → Prop) :
    Congruence (StateT Memory (StateM σ)) (StateT Memory (StateM σ)) where
  rel x _ := ∀ memory world, kept memory.cache → kept (EvalM.runAt x memory world).2.1.cache
  pure_rel _ _ _ h := h
  throw_rel _ _ _ h := h
  bind_rel {α β x y f g} hx hf memory world h := by
    have hkept := hx memory world h
    rcases hrun : EvalM.runAt x memory world with ⟨outcome, memory', world'⟩
    rw [hrun] at hkept
    cases outcome with
    | ok a =>
        rw [EvalM.runAt_bind_ok hrun]
        exact hf a memory' world' hkept
    | error e =>
        rw [EvalM.runAt_bind_error hrun]
        exact hkept

/-- What every new result keeps, every evaluation keeps. -/
theorem Host.memoized_keeping {host : Host (StateM σ)} {kept : Cache → Prop} (verbose : Bool)
    (h : ∀ name args world v world' cache, (host.invoke name args).run.run world = (.ok v, world') →
      cache.find? (CallKey.of name args) = none → kept cache →
        kept (cache.insert (CallKey.of name args) v)) :
    (host.memoized verbose).Related (keeping σ kept) (host.memoized verbose) where
  invoke name args memory world hkept := by
    cases hfind : memory.cache.find? (CallKey.of name args) with
    | some v =>
        rw [EvalM.runAt_hit host verbose hfind]
        exact hkept
    | none =>
        rcases hinvoke : (host.invoke name args).run.run world with ⟨outcome, world'⟩
        cases outcome with
        | ok v =>
            rw [EvalM.runAt_success host verbose hfind hinvoke, Host.remembering_cache]
            exact h name args world v world' memory.cache hinvoke hfind hkept
        | error e =>
            rw [EvalM.runAt_failure host verbose hfind hinvoke]
            exact hkept
  member _ _ _ _ hkept := hkept
  call _ _ _ _ _ hkept := hkept

/-! ## A command that gives back its first argument -/

/-- The command `first` gives back its first argument, whatever it does beside. -/
def Registry.GivesFirst (registry : Registry (StateM σ)) : Prop :=
  ∃ command, registry.get? "first" = some command ∧
    ∀ v rest world, ((command.run (v :: rest)).run.run world).1 = .ok v

/-- What is remembered of `first` are first arguments. -/
def Cache.GivesFirst (cache : Cache) : Prop :=
  ∀ entry ∈ cache.entries, ∃ name args, entry.1 = CallKey.of name args ∧
    (name = "first" → ∀ v ∈ args.head?, entry.2 = v)

/-- A result of `first` that is found is the first argument of a call of the same key. -/
theorem Cache.GivesFirst.found {cache : Cache} (h : cache.GivesFirst) {v w : Value}
    {rest : List Value} (hfind : cache.find? (CallKey.of "first" (v :: rest)) = some w) :
    w.same v = true := by
  obtain ⟨entry, hentry, rfl⟩ := Option.map_eq_some_iff.mp hfind
  obtain ⟨name, args, hkey, hfirst⟩ := h entry (List.mem_of_find?_eq_some hentry)
  have hsame : entry.1.same (CallKey.of "first" (v :: rest)) = true := by
    simpa using List.find?_some hentry
  rw [hkey, CallKey.same_of_iff] at hsame
  obtain ⟨rfl, hargs⟩ := hsame
  cases hargs with
  | cons hav _ =>
      rw [hfirst rfl _ rfl]
      exact hav

theorem Registry.GivesFirst.evaluated {registry : Registry (StateM σ)} (h : registry.GivesFirst)
    (objects : Objects (StateM σ)) (e : Expression) (world : σ) :
    (EvalM.runAt (e.eval ((registry.host objects).memoized registry.debug))
      Memory.empty world).2.1.cache.GivesFirst := by
  obtain ⟨command, hcommand, hruns⟩ := h
  refine Expression.eval_related (R := keeping σ Cache.GivesFirst)
    (Host.memoized_keeping registry.debug ?_) e Memory.empty world
    fun _ hentry => absurd hentry List.not_mem_nil
  intro name args world v world' cache hinvoke hfind hkept
  rw [Cache.GivesFirst, Cache.insert_entries hfind]
  refine List.forall_mem_append.mpr ⟨hkept, List.forall_mem_singleton.mpr ⟨name, args, rfl, ?_⟩⟩
  -- A new result of `first` is the argument itself.
  rintro rfl a ha
  obtain ⟨rest, rfl⟩ := List.head?_eq_some_iff.mp ha
  have hcall := Registry.run_command hcommand (a :: rest) world
  rw [hruns] at hcall
  cases hinvoke.symm.trans hcall
  rfl

/-! ## Evaluating a field -/

/-- A field is evaluated as what it holds, then the call, and then the look-up. -/
theorem Expression.evalWith_fieldOf {m : Type → Type} [Monad m] [LawfulMonad m] (steps : Steps m)
    (key : String) (e : Expression) :
    evalWith steps (fieldOf key e) = evalWith steps e >>= fun v =>
      steps.invoke "first" [.record [(key, v)]] >>= fun w => steps.property w key := by
  have hname : Operator.ofName? "first" = none := by decide +kernel
  rw [fieldOf, evalWith_command steps hname]
  simp [itemsWith, evalWith, entriesWith, chainWith, Dictionary.insert, Value.negateIf]

namespace Registry

variable {registry : Registry (StateM σ)} {objects : Objects (StateM σ)} {memory : Memory}
  {world : σ} {earlier : Deeds}

/-- The only field of a record is looked up. -/
theorem runAt_noting_field (key : String) (v : Value) :
    EvalM.runAt ((registry.notingSteps objects).property (.record [(key, v)]) key) memory
      (world, earlier) = (.ok v, memory, world,
        earlier ++ [.lookedUp .property key (.record [(key, v)]) true]) := by
  have hmember : objects.memberOf (.record [(key, v)]) key = pure (some v) := by
    simp [Objects.memberOf, Value.member?, Dictionary.find?]
  rw [notingSteps, runAt_withMemory, run_noted, hmember]
  rfl

/-- Called on a value, `first` gives the same value, and no other command is called. -/
theorem GivesFirst.runAt_noting (h : registry.GivesFirst) (objects : Objects (StateM σ))
    {memory : Memory} (hmemory : memory.cache.GivesFirst) (world : σ) (earlier : Deeds) (v : Value)
    (rest : List Value) :
    ∃ w memory' world' deeds,
      EvalM.runAt ((registry.notingSteps objects).invoke "first" (v :: rest)) memory
        (world, earlier) = (.ok w, memory', world', earlier ++ deeds) ∧
      w.same v = true ∧ ∀ deed ∈ deeds, deed.command? = some "first" := by
  cases hfind : memory.cache.find? (CallKey.of "first" (v :: rest)) with
  | some w =>
      obtain ⟨memory', hhit⟩ : ∃ memory', EvalM.runAt
          ((registry.notingSteps objects).invoke "first" (v :: rest)) memory (world, earlier)
            = (.ok w, memory', world, earlier) := ⟨_, EvalM.runAt_hit _ _ hfind⟩
      refine ⟨w, memory', world, [], ?_, hmemory.found hfind, List.forall_mem_nil _⟩
      rw [List.append_nil]
      exact hhit
  | none =>
      obtain ⟨command, hcommand, hruns⟩ := h
      obtain ⟨outcome, world', deed, hrun, hnoting, htells⟩ :=
        registry.run_noting objects "first" (v :: rest) world
      have hcall := run_command hcommand (v :: rest) world
      rw [hruns] at hcall
      cases hrun.symm.trans hcall
      exact ⟨v, _, _, [deed], EvalM.runAt_success _ _ hfind (hnoting earlier), Value.same_refl v,
        List.forall_mem_singleton.mpr htells.command?⟩

end Registry

/-- What is the same as a record of one field is a record of that field. -/
theorem Value.eq_record_of_same {w v : Value} {key : String}
    (h : w.same (.record [(key, v)]) = true) :
    ∃ v', w = .record [(key, v')] ∧ v'.same v = true := by
  cases w with
  | record fields =>
      cases same_record.mp h with
      | cons hfield hrest =>
          cases hrest
          obtain ⟨rfl, hv⟩ := hfield
          exact ⟨_, rfl, hv⟩
  | _ => cases h

/-! ## What comes back -/

/-- The calls of commands other than the one of a name, with their outcomes. -/
def Deeds.callsBeside (name : String) (deeds : Deeds) : Deeds :=
  deeds.filter fun deed => deed.command?.any (· != name)

/-- A fresh evaluator gives the same value for both expressions, or the same error, and makes the
same calls of commands, the one of a name left out. -/
def Registry.AlikeBeside (registry : Registry (StateM σ)) (objects : Objects (StateM σ))
    (name : String) (e e' : Expression) (world : σ) : Prop :=
  let evaluator := (registry.host objects).memoized registry.debug
  let noting := registry.notingSteps objects
  ∃ outcome memory₁ world₁ deeds outcome' memory₂ world₂ deeds',
    EvalM.runAt (e.eval evaluator) Memory.empty world = (outcome, memory₁, world₁) ∧
    EvalM.runAt (e.evalWith noting) Memory.empty (world, []) = (outcome, memory₁, world₁, deeds) ∧
    EvalM.runAt (e'.eval evaluator) Memory.empty world = (outcome', memory₂, world₂) ∧
    EvalM.runAt (e'.evalWith noting) Memory.empty (world, [])
      = (outcome', memory₂, world₂, deeds') ∧
    EndAlike (fun v w => v.same w = true) outcome outcome' ∧
    deeds'.callsBeside name = deeds.callsBeside name

theorem Registry.GivesFirst.field {registry : Registry (StateM σ)} (h : registry.GivesFirst)
    (objects : Objects (StateM σ)) (key : String) (e : Expression) (world : σ) :
    registry.AlikeBeside objects "first" e (fieldOf key e) world := by
  obtain ⟨outcome, memory₁, world₁, deeds, hrun, hnoted, -⟩ :=
    FailStop.of_accounting (registry.eval_accounted objects e) Memory.empty world
  obtain ⟨outcome', memory₂, world₂, deeds', hrun', hnoted', -⟩ :=
    FailStop.of_accounting (registry.eval_accounted objects (fieldOf key e)) Memory.empty world
  refine ⟨outcome, memory₁, world₁, deeds, outcome', memory₂, world₂, deeds', hrun, hnoted, hrun',
    hnoted', ?_⟩
  rw [Expression.evalWith_fieldOf] at hnoted'
  cases outcome with
  | error err =>
      rw [EvalM.runAt_bind_error hnoted] at hnoted'
      cases hnoted'
      exact ⟨rfl, rfl⟩
  | ok v =>
      have hmemory := h.evaluated objects e world
      rw [hrun] at hmemory
      obtain ⟨w, memory', world', called, hcall, hsame, hcalled⟩ :=
        h.runAt_noting objects hmemory world₁ deeds (.record [(key, v)]) []
      -- The record that comes back may be an earlier one, which holds the same.
      obtain ⟨v', rfl, hv⟩ := Value.eq_record_of_same hsame
      rw [EvalM.runAt_bind_ok hnoted, EvalM.runAt_bind_ok hcall, Registry.runAt_noting_field]
        at hnoted'
      cases hnoted'
      refine ⟨Value.same_symm hv, ?_⟩
      have hnone : called.callsBeside "first" = [] :=
        List.filter_eq_nil_iff.mpr fun deed hdeed => by simp [hcalled deed hdeed]
      rw [Deeds.callsBeside, List.filter_append, List.filter_append]
      show _ ++ called.callsBeside "first" ++ [] = _
      rw [hnone, List.append_nil, List.append_nil]
      rfl

/-- **What a record holds is read back**, for every text and every key that a record takes without
quotes, unless the key is the spelling of a literal: such a key is no member name, and the text is
refused. -/
theorem fields_read_back {t key : String} {e : Expression} (ht : Expression.parse t = .ok e)
    (hquote : ∀ c ∈ key.toList, ¬ IsQuote c)
    (hkey : Expression.parse (recordText key t) = .ok (.record [(key, e)]))
    {registry : Registry (StateM σ)} (hfirst : registry.GivesFirst) (objects : Objects (StateM σ))
    (world : σ) :
    (key ∉ ["true", "false", "null"] → Expression.parse (fieldText key t) = .ok (fieldOf key e) ∧
      registry.AlikeBeside objects "first" e (fieldOf key e) world) ∧
    (key ∈ ["true", "false", "null"] → Expression.parse (fieldText key t) = .error (.malformed
      s!"Expected member name after '.', found '{key}'" key
      (byteLength (callText key t).toList))) := by
  have hspelling := Expression.isSpelling_of_parse hquote hkey
  refine ⟨fun hliteral => ⟨Expression.parse_fieldText ?_ ht, hfirst.field objects key e world⟩,
    fun hliteral => Expression.parse_fieldText_literal hspelling ?_ ht⟩
  · rw [isWord_eq, hspelling]
    simpa [and_assoc] using hliteral
  · simp only [List.mem_cons, List.not_mem_nil, or_false] at hliteral
    rcases hliteral with rfl | rfl | rfl <;> rfl

/-- A tick, counted from the state of the clock, is put into a record and read back. -/
theorem tick_read_back :
    let tick : Command (StateM Nat) :=
      ⟨"tick", "", fun _ => ExceptT.mk fun n => (.ok (.handle ⟨"tick", "", n⟩), n + 1)⟩
    let first : Command (StateM Nat) := ⟨"first", "", fun args => pure (args.headD .null)⟩
    let registry := ((Registry.empty false).register tick).register first
    let objects : Objects (StateM Nat) := ⟨pure 0, fun _ _ => pure none, fun _ _ => throw ""⟩
    Expression.parse "tick()" = .ok (.call "tick" []) ∧
    (∀ c ∈ "at".toList, ¬ IsQuote c) ∧
    Expression.parse (recordText "at" "tick()") = .ok (.record [("at", .call "tick" [])]) ∧
    registry.GivesFirst ∧ "at" ∉ ["true", "false", "null"] ∧
    Expression.parse (fieldText "at" "tick()") = .ok (fieldOf "at" (.call "tick" [])) ∧
    registry.AlikeBeside objects "first" (.call "tick" []) (fieldOf "at" (.call "tick" [])) 0 := by
  intro tick first registry objects
  have ht : Expression.parse "tick()" = .ok (.call "tick" []) := by cbv
  have hquote : ∀ c ∈ "at".toList, ¬ IsQuote c := by simp [IsQuote]
  have hkey : Expression.parse (recordText "at" "tick()")
      = .ok (.record [("at", .call "tick" [])]) := by cbv
  have hregistered : registry.get? "first" = some first :=
    (Dictionary.find?_insert _ _ _ _).trans (if_pos rfl)
  have hfirst : registry.GivesFirst := ⟨first, hregistered, fun _ _ _ => rfl⟩
  have hword : "at" ∉ ["true", "false", "null"] := by simp
  exact ⟨ht, hquote, hkey, hfirst, hword,
    (fields_read_back ht hquote hkey hfirst objects 0).1 hword⟩

/-- The record of the number 1 has a field `true`, and the text that reads it is refused. -/
theorem literal_key_refused :
    ∃ e, Expression.parse "1" = .ok e ∧
      Expression.parse "\x7btrue: 1\x7d" = .ok (.record [("true", e)]) ∧
      Expression.parse "first(\x7btrue: 1\x7d).true"
        = .error (.malformed "Expected member name after '.', found 'true'" "true" 17) := by
  have hone : Expression.parse "1" = .ok (.literal (.number (Number.ofNat 1))) := by cbv
  have hspelling : isSpelling "true" = true := rfl
  have hrecord : recordText "true" "1" = "\x7btrue: 1\x7d" := by decide +kernel
  have hfield : fieldText "true" "1" = "first(\x7btrue: 1\x7d).true" := by decide +kernel
  have haccepted := Expression.parse_recordText hspelling hone
  have hrefused := Expression.parse_fieldText_literal hspelling rfl hone
  rw [hrecord] at haccepted
  rw [hfield] at hrefused
  exact ⟨_, hone, haccepted, hrefused⟩

end WhenClause
