import Mathlib
import WhenClause.Proofs.Evaluation.Session

set_option autoImplicit false

/-! # Each call is made at most once

Over a whole session, whatever its evaluations ask and however they end, a call that succeeded is
never made again: its first result answers it from then on. The invariant (`Tracks`) says that the
memory holds exactly the successes of the history, in their order, and that the history allows
each of its events after the ones before it. -/

namespace WhenClause

/-! ## Histories -/

/-- The calls that succeeded when the registry was asked, with their results. -/
def successes (history : History) : List (CallKey × Value) :=
  history.filterMap fun event =>
    match event with
    | .invoked key (.ok v) => some (key, v)
    | _ => none

@[simp] theorem successes_append (h h' : History) :
    successes (h ++ h') = successes h ++ successes h' := List.filterMap_append

theorem mem_successes {history : History} {key : CallKey} {v : Value} :
    (key, v) ∈ successes history ↔ Event.invoked key (.ok v) ∈ history := by
  simp only [successes, List.mem_filterMap]
  constructor
  · rintro ⟨event, hmem, hevent⟩
    split at hevent
    · cases hevent
      exact hmem
    · cases hevent
  · exact fun h => ⟨_, h, rfl⟩

/-- An event may come after another: a call that succeeded is answered with its result from then
on, and never made again. -/
def Event.Allows (earlier later : Event) : Prop :=
  ∀ key v, earlier = .invoked key (.ok v) → key.same later.key = true →
    later = .called later.key (.ok v)

theorem CallKey.same_iff {k l : CallKey} : k.same l = true ↔ k.name = l.name ∧ k.text = l.text := by
  simp [CallKey.same]

theorem CallKey.same_refl (k : CallKey) : k.same k = true := same_iff.mpr ⟨rfl, rfl⟩

/-- In an allowed history no two successes share a key. -/
theorem successes_distinct {history : History} (h : history.Pairwise Event.Allows) :
    (successes history).Pairwise fun a b => a.1.same b.1 = false := by
  rw [successes, List.pairwise_filterMap]
  refine h.imp fun {earlier later} hallows a ha b hb => ?_
  split at ha <;> cases ha
  split at hb <;> cases hb
  rw [Bool.eq_false_iff]
  intro hsame
  exact Event.noConfusion (hallows _ _ rfl hsame)

/-! ## Memories -/

namespace Cache

/-- A result under a new key goes behind the others. -/
theorem insertEntry_of_new {key : CallKey} {v : Value} {entries : List (CallKey × Value)}
    (h : ∀ e ∈ entries, e.1.same key = false) :
    insertEntry key v entries = entries ++ [(key, v)] := by
  induction entries with
  | nil => rfl
  | cons e rest ih =>
      have hrest := ih fun e' he' => h e' (List.mem_cons_of_mem e he')
      simp only [insertEntry, h e List.mem_cons_self, Bool.false_eq_true, if_false, hrest,
        List.cons_append]

theorem insert_entries {c : Cache} {key : CallKey} {v : Value} (h : c.find? key = none) :
    (c.insert key v).entries = c.entries ++ [(key, v)] :=
  insertEntry_of_new (by simpa [find?] using h)

/-- The entry of a key is the first one that the search comes across. -/
theorem find?_of_mem {key first : CallKey} {v : Value} {entries : List (CallKey × Value)}
    (h : entries.Pairwise fun a b => a.1.same b.1 = false)
    (hmem : (first, v) ∈ entries) (hsame : first.same key = true) :
    entries.find? (fun e => e.1.same key) = some (first, v) := by
  induction entries with
  | nil => cases hmem
  | cons e rest ih =>
      obtain ⟨hhead, htail⟩ := List.pairwise_cons.mp h
      rcases List.mem_cons.mp hmem with rfl | hmem
      · exact List.find?_cons_of_pos hsame
      · -- An entry of the key in front would share its key with this one.
        have hother : e.1.same key = false := by
          rw [Bool.eq_false_iff]
          intro hkey
          rw [CallKey.same_iff] at hkey hsame
          have := CallKey.same_iff.mpr
            ⟨hkey.1.trans hsame.1.symm, hkey.2.trans hsame.2.symm⟩
          simp [hhead _ hmem] at this
        simp only [List.find?_cons, hother]
        exact ih htail hmem

/-- What is found is the one entry of the key. -/
theorem find?_eq_some_iff {c : Cache} (h : c.entries.Pairwise fun a b => a.1.same b.1 = false)
    (key : CallKey) (v : Value) :
    c.find? key = some v ↔ ∃ first, first.same key = true ∧ (first, v) ∈ c.entries := by
  unfold find?
  constructor
  · intro hfind
    obtain ⟨e, he, rfl⟩ := Option.map_eq_some_iff.mp hfind
    exact ⟨e.1, by simpa using List.find?_some he, List.mem_of_find?_eq_some he⟩
  · rintro ⟨first, hsame, hmem⟩
    rw [find?_of_mem h hmem hsame]
    rfl

end Cache

/-! ## The invariant -/

/-- A memory that holds the successes of a history, in which each event is allowed. -/
structure Tracks (cache : Cache) (history : History) : Prop where
  /-- The entries are the successes, in their order. -/
  entries : cache.entries = successes history
  /-- Each event is allowed after the ones before it. -/
  allowed : history.Pairwise Event.Allows

namespace Tracks

variable {cache : Cache} {history : History} {key : CallKey} {v : Value}

theorem start : Tracks Cache.empty [] := ⟨rfl, List.Pairwise.nil⟩

theorem distinct (h : Tracks cache history) :
    cache.entries.Pairwise fun a b => a.1.same b.1 = false := by
  rw [h.entries]
  exact successes_distinct h.allowed

/-- A result is found exactly when a call of the key succeeded with it. -/
theorem find?_iff (h : Tracks cache history) :
    cache.find? key = some v ↔
      ∃ first, first.same key = true ∧ Event.invoked first (.ok v) ∈ history := by
  rw [Cache.find?_eq_some_iff h.distinct, h.entries]
  simp only [mem_successes]

/-- A further event is allowed if it agrees with what is remembered of its call. -/
theorem allowed_snoc (h : Tracks cache history) {event : Event}
    (hevent : ∀ v, cache.find? event.key = some v → event = .called event.key (.ok v)) :
    (history ++ [event]).Pairwise Event.Allows := by
  refine List.pairwise_append.mpr ⟨h.allowed, List.pairwise_singleton _ _, ?_⟩
  intro earlier hmem later hlater
  obtain rfl := List.mem_singleton.mp hlater
  rintro first v rfl hsame
  exact hevent v (h.find?_iff.mpr ⟨first, hsame, hmem⟩)

theorem called (h : Tracks cache history) (hfind : cache.find? key = some v) :
    Tracks cache (history ++ [.called key (.ok v)]) where
  entries := by rw [h.entries, successes_append]; simp [successes]
  allowed := h.allowed_snoc fun w hw => by
    have hvw : some v = some w := hfind.symm.trans hw
    cases hvw
    rfl

/-- A call that is made for the first time, and fails. -/
theorem failed (h : Tracks cache history) (hfind : cache.find? key = none) (e : Error) :
    Tracks cache (history ++ [.invoked key (.error e)] ++ [.called key (.error e)]) := by
  have hasked : Tracks cache (history ++ [.invoked key (.error e)]) :=
    { entries := by rw [h.entries, successes_append]; simp [successes]
      allowed := h.allowed_snoc fun w hw => absurd (hfind.symm.trans hw) (by simp) }
  exact
    { entries := by rw [hasked.entries, successes_append _ [_]]; simp [successes]
      allowed := hasked.allowed_snoc fun w hw => absurd (hfind.symm.trans hw) (by simp) }

/-- A call that is made for the first time, and gives a result. -/
theorem succeeded (h : Tracks cache history) (hfind : cache.find? key = none) (v : Value) :
    Tracks (cache.insert key v)
      (history ++ [.invoked key (.ok v)] ++ [.called key (.ok v)]) := by
  have hasked : Tracks (cache.insert key v) (history ++ [.invoked key (.ok v)]) :=
    { entries := by rw [Cache.insert_entries hfind, h.entries, successes_append]; rfl
      allowed := h.allowed_snoc fun w hw => absurd (hfind.symm.trans hw) (by simp) }
  exact hasked.called (hasked.find?_iff.mpr ⟨key, CallKey.same_refl key, by simp⟩)

end Tracks

/-! ## One evaluation -/

/-- A computation keeps the invariant, and adds to the history only. -/
def keepsTrack (σ : Type) : Congruence (StateT Memory (StateT History (StateM σ)))
    (StateT Memory (StateT History (StateM σ))) where
  rel x _ := ∀ s : Moment σ, Tracks s.memory.cache s.history →
    Tracks (WatchM.runAt x s).2.memory.cache (WatchM.runAt x s).2.history ∧
      s.history <+: (WatchM.runAt x s).2.history
  pure_rel _ _ h := ⟨h, List.prefix_refl _⟩
  throw_rel _ _ h := ⟨h, List.prefix_refl _⟩
  bind_rel {α β x _ f _} hx hf s h := by
    rw [WatchM.runAt_bind]
    obtain ⟨htracks, hprefix⟩ := hx s h
    rcases hr : WatchM.runAt x s with ⟨outcome, t⟩
    rw [hr] at htracks hprefix
    cases outcome with
    | ok a =>
        obtain ⟨htracks', hprefix'⟩ := hf a t htracks
        exact ⟨htracks', hprefix.trans hprefix'⟩
    | error e => exact ⟨htracks, hprefix⟩

/-- Each thing that a watched host does keeps the invariant. -/
theorem watched_keepsTrack {σ : Type} (host : Host (StateM σ)) (verbose : Bool) :
    (host.watched verbose).Related (keepsTrack σ) (host.watched verbose) where
  invoke name args s h := by
    -- A call is answered from memory, or made with a result, or made and failed.
    cases hfind : s.memory.cache.find? (CallKey.of name args) with
    | some v =>
        rw [WatchM.runAt_hit host verbose hfind]
        exact ⟨h.called hfind, List.prefix_append _ _⟩
    | none =>
        rcases hr : (host.invoke name args).run.run s.world with ⟨outcome, world⟩
        cases outcome with
        | ok v =>
            rw [WatchM.runAt_success host verbose hfind hr]
            refine ⟨?_, (List.prefix_append _ _).trans (List.prefix_append _ _)⟩
            rw [Host.remembering_cache]
            exact h.succeeded hfind v
        | error e =>
            rw [WatchM.runAt_failure host verbose hfind hr]
            exact ⟨h.failed hfind e, (List.prefix_append _ _).trans (List.prefix_append _ _)⟩
  member v key s h := by
    rw [WatchM.runAt_member]
    exact ⟨h, List.prefix_refl _⟩
  call f name args s h := by
    rw [WatchM.runAt_call]
    exact ⟨h, List.prefix_refl _⟩

/-! ## Whole sessions -/

/-- A command that gives its arguments back, and counts how often it is run. -/
def Command.echo : Command (StateM Nat) where
  name := "echo"
  description := ""
  run args := ExceptT.mk fun n => (.ok (.array args), n + 1)

namespace Watched

variable {σ : Type} (objects : Objects (StateM σ))

theorem step_tracks {s : Watched σ} (h : Tracks s.moment.memory.cache s.moment.history)
    (action : Action σ) :
    Tracks (s.step objects action).moment.memory.cache (s.step objects action).moment.history ∧
      s.moment.history <+: (s.step objects action).moment.history := by
  cases action with
  | evaluate e =>
      exact Expression.eval_related
        (watched_keepsTrack (s.registry.host objects) s.registry.debug) e s.moment h
  | register command => exact ⟨h, List.prefix_refl _⟩

theorem run_tracks {s : Watched σ} (h : Tracks s.moment.memory.cache s.moment.history)
    (actions : List (Action σ)) :
    Tracks (s.run objects actions).moment.memory.cache (s.run objects actions).moment.history ∧
      s.moment.history <+: (s.run objects actions).moment.history := by
  induction actions generalizing s with
  | nil => exact ⟨h, List.prefix_refl _⟩
  | cons action rest ih =>
      obtain ⟨hstep, hprefix⟩ := step_tracks objects h action
      obtain ⟨hrest, hprefix'⟩ := ih hstep
      exact ⟨hrest, hprefix.trans hprefix'⟩

/-- **Each call is made at most once.** In every session, from its start on:

* the history is that of the session as it goes unwatched;
* no two calls that succeeded share a key;
* once a call succeeded, every later call of its key, in the same evaluation or another, is
  answered with that result, and the registry is not asked again;
* a result is remembered under a key exactly when a call of the key succeeded with it, so a
  failure leaves nothing behind;
* what is remembered stays, whatever is done later;
* the number of results is the number of keys with a call that succeeded. -/
theorem calls_succeed_at_most_once (registry : Registry (StateM σ)) (world : σ)
    (actions later : List (Action σ)) :
    let s := (start registry world).run objects actions
    let t := s.run objects later
    s.session = (Session.start registry world).run objects actions ∧
    (successes s.moment.history).Pairwise (fun a b => a.1.same b.1 = false) ∧
    s.moment.history.Pairwise Event.Allows ∧
    (∀ key v, s.moment.memory.cache.find? key = some v ↔
      ∃ first, first.same key = true ∧ Event.invoked first (.ok v) ∈ s.moment.history) ∧
    (∀ key v, s.moment.memory.cache.find? key = some v →
      t.moment.memory.cache.find? key = some v) ∧
    s.moment.memory.cache.size
      = ((successes s.moment.history).map fun call => (call.1.name, call.1.text)).dedup.length := by
  intro s t
  have hs : Tracks s.moment.memory.cache s.moment.history :=
    (run_tracks objects (s := start registry world) Tracks.start actions).1
  obtain ⟨ht, hprefix⟩ := run_tracks objects hs later
  refine ⟨session_run objects _ actions, successes_distinct hs.allowed, hs.allowed,
    fun key v => hs.find?_iff, ?_, ?_⟩
  · intro key v hfind
    obtain ⟨first, hsame, hmem⟩ := hs.find?_iff.mp hfind
    exact ht.find?_iff.mpr ⟨first, hsame, hprefix.subset hmem⟩
  · -- No two successes share a key, so none of them is counted twice.
    have hnodup :
        ((successes s.moment.history).map fun call => (call.1.name, call.1.text)).Nodup := by
      rw [List.Nodup, List.pairwise_map]
      refine (successes_distinct hs.allowed).imp fun {a b} hne heq => ?_
      rw [CallKey.same_iff.mpr (by simpa using heq)] at hne
      cases hne
    rw [hnodup.dedup, List.length_map, Cache.size, hs.entries]

/-- The second evaluation is answered from memory before it fails. Whatever comes later, the
first result stays. -/
theorem echo_succeeds_once :
    let objects : Objects (StateM Nat) := ⟨pure 0, fun _ _ => pure none, fun _ _ => throw ""⟩
    let s := (start ((Registry.empty false).register Command.echo) 0).run objects
      [.evaluate (.call "echo" [.literal .null]),
        .evaluate (.sequence [.call "echo" [.literal .null], .call "none" []])]
    successes s.moment.history = [(CallKey.of "echo" [.null], .array [.null])] ∧
      s.moment.history.Pairwise Event.Allows ∧
      ∀ later, (s.run objects later).moment.memory.cache.find? (CallKey.of "echo" [.null])
        = some (.array [.null]) := by
  intro objects s
  have hsuccesses :
      successes s.moment.history = [(CallKey.of "echo" [.null], .array [.null])] := by cbv
  have hfind : s.moment.memory.cache.find? (CallKey.of "echo" [.null])
      = some (.array [.null]) := by cbv
  have honce := calls_succeed_at_most_once objects ((Registry.empty false).register Command.echo) 0
    [.evaluate (.call "echo" [.literal .null]),
      .evaluate (.sequence [.call "echo" [.literal .null], .call "none" []])]
  obtain ⟨-, -, hallowed, -⟩ := honce []
  refine ⟨hsuccesses, hallowed, fun later => ?_⟩
  obtain ⟨-, -, -, -, hstays, -⟩ := honce later
  exact hstays _ _ hfind

end Watched

end WhenClause
