import Mathlib.Data.List.Nodup
import WhenClause.Expression.Basic

set_option autoImplicit false

/-! # Places in an expression

A node of an expression is found by its place: the way from the root down to it, one number for
each step, where the parts of a node are numbered in their order. The parts of an invocation are
its arguments, and then the arguments of the methods in its chain, one method after the other.

The calls of commands in an expression are listed by their places (`Expression.callSites`):
arguments before their command, a command before the arguments of the methods in its chain, and
otherwise in the order in which they are written. No place is listed twice
(`Expression.places_nodup`), and each is that of an invocation of its name
(`Expression.node?_of_mem_callSites`). -/

namespace WhenClause

/-! ## Ways from the root -/

/-- The way from the root of an expression to a node: the number of a part for each step. -/
abbrev Place : Type := List Nat

namespace Place

/-- A place in one of the parts of the node at `place` from number `a` up to `b`. -/
def Within (place : Place) (a b : Nat) (q : Place) : Prop :=
  ∃ k, a ≤ k ∧ k < b ∧ place ++ [k] <+: q

variable {place p q : Place} {a b c k : Nat}

theorem within_part (h : place ++ [k] <+: q) : Within place k (k + 1) q :=
  ⟨k, Nat.le_refl k, Nat.lt_succ_self k, h⟩

theorem Within.mono {a' b' : Nat} (h : Within place a b q) (ha : a' ≤ a) (hb : b ≤ b') :
    Within place a' b' q := by
  obtain ⟨k, hak, hkb, hk⟩ := h
  exact ⟨k, Nat.le_trans ha hak, Nat.lt_of_lt_of_le hkb hb, hk⟩

/-- What lies below a place in a part lies in the part. -/
theorem Within.below (h : Within place a b p) (hpq : p <+: q) : Within place a b q := by
  obtain ⟨k, hak, hkb, hk⟩ := h
  exact ⟨k, hak, hkb, hk.trans hpq⟩

theorem Within.below_node (h : Within place a b q) : place <+: q := by
  obtain ⟨k, -, -, hk⟩ := h
  exact (List.prefix_append place [k]).trans hk

/-- The node does not lie in its parts. -/
theorem not_within_self : ¬ Within place a b place := by
  rintro ⟨k, -, -, hk⟩
  have hlength := hk.length_le
  rw [List.length_append, List.length_singleton] at hlength
  omega

/-- Different parts have no place in common. -/
theorem Within.apart (h : Within place a b q) (h' : Within place b c q) : False := by
  obtain ⟨k, -, hkb, hk⟩ := h
  obtain ⟨l, hbl, -, hl⟩ := h'
  have hkl : place ++ [k] <+: place ++ [l] :=
    List.prefix_of_prefix_length_le hk hl (by simp)
  have heq : place ++ [k] = place ++ [l] := hkl.eq_of_length (by simp)
  have : k = l := by simpa using heq
  omega

end Place

/-- A call of a command: the place of the invocation, and the name of the command. -/
structure Site where
  place : Place
  name : String

def Step.arguments : Step → List Expression
  | .property _ => []
  | .method _ args => args

namespace Expression

/-! ## Nodes at places -/

def parts : Expression → List Expression
  | .literal _ => []
  | .sequence items => items
  | .record entries => entries.map Prod.snd
  | .invocation _ args _ chain => args ++ chain.flatMap Step.arguments
  | .not inner => [inner]

def node? (e : Expression) : Place → Option Expression
  | [] => some e
  | k :: rest => e.parts[k]?.bind fun part => part.node? rest

theorem sizeOf_lt_of_mem_parts {e part : Expression} (h : part ∈ e.parts) :
    sizeOf part < sizeOf e := by
  cases e with
  | literal l => cases h
  | sequence items =>
      have hpart : sizeOf part < sizeOf items := List.sizeOf_lt_of_mem h
      rw [sequence.sizeOf_spec]
      omega
  | record entries =>
      obtain ⟨⟨key, value⟩, hentry, rfl⟩ := List.mem_map.mp h
      have hpair : sizeOf (key, value) < sizeOf entries := List.sizeOf_lt_of_mem hentry
      rw [Prod.mk.sizeOf_spec] at hpair
      rw [record.sizeOf_spec]
      show sizeOf value < _
      omega
  | invocation name args negated chain =>
      rw [invocation.sizeOf_spec]
      rcases List.mem_append.mp h with hpart | hpart
      · have hlt : sizeOf part < sizeOf args := List.sizeOf_lt_of_mem hpart
        omega
      · obtain ⟨step, hstep, hpart⟩ := List.mem_flatMap.mp hpart
        have hstep' : sizeOf step < sizeOf chain := List.sizeOf_lt_of_mem hstep
        cases step with
        | property key => cases hpart
        | method method more =>
            have hlt : sizeOf part < sizeOf more := List.sizeOf_lt_of_mem hpart
            rw [Step.method.sizeOf_spec] at hstep'
            omega
  | not inner =>
      rw [List.mem_singleton.mp h, not.sizeOf_spec]
      omega

/-- What holds of an expression when it holds of its parts holds of every expression. -/
theorem induction_on_parts {P : Expression → Prop} (h : ∀ e, (∀ part ∈ e.parts, P part) → P e)
    (e : Expression) : P e :=
  h e fun part hpart =>
    have := sizeOf_lt_of_mem_parts hpart
    induction_on_parts h part
termination_by sizeOf e

/-! ## Calls in their order -/

/-- The call that an invocation itself makes, unless it names an operator. -/
def ownSites (place : Place) (name : String) : List Site :=
  if (Operator.ofName? name).isNone then [⟨place, name⟩] else []

mutual

/-- The calls of commands in the expression at a place. -/
def sitesAt (place : Place) : Expression → List Site
  | .literal _ => []
  | .sequence items => sitesOfItems place 0 items
  | .record entries => sitesOfEntries place 0 entries
  | .invocation name args _ chain =>
      sitesOfItems place 0 args ++ (ownSites place name ++ sitesOfChain place args.length chain)
  | .not inner => sitesAt (place ++ [0]) inner

/-- The calls in parts that are numbered from `k` on. -/
def sitesOfItems (place : Place) (k : Nat) : List Expression → List Site
  | [] => []
  | e :: rest => sitesAt (place ++ [k]) e ++ sitesOfItems place (k + 1) rest

/-- The calls in the values of entries that are numbered from `k` on. -/
def sitesOfEntries (place : Place) (k : Nat) : List (String × Expression) → List Site
  | [] => []
  | (_, e) :: rest => sitesAt (place ++ [k]) e ++ sitesOfEntries place (k + 1) rest

/-- The calls in the arguments of the methods in a chain, which are numbered from `k` on. -/
def sitesOfChain (place : Place) (k : Nat) : List Step → List Site
  | [] => []
  | .property _ :: rest => sitesOfChain place k rest
  | .method _ args :: rest =>
      sitesOfItems place k args ++ sitesOfChain place (k + args.length) rest

end

/-- The calls of commands in an expression, in the order in which an evaluation comes to them. -/
def callSites (e : Expression) : List Site := sitesAt [] e

theorem sitesOfEntries_eq (place : Place) (k : Nat) (entries : List (String × Expression)) :
    sitesOfEntries place k entries = sitesOfItems place k (entries.map Prod.snd) := by
  induction entries generalizing k with
  | nil => rfl
  | cons entry rest ih => simp only [sitesOfEntries, sitesOfItems, List.map_cons, ih]

theorem sitesOfItems_append (place : Place) (k : Nat) (es fs : List Expression) :
    sitesOfItems place k (es ++ fs)
      = sitesOfItems place k es ++ sitesOfItems place (k + es.length) fs := by
  induction es generalizing k with
  | nil => rfl
  | cons e es ih =>
      have hk : k + 1 + es.length = k + (e :: es).length := by rw [List.length_cons]; omega
      rw [List.cons_append, sitesOfItems, sitesOfItems, ih, hk, List.append_assoc]

theorem sitesOfChain_eq (place : Place) (k : Nat) (chain : List Step) :
    sitesOfChain place k chain = sitesOfItems place k (chain.flatMap Step.arguments) := by
  induction chain generalizing k with
  | nil => rfl
  | cons step rest ih =>
      rw [List.flatMap_cons, sitesOfItems_append]
      cases step with
      | property key => exact ih k
      | method name args => simp only [sitesOfChain, ih, Step.arguments]

def rootSites (place : Place) : Expression → List Site
  | .invocation name _ _ _ => ownSites place name
  | _ => []

/-- Apart from their order, the calls in an expression are that of its root and those in its
parts. -/
theorem sitesAt_perm (place : Place) (e : Expression) :
    (sitesAt place e).Perm (rootSites place e ++ sitesOfItems place 0 e.parts) := by
  cases e with
  | literal l => exact .refl _
  | sequence items => exact .refl _
  | record entries =>
      rw [sitesAt, sitesOfEntries_eq]
      exact .refl _
  | invocation name args negated chain =>
      rw [sitesAt, sitesOfChain_eq, parts, sitesOfItems_append, Nat.zero_add]
      exact List.perm_append_comm_assoc _ _ _
  | not inner =>
      simp only [sitesAt, rootSites, parts, sitesOfItems, List.append_nil, List.nil_append]
      exact .refl _

theorem mem_ownSites {place : Place} {name : String} {s : Site} :
    s ∈ ownSites place name ↔ Operator.ofName? name = none ∧ s = ⟨place, name⟩ := by
  unfold ownSites
  cases Operator.ofName? name <;> simp

theorem ownSites_nodup (place : Place) (name : String) : (ownSites place name).Nodup := by
  unfold ownSites
  cases Operator.ofName? name <;> simp

theorem mem_rootSites {place : Place} {e : Expression} {s : Site} (h : s ∈ rootSites place e) :
    Operator.ofName? s.name = none ∧ s.place = place ∧
      ∃ args negated chain, e = .invocation s.name args negated chain := by
  cases e with
  | invocation name args negated chain =>
      obtain ⟨hname, rfl⟩ := mem_ownSites.mp h
      exact ⟨hname, rfl, args, negated, chain, rfl⟩
  | _ => cases h

theorem mem_sitesOfItems {place : Place} {k : Nat} {es : List Expression} {s : Site} :
    s ∈ sitesOfItems place k es ↔ ∃ i e, es[i]? = some e ∧ s ∈ sitesAt (place ++ [k + i]) e := by
  induction es generalizing k with
  | nil => simp [sitesOfItems]
  | cons e es ih =>
      rw [sitesOfItems, List.mem_append, ih]
      constructor
      · rintro (h | ⟨i, f, hf, h⟩)
        · exact ⟨0, e, rfl, h⟩
        · have hk : k + 1 + i = k + (i + 1) := by omega
          exact ⟨i + 1, f, hf, hk ▸ h⟩
      · rintro ⟨i, f, hf, h⟩
        cases i with
        | zero =>
            obtain rfl : e = f := Option.some.inj hf
            exact Or.inl h
        | succ i =>
            have hk : k + (i + 1) = k + 1 + i := by omega
            exact Or.inr ⟨i, f, hf, hk ▸ h⟩

/-! ## Where the calls are -/

/-- The calls in an expression are at places below it. -/
theorem prefix_of_mem_sitesAt {e : Expression} {place : Place} {s : Site}
    (h : s ∈ sitesAt place e) : place <+: s.place := by
  induction e using induction_on_parts generalizing place with
  | h e ih =>
      rcases List.mem_append.mp ((sitesAt_perm place e).mem_iff.mp h) with h | h
      · obtain ⟨-, hplace, -⟩ := mem_rootSites h
        exact hplace ▸ List.prefix_refl place
      · obtain ⟨i, part, hpart, h⟩ := mem_sitesOfItems.mp h
        have hbelow := ih part (List.mem_of_getElem? hpart) h
        exact (List.prefix_append place _).trans hbelow

/-- The calls in parts are within the parts. -/
theorem within_of_mem_sitesOfItems {place : Place} {k : Nat} {es : List Expression} {s : Site}
    (h : s ∈ sitesOfItems place k es) : place.Within k (k + es.length) s.place := by
  obtain ⟨i, e, he, h⟩ := mem_sitesOfItems.mp h
  have hi : i < es.length := (List.getElem?_eq_some_iff.mp he).1
  exact (Place.within_part (prefix_of_mem_sitesAt h)).mono (by omega) (by omega)

/-- **No call is listed twice.** -/
theorem callSites_nodup (e : Expression) : e.callSites.Nodup := by
  unfold callSites
  generalize ([] : Place) = place
  induction e using induction_on_parts generalizing place with
  | h e ih =>
      have hroot : (rootSites place e).Nodup := by
        cases e with
        | invocation name args negated chain => exact ownSites_nodup place name
        | _ => exact List.nodup_nil
      have hparts : ∀ (es : List Expression) (k : Nat), (∀ part ∈ es, part ∈ e.parts) →
          (sitesOfItems place k es).Nodup := by
        intro es
        induction es with
        | nil => exact fun _ _ => List.nodup_nil
        | cons part es ihs =>
            intro k hes
            obtain ⟨hpart, hes⟩ := List.forall_mem_cons.mp hes
            refine (ih part hpart _).append (ihs (k + 1) hes) ?_
            intro s hs hs'
            exact (Place.within_part (prefix_of_mem_sitesAt hs)).apart
              (within_of_mem_sitesOfItems hs')
      rw [(sitesAt_perm place e).nodup_iff]
      refine hroot.append (hparts e.parts 0 fun _ h => h) ?_
      intro s hs hs'
      obtain ⟨-, hplace, -⟩ := mem_rootSites hs
      have hwithin := within_of_mem_sitesOfItems hs'
      rw [hplace] at hwithin
      exact Place.not_within_self hwithin

/-- **A call is listed at the place of its invocation.** -/
theorem node?_of_mem_callSites {e : Expression} {s : Site} (h : s ∈ e.callSites) :
    Operator.ofName? s.name = none ∧
      ∃ args negated chain, e.node? s.place = some (.invocation s.name args negated chain) := by
  -- In an expression at any place, the rest of the way leads to the invocation.
  have hbelow : ∀ (e : Expression) (place : Place), s ∈ sitesAt place e →
      Operator.ofName? s.name = none ∧ ∃ rest, s.place = place ++ rest ∧
        ∃ args negated chain, e.node? rest = some (.invocation s.name args negated chain) := by
    intro e
    induction e using induction_on_parts with
    | h e ih =>
        intro place h
        rcases List.mem_append.mp ((sitesAt_perm place e).mem_iff.mp h) with h | h
        · obtain ⟨hname, hplace, args, negated, chain, rfl⟩ := mem_rootSites h
          exact ⟨hname, [], by rw [hplace, List.append_nil], args, negated, chain, rfl⟩
        · obtain ⟨i, part, hpart, h⟩ := mem_sitesOfItems.mp h
          obtain ⟨hname, rest, hplace, args, negated, chain, hnode⟩ :=
            ih part (List.mem_of_getElem? hpart) _ h
          rw [Nat.zero_add, List.append_assoc] at hplace
          refine ⟨hname, i :: rest, hplace, args, negated, chain, ?_⟩
          show (e.parts[i]?.bind fun part => part.node? rest) = _
          rw [hpart]
          exact hnode
  obtain ⟨hname, rest, hplace, hnode⟩ := hbelow e [] h
  rw [List.nil_append] at hplace
  rw [hplace]
  exact ⟨hname, hnode⟩

/-- **No two calls are listed at one place.** -/
theorem places_nodup (e : Expression) : (e.callSites.map Site.place).Nodup := by
  refine e.callSites_nodup.map_on ?_
  intro s hs t ht hplace
  -- The invocation at the place tells the name.
  obtain ⟨-, args, negated, chain, hnode⟩ := node?_of_mem_callSites hs
  obtain ⟨-, args', negated', chain', hnode'⟩ := node?_of_mem_callSites ht
  rw [hplace, hnode'] at hnode
  cases s
  cases t
  cases hnode
  cases hplace
  rfl

end Expression

end WhenClause
