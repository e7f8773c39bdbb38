import WhenClause.Proofs.Evaluation.Equations
import WhenClause.Proofs.Text.Occurrence
import WhenClause.Proofs.Value.Equality

set_option autoImplicit false

/-! # The search members agree

Strings and arrays are searched by several methods. `indexOf` gives the first position of what is
searched for, or minus one (`position_first`), and the others say no more and no less than the
positions do: for strings `includes`, `startsWith` and `endsWith`, for arrays `includes`
(`search_agrees`). Positions in strings count characters, as `length` does, and items of arrays are
compared by deep equality, so that nothing in which NaN stands is ever found.

`Value.callMember?` is the outcome of a method from its look-up to its call. It is what a chain
makes of a method of a string or an array (`evalChain_callMember?`). -/

namespace WhenClause

open Text

/-! ## Positions as numbers -/

namespace Number

theorem exists_ofMagnitude (negative : Bool) (num den : Nat) :
    ∃ word, ofRatio negative num den = ofMagnitude negative word := by
  unfold ofRatio
  split
  · exact ⟨_, rfl⟩
  · exact ⟨_, rfl⟩

theorem rank_ofNat_pos {n : Nat} (hn : 0 < n) : 0 < (ofNat n).rank := by
  have hratio : -1 ≤ ratioLog n 1 := by
    have hlog : Nat.log2 1 = 0 := by decide
    simp only [ratioLog, hlog]
    split <;> omega
  have hpos : 0 < (ofNat n).magnitude.val := by
    unfold ofNat ofRatio
    rw [if_neg (Nat.pos_iff_ne_zero.mp hn)]
    show 0 < min _ infiniteMagnitude
    refine Nat.lt_min.mpr ⟨Nat.add_pos_left (Nat.mul_pos ?_ (by decide)) _, by decide⟩
    omega
  obtain ⟨word, hword⟩ := exists_ofMagnitude false n 1
  have hsign : (ofNat n).negative = false := by rw [ofNat, hword]; rfl
  rw [rank, hsign, if_neg Bool.false_ne_true]
  exact Int.natCast_pos.mpr hpos

/-- No position but the first is the number zero. -/
theorem ofNat_equal_zero (n : Nat) : (ofNat n).equal (ofNat 0) = (n == 0) := by
  cases n with
  | zero => decide +kernel
  | succ n =>
      have hpos := rank_ofNat_pos (Nat.succ_pos n)
      have hzero : (ofNat 0).rank = 0 := by decide +kernel
      have hne : (ofNat (n + 1)).rank ≠ 0 := ne_of_gt hpos
      simp [equal, hzero, hne]

theorem ofNat_equal_neg (n : Nat) : (ofNat n).equal (ofInt (-1)) = false := by
  have hnonneg : 0 ≤ (ofNat n).rank := by
    cases n with
    | zero => decide +kernel
    | succ n => exact le_of_lt (rank_ofNat_pos (Nat.succ_pos n))
  have hneg : (ofInt (-1)).rank < 0 := by decide +kernel
  have hne : (ofNat n).rank ≠ (ofInt (-1)).rank := ne_of_gt (lt_of_lt_of_le hneg hnonneg)
  simp [equal, hne]

end Number

namespace Value

/-! ## Methods, from the look-up to the call -/

/-- What the method of a name gives for arguments, if the value has such a method by itself. -/
def callMember? (v : Value) (name : String) (args : List Value) : Option (Except String Value) :=
  match v.member? name with
  | some .method => v.applyMethod? name args
  | _ => none

theorem callMember?_eq_some {v : Value} {name : String} {args : List Value}
    {outcome : Except String Value} (h : v.callMember? name args = some outcome) :
    v.member? name = some .method ∧ v.applyMethod? name args = some outcome := by
  unfold callMember? at h
  split at h
  next hmember => exact ⟨hmember, h⟩
  next => cases h

theorem callMember?_string (s : String) (m : TextMethod) (args : List Value) :
    (string s).callMember? m.name args = some (m.apply s.toList args) := by
  cases m <;> rfl

theorem callMember?_array (items : List Value) (m : ListMethod) (args : List Value) :
    (array items).callMember? m.name args = some (.ok (m.apply items args)) := by
  cases m <;> rfl

end Value

namespace Expression

variable {m : Type → Type} [Monad m] (registry : Registry m) (objects : Objects m) {v : Value}
  {name : String}

/-- Each look-up of a method of a value makes a function with an identity of its own. -/
theorem member_method (h : v.member? name = some .method) :
    (registry.host objects).member v name
      = objects.fresh >>= fun serial => pure (some (.function serial name v)) := by
  show objects.memberOf v name = _
  cases v with
  | handle _ => cases h
  | _ => simp only [Objects.memberOf, h]

variable [LawfulMonad m]

/-- The identity of the function has no part in the result. -/
theorem callMethod_callMember? {args : List Value} {outcome : Except String Value}
    (h : v.callMember? name args = some outcome) (serial : Nat) :
    callMethod (registry.host objects) ⟨serial, name, v⟩ name args
      = ExceptT.mk (pure (outcome.mapError (Error.command name))) := by
  have happly := (Value.callMember?_eq_some h).2
  unfold callMethod
  show ExceptT.adapt _ (objects.callOf ⟨serial, name, v⟩ args) = _
  simp only [Objects.callOf, happly]
  exact map_pure (f := m) _ _

/-- **A chain makes the same of a method of a string or an array.** The host gives the function its
identity before the arguments are evaluated, and has no part in the result. -/
theorem evalChain_callMember? {outcome : List Value → Except String Value}
    (h : ∀ values, v.callMember? name values = some (outcome values)) (args : List Expression)
    (rest : List Step) :
    evalChain (registry.host objects) v (.method name args :: rest) =
      ExceptT.lift objects.fresh >>= fun _ =>
        evalItems (registry.host objects) args >>= fun values =>
          ExceptT.mk (pure ((outcome values).mapError (Error.command name))) >>= fun result =>
            evalChain (registry.host objects) result rest := by
  have hmember := member_method registry objects (Value.callMember?_eq_some (h [])).1
  have hlift : ExceptT.lift (ε := Error)
        (objects.fresh >>= fun serial => pure (some (Value.function serial name v)))
      = ExceptT.lift objects.fresh >>= fun serial =>
          pure (some (Value.function serial name v)) := by
    refine ExceptT.ext ?_
    simp [ExceptT.run_lift, Except.map]
  rw [evalChain_method, hmember, hlift, bind_assoc]
  refine congrArg _ (funext fun serial => ?_)
  rw [pure_bind]
  show (evalItems (registry.host objects) args >>= fun values =>
    callMethod (registry.host objects) ⟨serial, name, v⟩ name values >>= _) = _
  simp only [callMethod_callMember? registry objects (h _)]

end Expression

/-! ## What the searches find -/

namespace Value

/-- The value is the number of the least position with a property, or minus one if there is none. -/
def IsPosition (P : Nat → Prop) (v : Value) : Prop :=
  (∃ i, P i ∧ (∀ j < i, ¬ P j) ∧ v = number (Number.ofNat i)) ∨
  ((∀ i, ¬ P i) ∧ v = number (Number.ofInt (-1)))

/-- The item at a position is equal to `x`. -/
def EqualAt (x : Value) (items : List Value) (i : Nat) : Prop :=
  ∃ item, items[i]? = some item ∧ item.deepEq x = true

theorem isPosition_of_first {P : Nat → Prop} {found : Option Nat} (h : First P found) :
    IsPosition P (TextMethod.position found) := by
  cases found with
  | none => exact Or.inr ⟨h, rfl⟩
  | some i => exact Or.inl ⟨i, h.1, h.2, rfl⟩

/-- A position is not minus one if something was found. -/
theorem position_equal_neg (found : Option Nat) :
    (TextMethod.position found).deepEq (number (Number.ofInt (-1))) = !found.isSome := by
  cases found with
  | none => rw [TextMethod.position]; decide +kernel
  | some i => exact Number.ofNat_equal_neg i

/-- A position is zero if something was found at once. -/
theorem position_equal_zero (found : Option Nat) :
    (TextMethod.position found).deepEq (number (Number.ofNat 0)) = (found == some 0) := by
  cases found with
  | none => rw [TextMethod.position]; decide +kernel
  | some i =>
      show (Number.ofNat i).equal (Number.ofNat 0) = _
      rw [Number.ofNat_equal_zero]
      rfl

/-- The search in an array finds the first item that is equal. -/
theorem findIdx?_first (x : Value) (items : List Value) :
    First (EqualAt x items) (items.findIdx? fun item => item.deepEq x) := by
  induction items with
  | nil =>
      rintro i ⟨item, hitem, -⟩
      simp at hitem
  | cons item items ih =>
      have hzero : EqualAt x (item :: items) 0 ↔ item.deepEq x = true := by
        simp [EqualAt]
      rw [List.findIdx?_cons]
      split
      next hequal => exact First.zero (hzero.mpr hequal)
      next hequal =>
        exact First.succ (P := EqualAt x (item :: items)) ih fun h0 => hequal (hzero.mp h0)

/-- Nothing is equal to a value in which NaN stands. -/
theorem not_equalAt_of_containsNaN {x : Value} (hnan : x.containsNaN = true) (items : List Value)
    (i : Nat) : ¬ EqualAt x items i := by
  rintro ⟨item, -, hequal⟩
  have hself := deepEq_trans (deepEq_symm hequal) hequal
  rw [deepEq_self, hnan] at hself
  cases hself

/-- A string method takes any value but a string by its text. -/
theorem argument_of_not_string (m : TextMethod) {x : Value} (hx : ∀ t, x ≠ string t)
    (more : List Value) : m.argument (x :: more) = m.argument (string x.text :: more) := by
  cases x with
  | string t => exact absurd rfl (hx t)
  | _ => rfl

theorem callMember?_of_not_string (s name : String) {x : Value} (hx : ∀ t, x ≠ string t)
    (more : List Value) :
    (string s).callMember? name (x :: more)
      = (string s).callMember? name (string x.text :: more) := by
  have happly : ∀ m : TextMethod,
      m.apply s.toList (x :: more) = m.apply s.toList (string x.text :: more) := by
    intro m
    cases m <;> simp only [TextMethod.apply, argument_of_not_string _ hx]
  simp only [callMember?, applyMethod?, happly]

/-- **The search members agree.** In a string, `indexOf` gives the first position at which the text
occurs, in characters; `includes` tells whether that is not minus one, `startsWith` whether it is
zero, and `endsWith` whether the text occurs where just its length is left. In an array, `indexOf`
gives the first position of an equal item, which there is none of if NaN stands in what is searched
for, and `includes` tells whether that is not minus one. What is no string is searched for by its
text. -/
theorem search_agrees :
    (∀ (s t : String) (more : List Value), ∃ v,
      (string s).callMember? "indexOf" (string t :: more) = some (.ok v) ∧
      IsPosition (OccursAt t.toList s.toList) v ∧
      (string s).callMember? "includes" (string t :: more)
        = some (.ok (.bool !v.deepEq (number (Number.ofInt (-1))))) ∧
      (string s).callMember? "startsWith" (string t :: more)
        = some (.ok (.bool (v.deepEq (number (Number.ofNat 0))))) ∧
      (string s).callMember? "endsWith" (string t :: more)
        = some (.ok (.bool (decide (OccursAt t.toList s.toList (s.length - t.length))))) ∧
      (string s).member? "length" = some (.value (number (Number.ofNat s.length)))) ∧
    (∀ (items : List Value) (x : Value) (more : List Value), ∃ v,
      (array items).callMember? "indexOf" (x :: more) = some (.ok v) ∧
      IsPosition (EqualAt x items) v ∧
      (x.containsNaN = true → v = number (Number.ofInt (-1))) ∧
      (array items).callMember? "includes" (x :: more)
        = some (.ok (.bool !v.deepEq (number (Number.ofInt (-1)))))) ∧
    (∀ (s name : String) (x : Value) (more : List Value), (∀ t, x ≠ string t) →
      (string s).callMember? name (x :: more)
        = (string s).callMember? name (string x.text :: more)) := by
  refine ⟨fun s t more => ?_, fun items x more => ?_,
    fun s name x more hx => callMember?_of_not_string s name hx more⟩
  · have hfirst := indexOf?_first t.toList s.toList
    refine ⟨TextMethod.position (indexOf? t.toList s.toList),
      callMember?_string s .indexOf _, isPosition_of_first hfirst, ?_, ?_, ?_, rfl⟩
    · rw [position_equal_neg, Bool.not_not, ← occursIn_eq_isSome]
      exact callMember?_string s .includes _
    · rw [position_equal_zero, ← isPrefixOf_eq]
      exact callMember?_string s .startsWith _
    · have hend := isSuffixOf_eq t.toList s.toList
      rw [String.length_toList, String.length_toList] at hend
      rw [← hend]
      exact callMember?_string s .endsWith _
  · have hfirst := findIdx?_first x items
    have hindex : (array items).callMember? "indexOf" (x :: more)
        = some (.ok (TextMethod.position (items.findIdx? fun item => item.deepEq x))) :=
      callMember?_array items .indexOf (x :: more)
    refine ⟨_, hindex, isPosition_of_first hfirst, fun hnan => ?_, ?_⟩
    · have hnone : First (EqualAt x items) none := not_equalAt_of_containsNaN hnan items
      rw [hfirst.unique hnone]
      rfl
    · rw [position_equal_neg, Bool.not_not, List.findIdx?_isSome]
      exact callMember?_array items .includes _

/-- NaN is not found among its own kind, and a number is searched for by its text. -/
theorem search_agrees_sample :
    (∃ v, (array [number Number.nan]).callMember? "indexOf" [number Number.nan] = some (.ok v) ∧
      v = number (Number.ofInt (-1))) ∧
    (string "a1").callMember? "includes" [number (Number.ofNat 1)]
      = (string "a1").callMember? "includes" [string (number (Number.ofNat 1)).text] := by
  obtain ⟨v, hv, -, hnan, -⟩ := search_agrees.2.1 [number Number.nan] (number Number.nan) []
  exact ⟨⟨v, hv, hnan (by decide)⟩, search_agrees.2.2 "a1" "includes" _ [] fun t => by simp⟩

end Value

end WhenClause
