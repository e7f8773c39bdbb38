import WhenClause.Evaluation.Eval
import WhenClause.Proofs.Value.Sameness

set_option autoImplicit false

/-! # The same values cannot be told apart

Zeros of either sign are the same value, and so is every NaN. Nothing that expressions do with
values tells the same values apart: their truth, their texts, and how they compare. -/

namespace WhenClause

/-! ## Numbers -/

namespace Number

/-- The same numbers are both NaN, or neither is and they have one place in the order. -/
theorem same_cases {x y : Number} (h : x.same y = true) :
    (x.isNaN = true ∧ y.isNaN = true) ∨ (x.isNaN = false ∧ y.isNaN = false ∧ x.rank = y.rank) := by
  unfold same at h
  rw [Bool.or_eq_true, Bool.and_eq_true] at h
  rcases h with h | h
  · exact Or.inr (equal_iff.mp h)
  · exact Or.inl h

theorem truthy_eq_of_same {x y : Number} (h : x.same y = true) : x.truthy = y.truthy := by
  unfold same at h
  rw [Bool.or_eq_true, Bool.and_eq_true] at h
  rcases h with h | ⟨hx, hy⟩
  · rcases eq_or_isZero_of_equal h with rfl | ⟨hx, hy⟩
    · rfl
    · simp [truthy, hx, hy]
  · simp [truthy, hx, hy]

theorem compare_eq_of_same {x x' y y' : Number} (hx : x.same x' = true) (hy : y.same y' = true) :
    x.compare y = x'.compare y' := by
  unfold compare
  rcases same_cases hx with ⟨h, h'⟩ | ⟨h, h', hrank⟩
  · simp [h, h']
  rcases same_cases hy with ⟨g, g'⟩ | ⟨g, g', grank⟩
  · simp [g, g']
  · simp [h, h', g, g', hrank, grank]

theorem equal_of_same_left {x y z : Number} (h : x.same y = true) (h' : y.equal z = true) :
    x.equal z = true := by
  obtain ⟨hy, -, -⟩ := equal_iff.mp h'
  rcases same_cases h with ⟨-, hnan⟩ | ⟨hx, -, hrank⟩
  · rw [hnan] at hy
    cases hy
  · exact equal_trans (equal_iff.mpr ⟨hx, hy, hrank⟩) h'

theorem equal_of_same_right {x y z : Number} (h : x.equal y = true) (h' : y.same z = true) :
    x.equal z = true := by
  rw [equal_comm]
  rw [equal_comm] at h
  have hzy : z.same y = true := by
    rw [← valueText_eq_iff] at h' ⊢
    exact h'.symm
  exact equal_of_same_left hzy h

end Number

namespace Value

/-! ## Equality -/

section

variable {p q r : Number → Number → Bool}

mutual

/-- Equalities of numbers that follow one another give deep equalities that do. -/
theorem equalWith_trans (h : ∀ x y z, p x y = true → q y z = true → r x z = true) {a b c : Value}
    (hab : equalWith p a b = true) (hbc : equalWith q b c = true) : equalWith r a c = true := by
  cases a <;> cases b <;> simp only [equalWith, Bool.false_eq_true] at hab <;>
    cases c <;> simp only [equalWith, Bool.false_eq_true] at hbc ⊢
  case bool.bool.bool => rw [beq_iff_eq] at *; exact hab.trans hbc
  case number.number.number => exact h _ _ _ hab hbc
  case string.string.string => rw [beq_iff_eq] at *; exact hab.trans hbc
  case array.array.array => exact equalItemsWith_trans h hab hbc
  case record.record.record => exact equalFieldsWith_trans h hab hbc
  case function.function.function => rw [beq_iff_eq] at *; exact hab.trans hbc
  case handle.handle.handle => rw [beq_iff_eq] at *; exact hab.trans hbc
termination_by structural a

theorem equalItemsWith_trans (h : ∀ x y z, p x y = true → q y z = true → r x z = true)
    {as bs cs : List Value} (hab : equalItemsWith p as bs = true)
    (hbc : equalItemsWith q bs cs = true) : equalItemsWith r as cs = true := by
  cases as <;> cases bs <;> simp only [equalItemsWith, Bool.false_eq_true] at hab <;>
    cases cs <;> simp only [equalItemsWith, Bool.false_eq_true, Bool.and_eq_true] at hab hbc ⊢
  exact ⟨equalWith_trans h hab.1 hbc.1, equalItemsWith_trans h hab.2 hbc.2⟩
termination_by structural as

theorem equalFieldsWith_trans (h : ∀ x y z, p x y = true → q y z = true → r x z = true)
    {as bs cs : List (String × Value)} (hab : equalFieldsWith p as bs = true)
    (hbc : equalFieldsWith q bs cs = true) : equalFieldsWith r as cs = true := by
  cases as <;> cases bs <;> simp only [equalFieldsWith, Bool.false_eq_true] at hab <;>
    cases cs <;>
    simp only [equalFieldsWith, Bool.false_eq_true, Bool.and_eq_true, beq_iff_eq] at hab hbc ⊢
  exact ⟨⟨hab.1.1.trans hbc.1.1, equalWith_trans h hab.1.2 hbc.1.2⟩,
    equalFieldsWith_trans h hab.2 hbc.2⟩
termination_by structural as

end

end

theorem deepEq_of_same {a a' b b' : Value} (ha : a.same a' = true) (hb : b.same b' = true)
    (h : deepEq a b = true) : deepEq a' b' = true := by
  rw [← equalWith_equal] at h ⊢
  have hleft : equalWith Number.equal a' b = true :=
    equalWith_trans (p := Number.same) (q := Number.equal)
      (fun _ _ _ => Number.equal_of_same_left) (same_symm ha) h
  exact equalWith_trans (p := Number.equal) (q := Number.same)
    (fun _ _ _ => Number.equal_of_same_right) hleft hb

/-- Deep equality does not tell the same values apart. -/
theorem deepEq_eq_of_same {a a' b b' : Value} (ha : a.same a' = true) (hb : b.same b' = true) :
    deepEq a b = deepEq a' b' :=
  Bool.eq_iff_iff.mpr ⟨deepEq_of_same ha hb, deepEq_of_same (same_symm ha) (same_symm hb)⟩

/-! ## Items and fields -/

theorem same_array {vs ws : List Value} :
    (array vs).same (array ws) = true ↔ List.Forall₂ (fun v w => v.same w = true) vs ws :=
  equalItemsWith_iff Number.same vs ws

theorem equalFieldsWith_iff (eq : Number → Number → Bool) (fs gs : List (String × Value)) :
    equalFieldsWith eq fs gs = true ↔
      List.Forall₂ (fun f g => f.1 = g.1 ∧ equalWith eq f.2 g.2 = true) fs gs := by
  induction fs generalizing gs with
  | nil => cases gs <;> simp [equalFieldsWith]
  | cons f fs ih => cases gs <;> simp [equalFieldsWith, ih, and_assoc]

theorem same_record {fs gs : List (String × Value)} :
    (record fs).same (record gs) = true ↔
      List.Forall₂ (fun f g => f.1 = g.1 ∧ f.2.same g.2 = true) fs gs :=
  equalFieldsWith_iff Number.same fs gs

/-! ## Truth and texts -/

theorem truthy_eq_of_same {v w : Value} (h : v.same w = true) : v.truthy = w.truthy := by
  unfold same at h
  cases v <;> cases w <;> simp only [equalWith, Bool.false_eq_true] at h
  case bool.bool => rw [beq_iff_eq.mp h]
  case number.number => exact Number.truthy_eq_of_same h
  case string.string => rw [beq_iff_eq.mp h]
  all_goals rfl

theorem text_eq_of_same {v w : Value} (h : v.same w = true) : v.text = w.text :=
  congrArg String.ofList (write_eq_of_same shown h)

/-- A value is the same as a string only if it is that string. -/
theorem same_string {v : Value} {s : String} : (string s).same v = true ↔ v = string s := by
  unfold same
  cases v <;> simp [equalWith]
  exact eq_comm

/-! ## Order -/

/-- The same values are coerced to the same numbers, or both to none. -/
theorem coerce?_of_same {v w : Value} (h : v.same w = true) :
    Option.Rel (fun x y => x.same y = true) v.coerce? w.coerce? := by
  have hrefl (x : Number) : x.same x = true := same_refl (.number x)
  unfold same at h
  cases v <;> cases w <;> simp only [equalWith, Bool.false_eq_true] at h
  case null.null => exact .some (hrefl _)
  case bool.bool =>
    rw [beq_iff_eq.mp h]
    exact .some (hrefl _)
  case number.number => exact .some h
  case string.string s t =>
    rw [beq_iff_eq.mp h]
    cases (string t).coerce? with
    | none => exact .none
    | some x => exact .some (hrefl x)
  all_goals exact .none

/-- Values that are not both strings are ordered as the numbers they are coerced to. -/
theorem compare_eq_coerce {v w : Value} (h : ∀ s t, v = string s → w ≠ string t) :
    v.compare w = v.coerce?.bind fun x => w.coerce?.bind fun y => x.compare y := by
  cases v <;> cases w <;> first | rfl | exact absurd rfl (h _ _ rfl)

theorem compare_eq_of_same {a a' b b' : Value} (ha : a.same a' = true) (hb : b.same b' = true) :
    a.compare b = a'.compare b' := by
  by_cases hstrings : ∃ s t, a = string s ∧ b = string t
  · obtain ⟨s, t, rfl, rfl⟩ := hstrings
    rw [same_string.mp ha, same_string.mp hb]
  have hcoerce : ∀ s t, a = string s → b ≠ string t := fun s t hs ht => hstrings ⟨s, t, hs, ht⟩
  have hcoerce' : ∀ s t, a' = string s → b' ≠ string t := by
    rintro s t rfl rfl
    exact hstrings ⟨s, t, same_string.mp (same_symm ha), same_string.mp (same_symm hb)⟩
  rw [compare_eq_coerce hcoerce, compare_eq_coerce hcoerce']
  have hx := coerce?_of_same ha
  have hy := coerce?_of_same hb
  generalize a.coerce? = x at hx ⊢
  generalize a'.coerce? = x' at hx ⊢
  generalize b.coerce? = y at hy ⊢
  generalize b'.coerce? = y' at hy ⊢
  cases hx with
  | none => rfl
  | some hx =>
      cases hy with
      | none => rfl
      | some hy => exact Number.compare_eq_of_same hx hy

end Value

/-- **No operator tells the same values apart.** -/
theorem Operator.holds_eq_of_same (op : Operator) {v v' w w' : Value} (hv : v.same v' = true)
    (hw : w.same w' = true) : op.holds v w = op.holds v' w' := by
  cases op <;>
    simp only [holds, Value.deepEq_eq_of_same hv hw, Value.compare_eq_of_same hv hw,
      Value.truthy_eq_of_same hv, Value.truthy_eq_of_same hw]

end WhenClause
