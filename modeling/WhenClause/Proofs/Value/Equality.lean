import WhenClause.Proofs.Dictionary
import WhenClause.Proofs.Value.Indiscernible
import WhenClause.Proofs.Value.Truth
import WhenClause.Value.Json

set_option autoImplicit false

/-! # Deep equality is a congruence

Deep equality is symmetric and transitive, and a value is equal to itself unless NaN stands in it
(`Value.deepEq_self`). Equal values are the same (`Value.same_of_deepEq`), so what does not tell the
same values apart does not tell equal ones apart: their truth, their texts, how they are ordered,
and the conversion to JSON (`Value.toJson_eq_of_same`).

Fields are compared at their places. Since they are in the order of their keys, this is the
comparison of tables: there are as many fields in one record as in the other, and the value of each
key is found equal there (`Value.deepEq_record_iff`). -/

namespace WhenClause

namespace Number

/-- A number equals itself unless it is NaN. -/
theorem equal_self (x : Number) : x.equal x = !x.isNaN := by
  cases h : x.isNaN <;> simp [equal, h]

end Number

namespace Value

/-! ## Symmetry and transitivity -/

section

variable {p q : Number → Number → Bool}

mutual

/-- Equalities of numbers that are each other's converse give deep equalities that are. -/
theorem equalWith_symm (h : ∀ x y, p x y = true → q y x = true) {a b : Value}
    (hab : equalWith p a b = true) : equalWith q b a = true := by
  cases a <;> cases b <;> simp only [equalWith, Bool.false_eq_true] at hab ⊢
  case bool.bool => rw [beq_iff_eq] at *; exact hab.symm
  case number.number => exact h _ _ hab
  case string.string => rw [beq_iff_eq] at *; exact hab.symm
  case array.array => exact equalItemsWith_symm h hab
  case record.record => exact equalFieldsWith_symm h hab
  case function.function => rw [beq_iff_eq] at *; exact hab.symm
  case handle.handle => rw [beq_iff_eq] at *; exact hab.symm
termination_by structural a

theorem equalItemsWith_symm (h : ∀ x y, p x y = true → q y x = true) {as bs : List Value}
    (hab : equalItemsWith p as bs = true) : equalItemsWith q bs as = true := by
  cases as <;> cases bs <;>
    simp only [equalItemsWith, Bool.false_eq_true, Bool.and_eq_true] at hab ⊢
  exact ⟨equalWith_symm h hab.1, equalItemsWith_symm h hab.2⟩
termination_by structural as

theorem equalFieldsWith_symm (h : ∀ x y, p x y = true → q y x = true)
    {as bs : List (String × Value)} (hab : equalFieldsWith p as bs = true) :
    equalFieldsWith q bs as = true := by
  cases as <;> cases bs <;>
    simp only [equalFieldsWith, Bool.false_eq_true, Bool.and_eq_true, beq_iff_eq] at hab ⊢
  exact ⟨⟨hab.1.1.symm, equalWith_symm h hab.1.2⟩, equalFieldsWith_symm h hab.2⟩
termination_by structural as

end

end

theorem deepEq_symm {a b : Value} (h : deepEq a b = true) : deepEq b a = true := by
  rw [← equalWith_equal] at h ⊢
  refine equalWith_symm (fun x y hxy => ?_) h
  rw [Number.equal_comm]
  exact hxy

theorem deepEq_comm (a b : Value) : deepEq a b = deepEq b a :=
  Bool.eq_iff_iff.mpr ⟨deepEq_symm, deepEq_symm⟩

theorem deepEq_trans {a b c : Value} (hab : deepEq a b = true) (hbc : deepEq b c = true) :
    deepEq a c = true := by
  rw [← equalWith_equal] at hab hbc ⊢
  exact equalWith_trans (p := Number.equal) (q := Number.equal)
    (fun _ _ _ => Number.equal_trans) hab hbc

/-! ## What equals itself -/

mutual

/-- NaN stands in the value. The receiver of a function does not count, for functions are compared
by identity. -/
def containsNaN : Value → Bool
  | .number x => x.isNaN
  | .array items => itemsContainNaN items
  | .record fields => fieldsContainNaN fields
  | .null | .bool _ | .string _ | .function _ _ _ | .handle _ => false

def itemsContainNaN : List Value → Bool
  | [] => false
  | v :: rest => containsNaN v || itemsContainNaN rest

def fieldsContainNaN : List (String × Value) → Bool
  | [] => false
  | (_, v) :: rest => containsNaN v || fieldsContainNaN rest

end

mutual

/-- A value equals itself unless NaN stands in it. -/
theorem deepEq_self (v : Value) : deepEq v v = !v.containsNaN := by
  match v with
  | .null | .bool _ | .string _ | .function _ _ _ | .handle _ => simp [deepEq, containsNaN]
  | .number x => simp only [deepEq, containsNaN, Number.equal_self]
  | .array items => simp only [deepEq, containsNaN, deepEqItems_self]
  | .record fields => simp only [deepEq, containsNaN, deepEqFields_self]

theorem deepEqItems_self (items : List Value) :
    deepEqItems items items = !itemsContainNaN items := by
  match items with
  | [] => rfl
  | v :: rest => rw [deepEqItems, deepEq_self, deepEqItems_self, itemsContainNaN, Bool.not_or]

theorem deepEqFields_self (fields : List (String × Value)) :
    deepEqFields fields fields = !fieldsContainNaN fields := by
  match fields with
  | [] => rfl
  | (key, v) :: rest =>
      rw [deepEqFields, deepEq_self, deepEqFields_self, fieldsContainNaN, Bool.not_or,
        beq_self_eq_true, Bool.true_and]

end

/-! ## Records as tables -/

/-- Equal fields have the same keys at the same places, with equal values. -/
theorem deepEqFields_iff (as bs : List (String × Value)) :
    deepEqFields as bs = true ↔
      List.Forall₂ (fun a b => a.1 = b.1 ∧ deepEq a.2 b.2 = true) as bs := by
  rw [← equalFieldsWith_equal, equalFieldsWith_iff]
  simp only [equalWith_equal]

/-- **Records are compared as tables.** One equals another if it has as many fields, and the other
has an equal value for each of its keys. -/
theorem deepEq_record_iff {as bs : List (String × Value)} (has : Dictionary.Sorted as)
    (hbs : Dictionary.Sorted bs) :
    deepEq (record as) (record bs) = true ↔
      as.length = bs.length ∧
        ∀ a ∈ as, ∃ w, Dictionary.find? a.1 bs = some w ∧ deepEq a.2 w = true := by
  rw [deepEq, deepEqFields_iff]
  constructor
  · intro h
    refine ⟨h.length_eq, fun a ha => ?_⟩
    obtain ⟨i, hi, rfl⟩ := List.getElem_of_mem ha
    obtain ⟨hlength, hfields⟩ := List.forall₂_iff_get.mp h
    obtain ⟨hkey, hequal⟩ := hfields i hi (hlength ▸ hi)
    refine ⟨bs[i].2, ?_, hequal⟩
    rw [show as[i].1 = bs[i].1 from hkey]
    exact Dictionary.find?_of_mem hbs (List.getElem_mem _)
  · rintro ⟨hlength, hfound⟩
    have hsubset : Dictionary.keys as ⊆ Dictionary.keys bs := by
      intro key hkey
      obtain ⟨a, ha, rfl⟩ := List.mem_map.mp hkey
      obtain ⟨w, hw, -⟩ := hfound a ha
      exact Dictionary.mem_keys_iff.mpr (by rw [hw]; rfl)
    have hkeys := Dictionary.keys_eq_of_subset has hbs hlength hsubset
    refine List.forall₂_iff_get.mpr ⟨hlength, fun i hi hi' => ?_⟩
    have hkey : as[i].1 = bs[i].1 := by
      have h := congrArg (fun ks : List String => ks[i]?) hkeys
      simpa [Dictionary.keys, hi, hi'] using h
    obtain ⟨w, hw, hequal⟩ := hfound as[i] (List.getElem_mem hi)
    rw [hkey, Dictionary.find?_of_mem hbs (List.getElem_mem hi')] at hw
    rw [← Option.some.inj hw] at hequal
    exact ⟨hkey, hequal⟩

/-! ## Equal values are the same -/

theorem same_of_deepEq {a b : Value} (h : deepEq a b = true) : a.same b = true := by
  rw [← equalWith_equal] at h
  refine equalWith_trans (p := Number.equal) (q := Number.same) (fun x y z hxy hyz => ?_) h
    (same_refl b)
  rw [Number.same, Number.equal_of_same_right hxy hyz, Bool.true_or]

/-- The same numbers are one number in JSON. -/
theorem numberToJson_eq_of_same {x y : Number} (h : x.same y = true) :
    numberToJson x = numberToJson y := by
  rw [Number.same, Bool.or_eq_true, Bool.and_eq_true] at h
  rcases h with h | ⟨hx, hy⟩
  · rcases Number.eq_or_isZero_of_equal h with rfl | ⟨hx, hy⟩
    · rfl
    · rw [numberToJson_of_shortInt? (Number.shortInt?_of_isZero hx),
        numberToJson_of_shortInt? (Number.shortInt?_of_isZero hy)]
  · rw [numberToJson_of_not_isFinite (Number.isFinite_of_isNaN hx),
      numberToJson_of_not_isFinite (Number.isFinite_of_isNaN hy)]

mutual

/-- The same values become the same JSON value. -/
theorem toJson_eq_of_same {v w : Value} (h : v.same w = true) : v.toJson = w.toJson := by
  have htext := text_eq_of_same h
  unfold same at h
  cases v <;> cases w <;> simp only [equalWith, Bool.false_eq_true] at h
  case null.null => rfl
  case bool.bool => rw [beq_iff_eq.mp h]
  case number.number => simp only [toJson, numberToJson_eq_of_same h]
  case string.string => rw [beq_iff_eq.mp h]
  case array.array => simp only [toJson, itemsToJson_eq_of_same h]
  case record.record => simp only [toJson, fieldsToJson_eq_of_same h]
  case function.function => simp only [toJson, htext]
  case handle.handle => rw [beq_iff_eq.mp h]
termination_by structural v

theorem itemsToJson_eq_of_same {vs ws : List Value}
    (h : equalItemsWith Number.same vs ws = true) : itemsToJson vs = itemsToJson ws := by
  cases vs <;> cases ws <;> simp only [equalItemsWith, Bool.and_eq_true, Bool.false_eq_true] at h
  · rfl
  · simp only [itemsToJson, toJson_eq_of_same h.1, itemsToJson_eq_of_same h.2]
termination_by structural vs

theorem fieldsToJson_eq_of_same {fs gs : List (String × Value)}
    (h : equalFieldsWith Number.same fs gs = true) : fieldsToJson fs = fieldsToJson gs := by
  cases fs <;> cases gs <;>
    simp only [equalFieldsWith, Bool.and_eq_true, beq_iff_eq, Bool.false_eq_true] at h
  · rfl
  · simp only [fieldsToJson, h.1.1, toJson_eq_of_same h.1.2, fieldsToJson_eq_of_same h.2]
termination_by structural fs

end

/-- **Deep equality is a congruence.** It is symmetric and transitive, and a value equals itself if
and only if no NaN stands in it. Equal values have the same truth, the same texts in messages and
in keys, and the same JSON value, and are ordered alike against every value. -/
theorem deepEq_congruence (a b : Value) :
    deepEq a b = deepEq b a ∧
    (deepEq a a = true ↔ a.containsNaN = false) ∧
    (deepEq a b = true →
      (∀ c, deepEq b c = true → deepEq a c = true) ∧
      a.truthy = b.truthy ∧
      a.text = b.text ∧
      a.canonical = b.canonical ∧
      a.toJson = b.toJson ∧
      ∀ c : Value, a.compare c = b.compare c ∧ c.compare a = c.compare b) := by
  refine ⟨deepEq_comm a b, by rw [deepEq_self, Bool.not_eq_true'], fun h => ?_⟩
  have hsame := same_of_deepEq h
  exact ⟨fun c => deepEq_trans h, truthy_eq_of_same hsame, text_eq_of_same hsame,
    same_iff.mp hsame, toJson_eq_of_same hsame, fun c =>
      ⟨compare_eq_of_same hsame (same_refl c), compare_eq_of_same (same_refl c) hsame⟩⟩

end Value

end WhenClause
