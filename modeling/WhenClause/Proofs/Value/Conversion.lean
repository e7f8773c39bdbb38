import WhenClause.Proofs.Value.Equality
import WhenClause.Proofs.Value.Rereading

set_option autoImplicit false

/-! # The conversion to JSON and back

A value that JSON can represent comes back from JSON as an equal one (`Value.conversion_lossless`):
data throughout, with finite numbers. A number becomes a JSON integer if and only if it is an
integer of small magnitude, and then it becomes that integer (`Number.shortInt?_eq_some_iff`); every
other finite number stays as it is. What does not come back is the sign of zero. -/

namespace WhenClause

/-! ## Numbers -/

namespace Number

def toRat (x : Number) : ℚ := if x.negative then -x.absValue else x.absValue

theorem absValue_nonneg (x : Number) : 0 ≤ x.absValue := by
  unfold absValue
  positivity

theorem abs_toRat (x : Number) : |x.toRat| = x.absValue := by
  rw [toRat]
  split
  · rw [abs_neg, abs_of_nonneg x.absValue_nonneg]
  · rw [abs_of_nonneg x.absValue_nonneg]

/-- The integer of a number is its rational number. -/
theorem toRat_of_toInt? {x : Number} {i : Int} (h : x.toInt? = some i) : x.toRat = i := by
  obtain ⟨-, habs, hsign⟩ := toInt?_spec h
  rw [toRat, ← habs]
  cases hzero : x.isZero with
  | true =>
      have hi : i.natAbs = 0 := by
        rw [absValue_of_isZero hzero] at habs
        exact_mod_cast habs
      obtain rfl : i = 0 := Int.natAbs_eq_zero.mp hi
      simp
  | false =>
      rw [← hsign hzero]
      by_cases hneg : i < 0
      · have hi : -(i.natAbs : Int) = i := by omega
        rw [if_pos (decide_eq_true hneg), ← Int.cast_natCast, ← Int.cast_neg, hi]
      · have hi : (i.natAbs : Int) = i := by omega
        rw [if_neg (by simpa using hneg), ← Int.cast_natCast, hi]

/-- A finite number whose rational number is an integer has that integer. -/
theorem toInt?_of_toRat {x : Number} {i : Int} (hfin : x.isFinite = true) (h : x.toRat = i) :
    x.toInt? = some i := by
  have habs : x.absValue = i.natAbs := by
    rw [← abs_toRat, h, Nat.cast_natAbs, Int.cast_abs]
  have hunit : 0 < 2 ^ (-x.scale).toNat := by positivity
  rw [toInt?, if_pos hfin]
  dsimp only
  rw [absValue_eq_natCast_iff.mp habs, if_pos (Nat.mul_mod_right _ _),
    Nat.mul_div_cancel_left _ hunit]
  rw [toRat, habs, ← Int.cast_natCast, ← Int.cast_neg] at h
  refine congrArg some ?_
  cases hnegative : x.negative with
  | true =>
      rw [hnegative, if_pos rfl] at h
      exact Int.cast_injective h
  | false =>
      rw [hnegative, if_neg Bool.false_ne_true] at h
      exact Int.cast_injective h

/-- A number is an integer if its rational number is. -/
theorem toInt?_eq_some_iff {x : Number} {i : Int} :
    x.toInt? = some i ↔ x.isFinite = true ∧ x.toRat = i := by
  constructor
  · intro h
    exact ⟨(toInt?_spec h).1, toRat_of_toInt? h⟩
  · rintro ⟨hfin, hrat⟩
    exact toInt?_of_toRat hfin hrat

/-- **A number is written as an integer** if and only if it is that integer, of a magnitude below
`9e15`. -/
theorem shortInt?_eq_some_iff {x : Number} {i : Int} :
    x.shortInt? = some i ↔
      x.isFinite = true ∧ x.toRat = i ∧ i.natAbs < 9000000000000000 := by
  rw [shortInt?, Option.filter_eq_some_iff, toInt?_eq_some_iff, and_assoc, decide_eq_true_eq]
  rfl

/-- The integer that a number is written as is read as an equal number. -/
theorem equal_ofInt {x : Number} {i : Int} (h : x.shortInt? = some i) :
    (ofInt i).equal x = true := by
  obtain ⟨hint, -⟩ := Option.filter_eq_some_iff.mp h
  obtain ⟨hfin, habs, hsign⟩ := toInt?_spec hint
  have hnan : x.isNaN = false := isNaN_of_isFinite hfin
  cases hzero : x.isZero with
  | true =>
      -- Of the two zeros the integer is read as the positive one.
      rw [shortInt?_of_isZero hzero] at h
      obtain rfl : 0 = i := Option.some.inj h
      exact equal_of_isZero (by decide) hzero
  | false =>
      have hholds : x.interval.Holds ((i.natAbs : ℚ) / (1 : Nat)) := by
        rw [Nat.cast_one, div_one, habs]
        exact absValue_mem hzero
      have hread : ofInt i = x := by
        rw [ofInt, hsign hzero]
        exact ofRatio_eq hfin hzero Nat.one_pos hholds
      rw [hread, equal_self, hnan, Bool.not_false]

end Number

/-! ## Values -/

namespace Value

/-- A finite number comes back as an equal one. -/
theorem deepEq_ofJson_number {x : Number} (h : x.isFinite = true) :
    deepEq (ofJson (numberToJson x)) (number x) = true := by
  cases hint : x.shortInt? with
  | some i =>
      rw [numberToJson_of_shortInt? hint, ofJson, deepEq]
      exact Number.equal_ofInt hint
  | none =>
      rw [numberToJson_of_isFinite hint h, ofJson, deepEq, Number.equal_self,
        Number.isNaN_of_isFinite h, Bool.not_false]

/-- The fields that come back have the keys of those that were converted. -/
theorem keys_ofJsonEntries (fields : List (String × Value)) :
    (ofJsonEntries (fieldsToJson fields)).map Prod.fst = fields.map Prod.fst := by
  induction fields with
  | nil => rfl
  | cons field rest ih =>
      rw [fieldsToJson, ofJsonEntries, List.map_cons, List.map_cons, ih]

mutual

/-- **What JSON can represent comes back** as an equal value. -/
theorem deepEq_ofJson_toJson {v : Value} (h : v.Expressible) :
    deepEq (ofJson v.toJson) v = true := by
  match v with
  | .null => rfl
  | .bool b => exact beq_self_eq_true b
  | .number x => exact deepEq_ofJson_number h
  | .string s => exact beq_self_eq_true s
  | .array items => exact deepEqItems_ofJsonItems h
  | .record fields =>
      obtain ⟨hsorted, hfields⟩ := h
      -- The fields are in their order, so putting them in one by one changes nothing.
      rw [toJson, ofJson, deepEq,
        Dictionary.ofList_eq_self (sorted_of_keys (keys_ofJsonEntries fields) hsorted)]
      exact deepEqFields_ofJsonEntries hfields

theorem deepEqItems_ofJsonItems {items : List Value} (h : ExpressibleItems items) :
    deepEqItems (ofJsonItems (itemsToJson items)) items = true := by
  match items with
  | [] => rfl
  | v :: rest =>
      rw [itemsToJson, ofJsonItems, deepEqItems, deepEq_ofJson_toJson h.1,
        deepEqItems_ofJsonItems h.2, Bool.and_self]

theorem deepEqFields_ofJsonEntries {fields : List (String × Value)} (h : ExpressibleFields fields) :
    deepEqFields (ofJsonEntries (fieldsToJson fields)) fields = true := by
  match fields with
  | [] => rfl
  | (key, v) :: rest =>
      rw [fieldsToJson, ofJsonEntries, deepEqFields, beq_self_eq_true, deepEq_ofJson_toJson h.1,
        deepEqFields_ofJsonEntries h.2]
      rfl

end

theorem numberToJson_eq_integer_iff {x : Number} {i : Int} :
    numberToJson x = .integer i ↔ x.shortInt? = some i := by
  cases hint : x.shortInt? with
  | some j => simp [numberToJson_of_shortInt? hint]
  | none =>
      cases hfin : x.isFinite with
      | true => simp [numberToJson_of_isFinite hint hfin]
      | false => simp [numberToJson_of_not_isFinite hfin]

/-- **A value becomes a JSON integer** if and only if it is that integer, of a magnitude below
`9e15`. -/
theorem toJson_eq_integer_iff (v : Value) (i : Int) :
    v.toJson = .integer i ↔
      ∃ x, v = .number x ∧ x.isFinite = true ∧ x.toRat = i ∧ i.natAbs < 9000000000000000 := by
  cases v with
  | number x =>
      rw [toJson, numberToJson_eq_integer_iff, Number.shortInt?_eq_some_iff]
      constructor
      · intro h
        exact ⟨x, rfl, h⟩
      · rintro ⟨y, hy, h⟩
        rw [number.inj hy]
        exact h
  | _ => simp [toJson]

/-- **The conversion to JSON loses nothing** that JSON can represent: a value without functions and
handles whose numbers are finite comes back as an equal value, which becomes the same JSON value
again. The numbers that become JSON integers are the integers of a magnitude below `9e15`, and each
becomes the integer that it is. -/
theorem conversion_lossless {v : Value} (h : v.Expressible) :
    (ofJson v.toJson).deepEq v = true ∧
      (ofJson v.toJson).toJson = v.toJson ∧
      ∀ (w : Value) (i : Int), w.toJson = .integer i ↔
        ∃ x, w = .number x ∧ x.isFinite = true ∧ x.toRat = i ∧ i.natAbs < 9000000000000000 := by
  have hback := deepEq_ofJson_toJson h
  exact ⟨hback, toJson_eq_of_same (same_of_deepEq hback), toJson_eq_integer_iff⟩

/-- A record with a negative zero, and with the integers on either side of the bound, one of them
negative. -/
theorem sample_conversion_lossless :
    let below : Number := Number.ofInt (-8999999999999999)
    let bound : Number := Number.ofNat 9000000000000000
    let v := Value.record
      [("", .array [.number (Number.ofMagnitude true 0), .number bound, .null]),
        ("a", .record [("b", .number below), ("c", .string "9e15")])]
    v.Expressible ∧ (ofJson v.toJson).deepEq v = true ∧ (ofJson v.toJson).toJson = v.toJson ∧
      (number below).toJson = .integer (-8999999999999999) ∧
      (number bound).toJson = .float bound := by
  intro below bound v
  have hbelow : below.isFinite = true := by decide +kernel
  have hbound : bound.isFinite = true := by decide +kernel
  have hkeys : ("" : String) < "a" := by decide
  have hinner : ("b" : String) < "c" := by decide
  have h : v.Expressible :=
    ⟨by simpa [Dictionary.Sorted] using hkeys, ⟨rfl, hbound, trivial, trivial⟩,
      ⟨by simpa [Dictionary.Sorted] using hinner, hbelow, trivial, trivial⟩, trivial⟩
  have hback := conversion_lossless h
  have hinteger : below.shortInt? = some (-8999999999999999) := by decide +kernel
  have hfloat : bound.shortInt? = none := by decide +kernel
  exact ⟨h, hback.1, hback.2.1, numberToJson_of_shortInt? hinteger,
    numberToJson_of_isFinite hfloat hbound⟩

end Value

end WhenClause
