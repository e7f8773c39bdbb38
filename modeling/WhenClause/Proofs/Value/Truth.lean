import WhenClause.Json.Written
import WhenClause.Proofs.Number.Written
import WhenClause.Proofs.Text.Quoted
import WhenClause.Value.Json

set_option autoImplicit false

/-! # Truth before and after the conversion to JSON

A value and the JSON value that it becomes have the same truth, unless the value is an infinite
number, for which JSON has nothing but null (`Value.truthy_toJson`). The truth of the JSON value
can be seen from its text: there are four texts that are false (`Value.pretty_toJson_falsy`). -/

namespace WhenClause

/-! ## Truth -/

namespace Json

/-- The truth value of a JSON value: null, false, zero and the empty string are false. -/
def truthy : Json → Bool
  | .null => false
  | .bool b => b
  | .integer i => i != 0
  | .float x => x.truthy
  | .string s => !s.isEmpty
  | .array _ | .object _ => true

/-- The texts of the JSON values that are false. -/
def falsyTexts : List String := ["null", "false", "0", "\"\""]

end Json

def Number.isInfinite (x : Number) : Bool := x.magnitude.val == infiniteMagnitude

def Value.isInfinite : Value → Bool
  | .number x => x.isInfinite
  | _ => false

namespace Number

theorem isFinite_eq (x : Number) : x.isFinite = (!x.isInfinite && !x.isNaN) := by
  rw [Bool.eq_iff_iff]
  simp only [isFinite, isInfinite, isNaN, Bool.and_eq_true, Bool.not_eq_true', beq_eq_false_iff_ne,
    decide_eq_true_eq, decide_eq_false_iff_not]
  omega

theorem isInfinite_of_isFinite {x : Number} (h : x.isFinite = true) : x.isInfinite = false := by
  rw [isFinite_eq] at h
  simpa using (Bool.and_eq_true_iff.mp h).1

/-- A finite number is truthy unless it is zero. -/
theorem truthy_of_isFinite {x : Number} (h : x.isFinite = true) : x.truthy = !x.isZero := by
  rw [isFinite_eq] at h
  rw [truthy, (Bool.and_eq_true_iff.mp h).2, Bool.and_true]

/-- No number but the zeros is written as the integer zero. -/
theorem isZero_of_shortInt? {x : Number} (h : x.shortInt? = some 0) : x.isZero = true := by
  have htext : x.valueText = zero.valueText := by
    rw [valueText_of_isZero (by decide : zero.isZero = true), valueText, h]
    rfl
  have hsame := (valueText_eq_iff x zero).mp htext
  rw [same, show zero.isNaN = false by decide, Bool.and_false, Bool.or_false] at hsame
  rcases eq_or_isZero_of_equal hsame with rfl | ⟨hzero, -⟩
  · decide
  · exact hzero

end Number

namespace Value

theorem numberToJson_of_shortInt? {x : Number} {i : Int} (h : x.shortInt? = some i) :
    numberToJson x = .integer i := by rw [numberToJson, h]

theorem numberToJson_of_isFinite {x : Number} (h : x.shortInt? = none) (hfin : x.isFinite = true) :
    numberToJson x = .float x := by
  rw [numberToJson, h]
  exact if_pos hfin

theorem numberToJson_of_not_isFinite {x : Number} (hfin : x.isFinite = false) :
    numberToJson x = .null := by
  have hnone : x.shortInt? = none := by simp [Number.shortInt?, Number.toInt?, hfin]
  rw [numberToJson, hnone]
  exact if_neg (by simp [hfin])

/-- A number has the truth of its JSON value, unless it is infinite. -/
theorem truthy_numberToJson (x : Number) :
    (numberToJson x).truthy = (x.truthy && !x.isInfinite) := by
  cases hfin : x.isFinite with
  | false =>
      -- What is neither finite nor infinite is NaN, which is false as it is.
      rw [numberToJson_of_not_isFinite hfin]
      rw [Number.isFinite_eq] at hfin
      cases hinf : x.isInfinite with
      | true => exact (Bool.and_false _).symm
      | false =>
          have hnan : x.isNaN = true := by simpa [hinf] using hfin
          simp [Json.truthy, Number.truthy, hnan]
  | true =>
      rw [Number.isInfinite_of_isFinite hfin, Bool.not_false, Bool.and_true]
      cases hint : x.shortInt? with
      | none => rw [numberToJson_of_isFinite hint hfin, Json.truthy]
      | some i =>
          rw [numberToJson_of_shortInt? hint, Json.truthy, Number.truthy_of_isFinite hfin,
            bne, Bool.not_inj_iff, Bool.eq_iff_iff, beq_iff_eq]
          constructor
          · rintro rfl
            exact Number.isZero_of_shortInt? hint
          · intro hzero
            rw [Number.shortInt?_of_isZero hzero] at hint
            exact (Option.some.inj hint).symm

theorem toJson_function (serial : Nat) (method : String) (receiver : Value) :
    toJson (.function serial method receiver) = .string "[function]" := by
  rw [toJson, text, write]
  rfl

theorem toJson_handle (h : Handle) :
    toJson (.handle h) = .string (String.ofList ('[' :: (h.typeName.toList ++ [']']))) := by
  rw [toJson, text, write]
  rfl

/-- **The conversion to JSON keeps the truth** of every value that is no infinite number. -/
theorem truthy_toJson (v : Value) : v.toJson.truthy = (v.truthy && !v.isInfinite) := by
  cases v with
  | null => rfl
  | bool b => exact (Bool.and_true b).symm
  | number x => rw [toJson, truthy_numberToJson, truthy, isInfinite]
  | string s => exact (Bool.and_true _).symm
  | array items => rfl
  | record fields => rfl
  | function serial method receiver =>
      rw [toJson_function]
      rfl
  | handle h =>
      rw [toJson_handle]
      show (!(String.ofList _).isEmpty) = true
      simp

theorem truthy_of_isInfinite {v : Value} (h : v.isInfinite = true) : v.truthy = true := by
  cases v with
  | number x =>
      rw [isInfinite, Number.isInfinite, beq_iff_eq] at h
      simp [truthy, Number.truthy, Number.isZero, Number.isNaN, h, Number.infiniteMagnitude]
  | _ => cases h

/-- JSON has nothing but null for an infinite number. -/
theorem toJson_of_isInfinite {v : Value} (h : v.isInfinite = true) : v.toJson = .null := by
  cases v with
  | number x =>
      rw [isInfinite] at h
      exact numberToJson_of_not_isFinite (by rw [Number.isFinite_eq, h]; rfl)
  | _ => cases h

end Value

/-! ## The texts of what is false -/

namespace Json

theorem mem_falsyTexts {s : String} :
    s ∈ falsyTexts ↔
      s.toList ∈ [['n', 'u', 'l', 'l'], ['f', 'a', 'l', 's', 'e'], ['0'], ['"', '"']] := by
  simp [falsyTexts, ← String.toList_inj]

/-- A false text that begins as a number is that of zero. -/
theorem eq_zero_of_falsy {s : List Char} {c : Char} {rest : List Char} (hs : s = c :: rest)
    (hc : c = '-' ∨ Decimal.isDigit c = true) (h : String.ofList s ∈ falsyTexts) : s = ['0'] := by
  rw [mem_falsyTexts, String.toList_ofList, hs] at h
  fin_cases h
  · exact absurd hc (by decide)
  · exact absurd hc (by decide)
  · exact hs
  · exact absurd hc (by decide)

theorem pretty_integer_falsy (i : Int) : (integer i).pretty ∈ falsyTexts ↔ i = 0 := by
  rw [pretty, indented, ← Decimal.intText_eq_zero_iff]
  constructor
  · obtain ⟨c, rest, hdigits, hc⟩ := Decimal.digitsOfNat_cons i.natAbs
    intro h
    by_cases hneg : i < 0
    · exact eq_zero_of_falsy (by rw [Decimal.intText, if_pos hneg]) (Or.inl rfl) h
    · exact eq_zero_of_falsy (by rw [Decimal.intText, if_neg hneg, hdigits]) (Or.inr hc) h
  · intro h
    rw [h]
    decide

theorem pretty_float_not_falsy {x : Number} (hfin : x.isFinite = true) : (float x).pretty ∉ falsyTexts := by
  intro h
  rw [pretty, indented, Number.jsonText, if_pos hfin] at h
  obtain ⟨c, rest, hs, hc, hrest⟩ :=
    Decimal.scientific_cons (x.shortest .even).digits (x.shortest .even).exponent
  simp only [hs] at h
  cases hneg : x.negative with
  | true =>
      rw [hneg] at h
      cases eq_zero_of_falsy (c := '-') rfl (Or.inl rfl) h
  | false =>
      rw [hneg] at h
      cases eq_zero_of_falsy rfl (Or.inr hc) h
      exact hrest rfl

theorem pretty_string_falsy (s : String) : (string s).pretty ∈ falsyTexts ↔ s = "" := by
  rw [pretty, indented, Text.Quoted.quote, mem_falsyTexts, String.toList_ofList,
    ← String.toList_inj]
  cases s.toList with
  | nil => decide
  | cons c rest =>
      -- One more character between the quotes is at least one more in the text.
      have hbody : Text.Quoted.body (c :: rest) ≠ [] := by
        simp [Text.Quoted.body, Text.Quoted.escape_ne_nil]
      simp [Text.Quoted.encode, hbody]

theorem pretty_array_not_falsy (items : List Json) : (array items).pretty ∉ falsyTexts := by
  cases items with
  | nil => decide
  | cons item items => simp [pretty, indented, mem_falsyTexts, String.toList_append]

theorem pretty_object_not_falsy (entries : List (String × Json)) : (object entries).pretty ∉ falsyTexts := by
  match entries with
  | [] => decide
  | (key, j) :: entries => simp [pretty, indented, mem_falsyTexts, String.toList_append]

end Json

namespace Value

/-- **A value is printed as a false text** when the JSON value that it becomes is false. -/
theorem pretty_toJson_falsy (v : Value) :
    v.toJson.pretty ∈ Json.falsyTexts ↔ v.toJson.truthy = false := by
  cases v with
  | null => exact iff_of_true (by decide) rfl
  | bool b => cases b <;> decide
  | number x =>
      rw [toJson]
      cases hfin : x.isFinite with
      | false =>
          rw [numberToJson_of_not_isFinite hfin]
          exact iff_of_true (by decide) rfl
      | true =>
          cases hint : x.shortInt? with
          | some i => simp [numberToJson_of_shortInt? hint, Json.pretty_integer_falsy, Json.truthy]
          | none =>
              have hzero : x.isZero = false := by
                rw [Bool.eq_false_iff]
                intro hzero
                simp [Number.shortInt?_of_isZero hzero] at hint
              rw [numberToJson_of_isFinite hint hfin, Json.truthy, Number.truthy_of_isFinite hfin,
                hzero]
              exact iff_of_false (Json.pretty_float_not_falsy hfin) (by decide)
  | string s => simp [toJson, Json.pretty_string_falsy, Json.truthy]
  | array items => exact iff_of_false (Json.pretty_array_not_falsy _) (by simp [toJson, Json.truthy])
  | record fields => exact iff_of_false (Json.pretty_object_not_falsy _) (by simp [toJson, Json.truthy])
  | function serial method receiver =>
      rw [toJson_function, Json.pretty_string_falsy]
      decide
  | handle h =>
      rw [toJson_handle, Json.pretty_string_falsy]
      simp [Json.truthy]

end Value

end WhenClause
