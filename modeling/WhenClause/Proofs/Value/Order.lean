import Mathlib.Data.String.Basic
import Mathlib.Order.Compare
import WhenClause.Evaluation.Eval
import WhenClause.Proofs.Value.Equality

set_option autoImplicit false

/-! # The order of values is coherent

Values are ordered by two measures. Two strings are ordered as strings; of any other two values each
is measured by its place among the numbers (`Value.place?`), which NaN and what is no number do not
have. Whatever the measure, the outcome is that of a linear order on the values that have one
(`Value.OrderedBy`), and from that the laws of the ordering operators follow
(`Value.order_coherent`). There is no law across the measures: the strings `"10"` and `"9"` are
ordered one way, and as the numbers that they spell the other way. -/

namespace WhenClause

/-! ## The operators that order -/

namespace Operator

/-- The operators that order their operands. -/
def orderings : List Operator := [less, lessEqual, greater, greaterEqual]

/-- The operator that says the same of its operands in exchanged places. -/
def converse : Operator → Operator
  | less => greater
  | lessEqual => greaterEqual
  | greater => less
  | greaterEqual => lessEqual
  | op => op

/-- Values that are not ordered are in no order. -/
theorem holds_of_unordered {op : Operator} (hop : op ∈ orderings) {v w : Value}
    (h : v.compare w = none) : op.holds v w = false := by
  fin_cases hop <;> simp [holds, h]

end Operator

/-! ## Measures -/

/-- The place of a number in the order of numbers. NaN has none. -/
def Number.place? (x : Number) : Option Int := if x.isNaN then none else some x.rank

theorem Number.compare_eq_place (x y : Number) :
    x.compare y = x.place?.bind fun p => y.place?.map fun q => Ord.compare p q := by
  unfold compare place?
  cases x.isNaN <;> cases y.isNaN <;> rfl

namespace Value

def isString : Value → Bool
  | .string _ => true
  | _ => false

/-- The place of a value among the numbers, if it is coerced to one that has a place. -/
def place? (v : Value) : Option Int := v.coerce?.bind Number.place?

/-- The two values are ordered as their measures are, and not at all if one of them has none. -/
def OrderedBy {α : Type} [LinearOrder α] (measure : Value → Option α) (v w : Value) : Prop :=
  v.compare w = (measure v).bind fun p => (measure w).map fun q => Ord.compare p q

theorem orderedBy_string? {v w : Value} (hv : v.isString = true) (hw : w.isString = true) :
    OrderedBy string? v w := by
  cases v with
  | string s =>
      cases w with
      | string t => rfl
      | _ => cases hw
  | _ => cases hv

/-- Values are ordered by their places, unless both are strings. -/
theorem orderedBy_place? {v w : Value} (h : ¬ (v.isString = true ∧ w.isString = true)) :
    OrderedBy place? v w := by
  have hstrings : ∀ s t, v = string s → w ≠ string t := by
    rintro s t rfl rfl
    exact h ⟨rfl, rfl⟩
  rw [OrderedBy, compare_eq_coerce hstrings, place?, place?]
  cases v.coerce? with
  | none => rfl
  | some x =>
      cases w.coerce? with
      | none => exact (Option.bind_fun_none x.place?).symm
      | some y => exact Number.compare_eq_place x y

/-! ## The laws of a measure -/

section

variable {α : Type} [LinearOrder α] {measure : Value → Option α} {a b c v w : Value}

theorem OrderedBy.swap (h : OrderedBy measure v w) (h' : OrderedBy measure w v) :
    w.compare v = (v.compare w).map Ordering.swap := by
  rw [h, h']
  cases measure v with
  | none => cases measure w <;> rfl
  | some p =>
      cases measure w with
      | none => rfl
      | some q => exact congrArg some Std.OrientedOrd.eq_swap

/-- The outcome of a comparison, and the measures that it comes from. -/
theorem OrderedBy.compare_eq_some (h : OrderedBy measure v w) (outcome : Ordering) :
    v.compare w = some outcome ↔
      ∃ p q, measure v = some p ∧ measure w = some q ∧ Ord.compare p q = outcome := by
  rw [h]
  simp only [Option.bind_eq_some_iff, Option.map_eq_some_iff]
  constructor
  · rintro ⟨p, hp, q, hq, hpq⟩
    exact ⟨p, q, hp, hq, hpq⟩
  · rintro ⟨p, q, hp, hq, hpq⟩
    exact ⟨p, hp, q, hq, hpq⟩

theorem OrderedBy.less_iff (h : OrderedBy measure v w) :
    Operator.less.holds v w = true ↔
      ∃ p q, measure v = some p ∧ measure w = some q ∧ p < q := by
  rw [Operator.holds, beq_iff_eq, h.compare_eq_some]
  simp only [compare_lt_iff_lt]

theorem OrderedBy.lessEqual_iff (h : OrderedBy measure v w) :
    Operator.lessEqual.holds v w = true ↔
      ∃ p q, measure v = some p ∧ measure w = some q ∧ p ≤ q := by
  rw [Operator.holds, Bool.or_eq_true, beq_iff_eq, beq_iff_eq, h.compare_eq_some,
    h.compare_eq_some]
  simp only [compare_lt_iff_lt, compare_eq_iff_eq, le_iff_lt_or_eq]
  constructor
  · rintro (⟨p, q, hp, hq, hlt⟩ | ⟨p, q, hp, hq, heq⟩)
    · exact ⟨p, q, hp, hq, Or.inl hlt⟩
    · exact ⟨p, q, hp, hq, Or.inr heq⟩
  · rintro ⟨p, q, hp, hq, hlt | heq⟩
    · exact Or.inl ⟨p, q, hp, hq, hlt⟩
    · exact Or.inr ⟨p, q, hp, hq, heq⟩

theorem OrderedBy.less_irrefl (h : OrderedBy measure v v) : Operator.less.holds v v = false := by
  rw [Bool.eq_false_iff, Ne, h.less_iff]
  rintro ⟨p, q, hp, hq, hlt⟩
  rw [hp] at hq
  exact lt_irrefl p (Option.some.inj hq ▸ hlt)

theorem OrderedBy.less_trans (hab : OrderedBy measure a b) (hbc : OrderedBy measure b c)
    (hac : OrderedBy measure a c) (h : Operator.less.holds a b = true)
    (h' : Operator.less.holds b c = true) : Operator.less.holds a c = true := by
  obtain ⟨p, q, hp, hq, hpq⟩ := hab.less_iff.mp h
  obtain ⟨q', r, hq', hr, hqr⟩ := hbc.less_iff.mp h'
  obtain rfl : q = q' := Option.some.inj (hq.symm.trans hq')
  exact hac.less_iff.mpr ⟨p, r, hp, hr, hpq.trans hqr⟩

theorem OrderedBy.lessEqual_trans (hab : OrderedBy measure a b) (hbc : OrderedBy measure b c)
    (hac : OrderedBy measure a c) (h : Operator.lessEqual.holds a b = true)
    (h' : Operator.lessEqual.holds b c = true) : Operator.lessEqual.holds a c = true := by
  obtain ⟨p, q, hp, hq, hpq⟩ := hab.lessEqual_iff.mp h
  obtain ⟨q', r, hq', hr, hqr⟩ := hbc.lessEqual_iff.mp h'
  obtain rfl : q = q' := Option.some.inj (hq.symm.trans hq')
  exact hac.lessEqual_iff.mpr ⟨p, r, hp, hr, hpq.trans hqr⟩

end

/-! ## The laws of the order of values -/

/-- In exchanged places two values are in the reverse order. -/
theorem compare_swap (v w : Value) : w.compare v = (v.compare w).map Ordering.swap := by
  by_cases h : v.isString = true ∧ w.isString = true
  · exact (orderedBy_string? h.1 h.2).swap (orderedBy_string? h.2 h.1)
  · exact (orderedBy_place? h).swap (orderedBy_place? fun h' => h h'.symm)

/-- The value is null, a boolean, a number or a string. -/
def isScalar : Value → Bool
  | .null | .bool _ | .number _ | .string _ => true
  | .array _ | .record _ | .function _ _ _ | .handle _ => false

/-- Equal values are ordered as equal where they are no arrays, records, functions or handles, which
are not ordered at all. -/
theorem compare_of_deepEq {v w : Value} (hv : v.isScalar = true) (h : deepEq v w = true) :
    v.compare w = some .eq := by
  cases v <;> cases w <;> simp only [isScalar, deepEq, Bool.false_eq_true] at hv h
  case null.null => decide
  case bool.bool a b =>
    rw [beq_iff_eq.mp h]
    cases b <;> decide
  case number.number x y =>
    obtain ⟨hx, hy, hrank⟩ := Number.equal_iff.mp h
    have heq : Ord.compare x.rank y.rank = .eq := compare_eq_iff_eq.mpr hrank
    show x.compare y = some .eq
    rw [Number.compare, hx, hy, Bool.or_false, if_neg Bool.false_ne_true, heq]
  case string.string s t =>
    have heq : Ord.compare t t = .eq := compare_eq_iff_eq.mpr rfl
    rw [beq_iff_eq.mp h]
    exact congrArg some heq

/-- Values of which both are strings, or neither is, are ordered by one measure. -/
theorem exists_measure (v : Value) :
    ∃ (α : Type) (_ : LinearOrder α) (measure : Value → Option α),
      ∀ a b : Value, a.isString = v.isString → b.isString = v.isString →
        OrderedBy measure a b := by
  cases hv : v.isString with
  | true => exact ⟨String, inferInstance, string?, fun a b => orderedBy_string?⟩
  | false =>
      refine ⟨Int, inferInstance, place?, fun a b ha _ => orderedBy_place? fun h => ?_⟩
      rw [ha] at h
      exact Bool.false_ne_true h.1

end Value

/-- Every operator says the same as its converse of the operands in exchanged places. -/
theorem Operator.holds_converse (op : Operator) (v w : Value) :
    op.converse.holds w v = op.holds v w := by
  have hswap := Value.compare_swap v w
  cases op with
  | and => exact Bool.and_comm _ _
  | or => exact Bool.or_comm _ _
  | equal => exact Value.deepEq_comm w v
  | notEqual => exact congrArg not (Value.deepEq_comm w v)
  | _ =>
      simp only [converse, holds, hswap]
      cases v.compare w with
      | none => rfl
      | some outcome => cases outcome <;> rfl

namespace Value

open Operator

/-- **The order of values is coherent.** In exchanged places two values are in the reverse order, so
`<` and `>` are converses, and so are `<=` and `>=`; of two values that are not ordered no ordering
operator holds. Equal scalars are in both weak orders and in no strict one; NaN is no exception, for
it equals nothing. Among the strings, and among the values that are no strings, `<` is irreflexive
and transitive, and `<=` is transitive. -/
theorem order_coherent (a b : Value) :
    b.compare a = (a.compare b).map Ordering.swap ∧
    less.holds a b = greater.holds b a ∧
    lessEqual.holds a b = greaterEqual.holds b a ∧
    (a.compare b = none → ∀ op ∈ orderings, op.holds a b = false) ∧
    (a.isScalar = true → equal.holds a b = true →
      lessEqual.holds a b = true ∧ greaterEqual.holds a b = true ∧
      less.holds a b = false ∧ greater.holds a b = false) ∧
    less.holds a a = false ∧
    ∀ c : Value, a.isString = b.isString → b.isString = c.isString →
      (less.holds a b = true → less.holds b c = true → less.holds a c = true) ∧
      (lessEqual.holds a b = true → lessEqual.holds b c = true → lessEqual.holds a c = true) := by
  obtain ⟨α, _, measure, hmeasure⟩ := exists_measure a
  refine ⟨compare_swap a b, (holds_converse less a b).symm, (holds_converse lessEqual a b).symm,
    fun hnone op hop => holds_of_unordered hop hnone, fun hscalar hequal => ?_,
    (hmeasure a a rfl rfl).less_irrefl, fun c hab hbc => ?_⟩
  · have hcompare : a.compare b = some .eq := compare_of_deepEq hscalar hequal
    simp [holds, hcompare]
  · have hb : b.isString = a.isString := hab.symm
    have hc : c.isString = a.isString := hbc.symm.trans hb
    exact ⟨(hmeasure a b rfl hb).less_trans (hmeasure b c hb hc) (hmeasure a c rfl hc),
      (hmeasure a b rfl hb).lessEqual_trans (hmeasure b c hb hc) (hmeasure a c rfl hc)⟩

/-- Across the measures `<` is not transitive: of the strings `"10"` and `"9"` the first one is the
smaller, and `"9"` is smaller than the number 10, but `"10"` is not. -/
example :
    less.holds (string "10") (string "9") = true ∧
      less.holds (string "9") (number (Number.ofNat 10)) = true ∧
      less.holds (string "10") (number (Number.ofNat 10)) = false := by
  decide +kernel

end Value

end WhenClause
