import Mathlib
import WhenClause.Number.Shortest

set_option autoImplicit false

/-! # Rounding to the nearest number

A quotient of natural numbers is rounded to a number exactly when it lies in the rounding
interval of that number (`Number.interval`). The file proves the half of this that reading
needs: from `Interval.Holds` to `ofRatio`, and from there to the number nearest to a decimal
(`Decimal.toNumber_eq`). A natural number is rounded alike, also where it is read as infinity
because it has too many digits (`Decimal.toNumber_ofNat`). Quotients are compared as rationals,
since their written forms as pairs of naturals are not unique. -/

namespace WhenClause.Number

/-! ## Quotients as rationals -/

/-- The way in which `ofRatio` scales a quotient by a power of two. -/
theorem cast_scaled (num den : Nat) (q : Int) :
    ((num * 2 ^ (-q).toNat : Nat) : ℚ) / ((den * 2 ^ q.toNat : Nat) : ℚ)
      = (num / den : ℚ) / (2 : ℚ) ^ q := by
  obtain ⟨n, rfl | rfl⟩ := q.eq_nat_or_neg
  · simp [div_div]
  · simp
    ring

/-- The way in which decimals are scaled by a power of ten. -/
theorem cast_decimal (digits : Nat) (e : Int) :
    ((digits * 10 ^ e.toNat : Nat) : ℚ) / ((10 ^ (-e).toNat : Nat) : ℚ)
      = (digits : ℚ) * (10 : ℚ) ^ e := by
  obtain ⟨n, rfl | rfl⟩ := e.eq_nat_or_neg
  · simp
  · simp [div_eq_mul_inv]

/-- A natural number lies between the powers of two that its logarithm names. -/
theorem cast_log2 {n : Nat} (hn : 0 < n) :
    (2 : ℚ) ^ (n.log2 : Int) ≤ n ∧ (n : ℚ) < 2 ^ ((n.log2 : Int) + 1) := by
  constructor
  · have h := Nat.log2_self_le (n := n) (by omega)
    exact_mod_cast h
  · have h := Nat.lt_log2_self (n := n)
    exact_mod_cast h

/-- `ratioLog` is the logarithm of a positive quotient. -/
theorem ratioLog_spec {num den : Nat} (hn : 0 < num) (hd : 0 < den) :
    (2 : ℚ) ^ ratioLog num den ≤ num / den ∧ (num / den : ℚ) < 2 ^ (ratioLog num den + 1) := by
  obtain ⟨n₁, n₂⟩ := cast_log2 hn
  obtain ⟨d₁, d₂⟩ := cast_log2 hd
  have hd' : (0 : ℚ) < den := by exact_mod_cast hd
  set a : Int := (num.log2 : Int)
  set b : Int := (den.log2 : Int)
  have upper : (num / den : ℚ) < 2 ^ (a - b + 1) := by
    rw [div_lt_iff₀ hd']
    calc (num : ℚ) < 2 ^ (a + 1) := n₂
      _ = 2 ^ (a - b + 1) * 2 ^ b := by rw [← zpow_add₀ (by norm_num)]; congr 1; ring
      _ ≤ 2 ^ (a - b + 1) * den := by gcongr
  have lower : (2 : ℚ) ^ (a - b - 1) ≤ num / den := by
    rw [le_div_iff₀ hd']
    calc (2 : ℚ) ^ (a - b - 1) * den ≤ 2 ^ (a - b - 1) * 2 ^ (b + 1) := by gcongr
      _ = 2 ^ a := by rw [← zpow_add₀ (by norm_num)]; congr 1; ring
      _ ≤ num := n₁
  -- The test in `ratioLog` compares the quotient with the power in the middle.
  have test : (den * 2 ^ (a - b).toNat ≤ num * 2 ^ (-(a - b)).toNat) ↔
      (2 : ℚ) ^ (a - b) ≤ num / den := by
    have hpos : (0 : ℚ) < ((den * 2 ^ (a - b).toNat : Nat) : ℚ) := by
      exact_mod_cast Nat.mul_pos hd (by positivity)
    rw [← Nat.cast_le (α := ℚ), ← one_le_div hpos, cast_scaled,
      one_le_div (by positivity)]
  unfold ratioLog
  by_cases h : den * 2 ^ (a - b).toNat ≤ num * 2 ^ (-(a - b)).toNat
  · rw [if_pos h]
    exact ⟨test.mp h, upper⟩
  · rw [if_neg h, sub_add_cancel]
    exact ⟨lower, not_le.mp fun hle => h (test.mpr hle)⟩

/-- A quotient below a power of two has a smaller logarithm. -/
theorem ratioLog_lt {num den : Nat} (hn : 0 < num) (hd : 0 < den) {e : Int}
    (h : (num / den : ℚ) < 2 ^ e) : ratioLog num den < e :=
  (zpow_lt_zpow_iff_right₀ (by norm_num)).mp (lt_of_le_of_lt (ratioLog_spec hn hd).1 h)

/-- A quotient from a power of two on has at least its logarithm. -/
theorem le_ratioLog {num den : Nat} (hn : 0 < num) (hd : 0 < den) {e : Int}
    (h : (2 : ℚ) ^ e ≤ num / den) : e ≤ ratioLog num den := by
  have hlt := (zpow_lt_zpow_iff_right₀ (by norm_num)).mp
    (lt_of_le_of_lt h (ratioLog_spec hn hd).2)
  omega

/-! ## The nearest integer -/

/-- `k` is the integer nearest to `r`, and even if a neighbour is as near. -/
def Near (r : ℚ) (k : Nat) : Prop :=
  (k - 1 / 2 ≤ r ∧ r ≤ k + 1 / 2) ∧ (k % 2 = 0 ∨ (k - 1 / 2 < r ∧ r < k + 1 / 2))

theorem divEven_eq_of_near {a b k : Nat} (hb : 0 < b) (h : Near (a / b) k) :
    divEven a b = k := by
  have hb' : (0 : ℚ) < b := by exact_mod_cast hb
  obtain ⟨⟨low, high⟩, tie⟩ := h
  have low' : 2 * (k * b) ≤ 2 * a + b := by
    rw [le_div_iff₀ hb'] at low
    have : (2 * (k * b) : ℚ) ≤ 2 * a + b := by linarith
    exact_mod_cast this
  have high' : 2 * a ≤ 2 * (k * b) + b := by
    rw [div_le_iff₀ hb'] at high
    have : (2 * a : ℚ) ≤ 2 * (k * b) + b := by linarith
    exact_mod_cast this
  have tie' : k % 2 = 0 ∨ (2 * (k * b) < 2 * a + b ∧ 2 * a < 2 * (k * b) + b) := by
    refine tie.imp_right fun ⟨l, u⟩ => ⟨?_, ?_⟩
    · rw [lt_div_iff₀ hb'] at l
      have : (2 * (k * b) : ℚ) < 2 * a + b := by linarith
      exact_mod_cast this
    · rw [div_lt_iff₀ hb'] at u
      have : (2 * a : ℚ) < 2 * (k * b) + b := by linarith
      exact_mod_cast this
  have hdiv := Nat.div_add_mod a b
  have hmod := Nat.mod_lt a hb
  rw [mul_comm b] at hdiv
  -- The quotient is `k`, or `k - 1` with a remainder of at least a half.
  have hq : a / b = k ∨ a / b + 1 = k := by
    have h₁ : a / b < k + 1 := by
      by_contra hc
      have : (k + 1) * b ≤ a / b * b := Nat.mul_le_mul_right b (by omega)
      rw [Nat.add_mul] at this
      omega
    have h₂ : k < a / b + 2 := by
      by_contra hc
      have : (a / b + 2) * b ≤ k * b := Nat.mul_le_mul_right b (by omega)
      rw [Nat.add_mul] at this
      omega
    omega
  unfold divEven
  simp only [Bool.or_eq_true, Bool.and_eq_true, decide_eq_true_eq, beq_iff_eq]
  rcases hq with hq | hq
  · rw [hq] at hdiv ⊢
    split <;> omega
  · have hk : k * b = a / b * b + b := by rw [← hq, Nat.add_mul, Nat.one_mul]
    split <;> omega

/-! ## The interval of a number -/

/-- The rational lies in the interval, the ends included if the interval is closed. -/
def Interval.Holds (i : Interval) (r : ℚ) : Prop :=
  ((i.low : ℚ) / i.den ≤ r ∧ r ≤ (i.high : ℚ) / i.den) ∧
    (i.closed = true ∨ ((i.low : ℚ) / i.den < r ∧ r < (i.high : ℚ) / i.den))

def absValue (x : Number) : ℚ := x.significand * 2 ^ x.scale

/-- The magnitude word in terms of significand and scale. -/
theorem magnitude_eq (x : Number) :
    x.magnitude.val = (x.scale + 1074).toNat * 2 ^ 52 + x.significand := by
  have h := Nat.div_add_mod x.magnitude.val (2 ^ 52)
  unfold scale significand exponentField
  split <;> omega

/-- The significand has 53 bits, the first of them set unless the scale is the least one. -/
theorem significand_bounds (x : Number) :
    x.significand < 2 ^ 53 ∧ (2 ^ 52 ≤ x.significand ∨ x.scale = -1074) := by
  have h := Nat.div_add_mod x.magnitude.val (2 ^ 52)
  have hm := Nat.mod_lt x.magnitude.val (show 0 < 2 ^ 52 by decide)
  unfold scale significand exponentField
  split <;> omega

/-- The scales of finite numbers. -/
theorem scale_bounds {x : Number} (hx : x.isFinite = true) : -1074 ≤ x.scale ∧ x.scale ≤ 971 := by
  have h : x.magnitude.val < infiniteMagnitude := by simpa [isFinite] using hx
  have hdiv : x.exponentField < 2047 := by
    unfold exponentField
    unfold infiniteMagnitude at h
    omega
  unfold scale
  omega

theorem significand_pos {x : Number} (hx : x.isZero = false) : 0 < x.significand := by
  have h : x.magnitude.val ≠ 0 := by simpa [isZero] using hx
  rw [magnitude_eq] at h
  have := significand_bounds x
  by_contra hc
  have hs : x.scale = -1074 := by omega
  rw [hs] at h
  omega

/-- The gap below a number, in quarters of its last place. -/
def gapBelow (x : Number) : Nat := if x.significand = 2 ^ 52 ∧ 1 < x.exponentField then 1 else 2

theorem gapBelow_le (x : Number) : x.gapBelow ≤ 2 := by
  unfold gapBelow
  split <;> omega

/-- The ends of the interval of a number, in its last place. -/
theorem interval_holds_iff {x : Number} (hx : x.isZero = false) (r : ℚ) :
    x.interval.Holds r ↔
      (x.significand - x.gapBelow / 4 ≤ r / 2 ^ x.scale ∧
        r / 2 ^ x.scale ≤ x.significand + 1 / 2) ∧
      (x.significand % 2 = 0 ∨ (x.significand - x.gapBelow / 4 < r / 2 ^ x.scale ∧
        r / 2 ^ x.scale < x.significand + 1 / 2)) := by
  have hpow : (0 : ℚ) < 2 ^ x.scale := by positivity
  have hscale : (2 : ℚ) ^ (x.scale - 2) = 2 ^ x.scale / 4 := by
    rw [zpow_sub₀ (by norm_num)]
    norm_num
  have hgap := gapBelow_le x
  have hpos := significand_pos hx
  have hends (k : Nat) : ((k * 2 ^ (x.scale - 2).toNat : Nat) : ℚ)
      / ((2 ^ (-(x.scale - 2)).toNat : Nat) : ℚ) = (k : ℚ) / 4 * 2 ^ x.scale := by
    have h := cast_scaled k 1 (-(x.scale - 2))
    rw [neg_neg, Nat.one_mul, zpow_neg, div_inv_eq_mul, Nat.cast_one, div_one, hscale] at h
    rw [h]
    ring
  have hlow : (x.interval.low : ℚ) / x.interval.den
      = (x.significand - x.gapBelow / 4) * 2 ^ x.scale := by
    have h := hends (4 * x.significand - x.gapBelow)
    rw [Nat.cast_sub (by omega)] at h
    unfold interval
    unfold gapBelow at h ⊢
    rw [h]
    push_cast
    ring
  have hhigh : (x.interval.high : ℚ) / x.interval.den
      = (x.significand + 1 / 2) * 2 ^ x.scale := by
    have h := hends (4 * x.significand + 2)
    unfold interval
    rw [h]
    push_cast
    ring
  have hclosed : x.interval.closed = true ↔ x.significand % 2 = 0 := by
    simp [interval]
  unfold Interval.Holds
  rw [hlow, hhigh, hclosed, le_div_iff₀ hpow, div_le_iff₀ hpow, lt_div_iff₀ hpow,
    div_lt_iff₀ hpow]

/-- A finite number lies in its own interval. -/
theorem absValue_mem {x : Number} (hx : x.isZero = false) : x.interval.Holds x.absValue := by
  have hpow : (2 : ℚ) ^ x.scale ≠ 0 := by positivity
  have hgap : 0 < x.gapBelow := by unfold gapBelow; split <;> decide
  have hgap' : (0 : ℚ) < x.gapBelow := by exact_mod_cast hgap
  rw [interval_holds_iff hx, absValue, mul_div_cancel_right₀ _ hpow]
  refine ⟨⟨by linarith, by linarith⟩, Or.inr ⟨by linarith, by linarith⟩⟩

/-! ## From the interval to the number -/

/-- A finite number is found from its sign and its magnitude word. -/
theorem ofMagnitude_magnitude {x : Number} (hx : x.isFinite = true) :
    ofMagnitude x.negative x.magnitude.val = x := by
  have h : x.magnitude.val < infiniteMagnitude := by simpa [isFinite] using hx
  have hmin : min x.magnitude.val infiniteMagnitude = x.magnitude.val := by omega
  simp only [ofMagnitude, hmin]

/-- The word that `ofRatio` computes, when the scaled quotient is near an integer. -/
theorem ofRatio_of_near {negative : Bool} {num den : Nat} {q : Int} {k : Nat} (hn : 0 < num)
    (hd : 0 < den) (hq : max (ratioLog num den - 52) (-1074) = q)
    (hk : Near ((num / den : ℚ) / 2 ^ q) k) :
    ofRatio negative num den = ofMagnitude negative ((q + 1074).toNat * 2 ^ 52 + k) := by
  have hdiv : divEven (num * 2 ^ (-q).toNat) (den * 2 ^ q.toNat) = k := by
    apply divEven_eq_of_near (Nat.mul_pos hd (by positivity))
    rwa [cast_scaled]
  unfold ofRatio
  rw [if_neg (by omega)]
  simp only [hq, hdiv]

section

variable {x : Number} {num den : Nat}

/-- A power of two against a quotient, and against the same quotient without its scale. -/
theorem zpow_scaled (a q : Int) (r : ℚ) :
    ((2 : ℚ) ^ (q + a) ≤ r ↔ (2 : ℚ) ^ a ≤ r / 2 ^ q) ∧
      (r < (2 : ℚ) ^ (q + a) ↔ r / 2 ^ q < (2 : ℚ) ^ a) := by
  have hpow : (0 : ℚ) < 2 ^ q := by positivity
  rw [zpow_add₀ (by norm_num), mul_comm, le_div_iff₀ hpow, div_lt_iff₀ hpow]
  exact ⟨Iff.rfl, Iff.rfl⟩

/-- A quotient of the scale of a number, and near its significand, is rounded to it. -/
theorem ofRatio_eq_of_scale (hfin : x.isFinite = true) (hn : 0 < num) (hd : 0 < den)
    (low : 2 ^ 52 ≤ (num / den : ℚ) / 2 ^ x.scale ∨ x.scale = -1074)
    (high : (num / den : ℚ) / 2 ^ x.scale < 2 ^ 53)
    (hnear : Near ((num / den : ℚ) / 2 ^ x.scale) x.significand) :
    ofRatio x.negative num den = x := by
  have hq : max (ratioLog num den - 52) (-1074) = x.scale := by
    have hscale := (scale_bounds hfin).1
    have hlt : ratioLog num den < x.scale + 53 :=
      ratioLog_lt hn hd ((zpow_scaled 53 _ _).2.mpr (by exact_mod_cast high))
    rcases low with hbig | hleast
    · have hle : x.scale + 52 ≤ ratioLog num den :=
        le_ratioLog hn hd ((zpow_scaled 52 _ _).1.mpr (by exact_mod_cast hbig))
      omega
    · omega
  rw [ofRatio_of_near hn hd hq hnear, ← magnitude_eq]
  exact ofMagnitude_magnitude hfin

/-- A quotient just below a power of two is rounded up to it, from the next smaller scale. -/
theorem ofRatio_eq_of_below (hfin : x.isFinite = true) (hn : 0 < num) (hd : 0 < den)
    (hsig : x.significand = 2 ^ 52) (hscale : -1074 < x.scale)
    (low : 2 ^ 52 - 1 / 4 ≤ (num / den : ℚ) / 2 ^ x.scale)
    (high : (num / den : ℚ) / 2 ^ x.scale < 2 ^ 52) :
    ofRatio x.negative num den = x := by
  have hq : max (ratioLog num den - 52) (-1074) = x.scale - 1 := by
    have hlt : ratioLog num den < x.scale + 52 :=
      ratioLog_lt hn hd ((zpow_scaled 52 _ _).2.mpr (by exact_mod_cast high))
    have hle : x.scale + 51 ≤ ratioLog num den := by
      refine le_ratioLog hn hd ((zpow_scaled 51 _ _).1.mpr ?_)
      norm_num at low ⊢
      linarith
    omega
  have hhalf : (num / den : ℚ) / 2 ^ (x.scale - 1) = 2 * ((num / den : ℚ) / 2 ^ x.scale) := by
    rw [zpow_sub_one₀ (by norm_num)]
    field_simp
  have hnear : Near ((num / den : ℚ) / 2 ^ (x.scale - 1)) (2 ^ 53) := by
    rw [hhalf]
    refine ⟨⟨?_, ?_⟩, Or.inl (by decide)⟩
    · push_cast
      linarith
    · push_cast
      linarith
  have hword : (x.scale - 1 + 1074).toNat * 2 ^ 52 + 2 ^ 53 = x.magnitude.val := by
    rw [magnitude_eq, hsig]
    omega
  rw [ofRatio_of_near hn hd hq hnear, hword]
  exact ofMagnitude_magnitude hfin

/-- **Rounding.** A quotient in the interval of a finite number other than zero is rounded to
that number. -/
theorem ofRatio_eq (hfin : x.isFinite = true) (hzero : x.isZero = false) (hd : 0 < den)
    (h : x.interval.Holds (num / den)) : ofRatio x.negative num den = x := by
  obtain ⟨⟨low, high⟩, tie⟩ := (interval_holds_iff hzero _).mp h
  obtain ⟨hbits, hnormal⟩ := significand_bounds x
  have hsig : (1 : ℚ) ≤ x.significand := by exact_mod_cast significand_pos hzero
  have hsig' : (x.significand : ℚ) + 1 ≤ 2 ^ 53 := by exact_mod_cast hbits
  have hgap : (x.gapBelow : ℚ) ≤ 2 := by exact_mod_cast gapBelow_le x
  have hn : 0 < num := by
    by_contra hc
    rw [show num = 0 by omega, Nat.cast_zero, zero_div, zero_div] at low
    linarith
  by_cases hcase : 2 ^ 52 ≤ (num / den : ℚ) / 2 ^ x.scale ∨ x.scale = -1074
  · refine ofRatio_eq_of_scale hfin hn hd hcase (by linarith) ?_
    exact ⟨⟨by linarith, high⟩, tie.imp_right fun ⟨l, u⟩ => ⟨by linarith, u⟩⟩
  · -- Only below a power of two does the interval reach into the next smaller scale.
    rw [not_or, not_le] at hcase
    obtain ⟨hsmall, hleast⟩ := hcase
    have hpower : x.significand = 2 ^ 52 := by
      have hlt : (x.significand : ℚ) < 2 ^ 52 + 1 := by linarith
      have : x.significand < 2 ^ 52 + 1 := by exact_mod_cast hlt
      omega
    have hscale : -1074 < x.scale := lt_of_le_of_ne (scale_bounds hfin).1 (Ne.symm hleast)
    have hgap : x.gapBelow = 1 := by
      unfold scale at hscale
      rw [gapBelow, if_pos ⟨hpower, by omega⟩]
    refine ofRatio_eq_of_below hfin hn hd hpower hscale ?_ hsmall
    rw [hgap, hpower] at low
    exact_mod_cast low

end

/-- The far ends of the intervals of all finite numbers other than zero. -/
theorem bounds_of_holds {x : Number} (hfin : x.isFinite = true) (hzero : x.isZero = false)
    {r : ℚ} (h : x.interval.Holds r) : (2 : ℚ) ^ (-1075 : Int) ≤ r ∧ r < 2 ^ (1024 : Int) := by
  obtain ⟨⟨low, high⟩, -⟩ := (interval_holds_iff hzero _).mp h
  obtain ⟨hscale, hscale'⟩ := scale_bounds hfin
  have hsig : (1 : ℚ) ≤ x.significand := by exact_mod_cast significand_pos hzero
  have hsig' : (x.significand : ℚ) + 1 ≤ 2 ^ 53 := by exact_mod_cast (significand_bounds x).1
  have hgap : (x.gapBelow : ℚ) ≤ 2 := by exact_mod_cast x.gapBelow_le
  have hpow : (0 : ℚ) < 2 ^ x.scale := by positivity
  rw [le_div_iff₀ hpow] at low
  rw [div_le_iff₀ hpow] at high
  constructor
  · calc (2 : ℚ) ^ (-1075 : Int) = 1 / 2 * 2 ^ (-1074 : Int) := by
          rw [show (-1075 : Int) = -1 + -1074 by norm_num, zpow_add₀ (by norm_num)]
          norm_num
      _ ≤ (x.significand - x.gapBelow / 4) * 2 ^ x.scale := by
          have : (1 / 2 : ℚ) ≤ x.significand - x.gapBelow / 4 := by linarith
          gcongr
          norm_num
      _ ≤ r := low
  · calc r ≤ (x.significand + 1 / 2) * 2 ^ x.scale := high
      _ < 2 ^ (53 : Int) * 2 ^ x.scale := by
          gcongr
          norm_num
          linarith
      _ ≤ 2 ^ (53 : Int) * 2 ^ (971 : Int) := by
          gcongr
          norm_num
      _ = 2 ^ (1024 : Int) := by
          rw [← zpow_add₀ (by norm_num)]
          norm_num

/-- A quotient from `2 ^ 1025` on is rounded to infinity. -/
theorem ofRatio_eq_infinity (negative : Bool) {num den : Nat} (hd : 0 < den)
    (h : (2 : ℚ) ^ (1025 : Int) ≤ num / den) : ofRatio negative num den = infinity negative := by
  have hn : 0 < num := by
    by_contra hc
    rw [show num = 0 by omega, Nat.cast_zero, zero_div] at h
    exact absurd h (not_le.mpr (by positivity))
  have hlog := le_ratioLog hn hd h
  have hq : (973 : Int) ≤ max (ratioLog num den - 52) (-1074) := le_max_of_le_left (by omega)
  unfold ofRatio
  rw [if_neg hn.ne']
  generalize max (ratioLog num den - 52) (-1074) = q at hq
  dsimp only
  have hword : infiniteMagnitude ≤ (q + 1074).toNat * 2 ^ (52 : Nat)
      + divEven (num * 2 ^ (-q).toNat) (den * 2 ^ q.toNat) := by
    have hfield : 2047 ≤ (q + 1074).toNat := by omega
    exact Nat.le_add_right_of_le (Nat.mul_le_mul_right _ hfield)
  simp only [infinity, ofMagnitude, Nat.min_eq_right hword, Nat.min_self]

end WhenClause.Number

/-! ## The number nearest to a decimal -/

namespace WhenClause.Decimal

def absValue (d : Decimal) : ℚ := d.digits * 10 ^ d.exponent

/-- The digits of a natural number other than zero, as a bound of its size. -/
theorem cast_digitsOfNat_length {n : Nat} (hn : 0 < n) :
    (10 : ℚ) ^ (((digitsOfNat n).length : Int) - 1) ≤ n ∧
      (n : ℚ) < 10 ^ ((digitsOfNat n).length : Int) := by
  have hpos : 0 < (digitsOfNat n).length := Nat.length_toDigits_pos
  constructor
  · have hle : 10 ^ ((digitsOfNat n).length - 1) ≤ n := by
      by_contra hc
      rcases Nat.eq_zero_or_pos ((digitsOfNat n).length - 1) with h0 | h0
      · rw [h0] at hc
        omega
      · have hlen : (digitsOfNat n).length ≤ (digitsOfNat n).length - 1 :=
          (Nat.length_toDigits_le_iff (by decide) h0).mpr (Nat.lt_of_not_le hc)
        omega
    have hcast : (((digitsOfNat n).length : Int) - 1) = ((digitsOfNat n).length - 1 : Nat) := by
      omega
    rw [hcast, zpow_natCast]
    exact_mod_cast hle
  · have hlt := (Nat.length_toDigits_le_iff (b := 10) (by decide) hpos).mp (Nat.le_refl _)
    rw [zpow_natCast]
    exact_mod_cast hlt

/-- Numbers from `10 ^ 310` on are rounded to infinity. -/
theorem two_zpow_le : (2 : ℚ) ^ (1025 : Int) ≤ 10 ^ (310 : Int) := by
  calc (2 : ℚ) ^ (1025 : Int) = (2 ^ 205) ^ 5 := by
        rw [← pow_mul, ← zpow_natCast]
        congr 1
    _ ≤ (10 ^ 62) ^ 5 := by
        gcongr
        norm_num
    _ = 10 ^ (310 : Int) := by
        rw [← pow_mul, ← zpow_natCast]
        congr 1

/-- The largest finite number is below `10 ^ 310`. -/
theorem two_zpow_lt : (2 : ℚ) ^ (1024 : Int) < 10 ^ (310 : Int) :=
  lt_of_lt_of_le (zpow_lt_zpow_right₀ (by norm_num) (by norm_num)) two_zpow_le

/-- Half of the least positive number is above `10 ^ -324`. -/
theorem ten_zpow_le : (10 : ℚ) ^ (-324 : Int) ≤ 2 ^ (-1075 : Int) := by
  rw [zpow_neg, zpow_neg]
  have h : (2 : ℚ) ^ (1075 : Int) ≤ 10 ^ (324 : Int) := by
    calc (2 : ℚ) ^ (1075 : Int) = (2 ^ 215) ^ 5 := by
          rw [← pow_mul, ← zpow_natCast]
          congr 1
      _ ≤ 10 ^ 4 * (10 ^ 64) ^ 5 := by norm_num
      _ = 10 ^ (324 : Int) := by
          rw [← pow_mul, ← pow_add, ← zpow_natCast]
          congr 1
  gcongr

/-- The first digit of a decimal between those ends stands between the places that `toNumber`
tests. -/
theorem length_bounds {d : Decimal} (hleast : (2 : ℚ) ^ (-1075 : Int) ≤ d.absValue)
    (hmost : d.absValue < 2 ^ (1024 : Int)) :
    0 < d.digits ∧ -324 < ((digitsOfNat d.digits).length : Int) + d.exponent ∧
      ((digitsOfNat d.digits).length : Int) + d.exponent < 311 := by
  have hdigits : 0 < d.digits := by
    by_contra hc
    have : d.absValue = 0 := by rw [absValue, show d.digits = 0 by omega]; simp
    rw [this] at hleast
    exact absurd hleast (not_le.mpr (by positivity))
  obtain ⟨len_le, lt_len⟩ := cast_digitsOfNat_length hdigits
  have hten : (0 : ℚ) < 10 ^ d.exponent := by positivity
  refine ⟨hdigits, ?_, ?_⟩
  · by_contra hc
    have : d.absValue < (10 : ℚ) ^ (-324 : Int) := by
      calc d.absValue < 10 ^ ((digitsOfNat d.digits).length : Int) * 10 ^ d.exponent := by
            unfold absValue
            gcongr
        _ = 10 ^ (((digitsOfNat d.digits).length : Int) + d.exponent) := by
            rw [zpow_add₀ (by norm_num)]
        _ ≤ (10 : ℚ) ^ (-324 : Int) := by
            apply zpow_le_zpow_right₀ (by norm_num)
            omega
    exact absurd (lt_of_le_of_lt hleast this) (not_lt.mpr ten_zpow_le)
  · by_contra hc
    have : (10 : ℚ) ^ (310 : Int) ≤ d.absValue := by
      calc (10 : ℚ) ^ (310 : Int)
          ≤ 10 ^ ((((digitsOfNat d.digits).length : Int) - 1) + d.exponent) := by
            apply zpow_le_zpow_right₀ (by norm_num)
            omega
        _ = 10 ^ (((digitsOfNat d.digits).length : Int) - 1) * 10 ^ d.exponent := by
            rw [zpow_add₀ (by norm_num)]
        _ ≤ d.absValue := by
            unfold absValue
            gcongr
    exact absurd (lt_of_le_of_lt this hmost) (not_lt.mpr two_zpow_lt.le)

/-- **The nearest number.** A decimal in the interval of a finite number other than zero, and
with its sign, is read as that number. -/
theorem toNumber_eq {x : Number} (hfin : x.isFinite = true) (hzero : x.isZero = false)
    {d : Decimal} (hsign : d.negative = x.negative) (h : x.interval.Holds d.absValue) :
    d.toNumber = x := by
  obtain ⟨hleast, hmost⟩ := Number.bounds_of_holds hfin hzero h
  obtain ⟨hdigits, hbottom, htop⟩ := length_bounds hleast hmost
  unfold toNumber
  rw [if_neg (by omega)]
  simp only [if_neg (not_le.mpr htop), if_neg (not_le.mpr hbottom), hsign]
  apply Number.ofRatio_eq hfin hzero (by positivity)
  rw [Number.cast_decimal]
  exact h

/-- **A natural number is read as the number nearest to it**, however many digits it has. -/
theorem toNumber_ofNat (n : Nat) : toNumber ⟨false, n, 0⟩ = Number.ofNat n := by
  rcases Nat.eq_zero_or_pos n with rfl | hn
  · rfl
  unfold toNumber
  rw [if_neg hn.ne']
  simp only [add_zero, Int.toNat_zero, neg_zero]
  split
  next htop =>
    refine (Number.ofRatio_eq_infinity false Nat.one_pos ?_).symm
    calc (2 : ℚ) ^ (1025 : Int) ≤ 10 ^ (310 : Int) := two_zpow_le
      _ ≤ 10 ^ (((digitsOfNat n).length : Int) - 1) :=
          zpow_le_zpow_right₀ (by norm_num) (by omega)
      _ ≤ n := (cast_digitsOfNat_length hn).1
      _ = n / (1 : Nat) := by simp
  next =>
    have hbottom : ¬ ((digitsOfNat n).length : Int) ≤ -324 := by omega
    rw [if_neg hbottom, pow_zero, mul_one]
    rfl

end WhenClause.Decimal
