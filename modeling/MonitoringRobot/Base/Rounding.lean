import Mathlib.Data.Int.Log
import MonitoringRobot.Base.Numeric

/-!
# Binary rounding

Floating point operations give the exact result rounded to `p` significant bits, to the nearest
such number and to the one with the even last bit in the middle between two. A `double` from
`2 ^ 1024` on is infinite; results too small for the exponent of a format are not treated.
-/

namespace MonitoringRobot.Base

/-! ### Rounding to a whole number -/

@[simp] theorem roundHalfEven_intCast (n : ℤ) : roundHalfEven n = n := by
  simp [roundHalfEven]

/-- Rounding keeps the order. -/
theorem roundHalfEven_mono {x y : ℚ} (h : x ≤ y) : roundHalfEven x ≤ roundHalfEven y := by
  have hfloor : ⌊x⌋ ≤ ⌊y⌋ := Int.floor_mono h
  by_cases heq : ⌊x⌋ = ⌊y⌋
  · unfold roundHalfEven
    rw [heq]
    split_ifs <;> first | omega | linarith
  · have hx : roundHalfEven x ≤ ⌊x⌋ + 1 := by
      unfold roundHalfEven
      split_ifs <;> omega
    have hy : ⌊y⌋ ≤ roundHalfEven y := by
      unfold roundHalfEven
      split_ifs <;> omega
    omega

theorem roundHalfEven_neg (x : ℚ) : roundHalfEven (-x) = -roundHalfEven x := by
  by_cases hx : x = ⌊x⌋
  · rw [hx, ← Int.cast_neg, roundHalfEven_intCast, roundHalfEven_intCast]
  · have hlt : (⌊x⌋ : ℚ) < x := lt_of_le_of_ne (Int.floor_le x) (Ne.symm hx)
    have hfloor : ⌊-x⌋ = -⌊x⌋ - 1 := by
      apply Int.floor_eq_iff.mpr
      push_cast
      constructor
      · linarith [Int.lt_floor_add_one x]
      · linarith
    unfold roundHalfEven
    rw [hfloor]
    push_cast
    split_ifs <;> first | omega | linarith

/-! ### Rounding to significant bits -/

/-- The value of the last one of `p` significant bits. -/
def ulp (p : Nat) (q : ℚ) : ℚ := 2 ^ (Int.log 2 |q| + 1 - p)

/-- The number of `p` significant bits nearest to `q`. -/
def roundTo (p : Nat) (q : ℚ) : ℚ := roundHalfEven (q / ulp p q) * ulp p q

/-- `float`. -/
def f32 (q : ℚ) : ℚ := roundTo 24 q

/-- `double`. -/
def f64 (q : ℚ) : ℚ := roundTo 53 q

example : f32 (1 / 3) = 11184811 / 2 ^ 25 := by decide +kernel

/-- A result as a `double` holds it: rounded, and infinite where it is too large. -/
def ExtRat.double : ExtRat → ExtRat
  | .fin q => if |f64 q| < 2 ^ 1024 then .fin (f64 q) else .inf (decide (q < 0))
  | x => x

theorem ExtRat.double_fin {q : ℚ} (h : |f64 q| < 2 ^ 1024) : (fin q).double = fin (f64 q) :=
  if_pos h

/-- A `double` that is finite is the exact result rounded. -/
theorem ExtRat.double_of_isFinite {q : ℚ} (h : (fin q).double.IsFinite) :
    (fin q).double = fin (f64 q) := by
  by_cases hlt : |f64 q| < 2 ^ 1024
  · exact double_fin hlt
  · have hinf : (fin q).double = inf (decide (q < 0)) := if_neg hlt
    rw [hinf] at h
    exact absurd h (not_isFinite_inf _)

theorem ExtRat.isFinite_of_double {x : ExtRat} (h : x.double.IsFinite) : x.IsFinite := by
  cases x with
  | fin q => trivial
  | inf s => exact h
  | nan => exact h

variable {p : Nat} {q x y : ℚ}

theorem ulp_pos (p : Nat) (q : ℚ) : 0 < ulp p q :=
  zpow_pos two_pos _

@[simp] theorem roundTo_zero (p : Nat) : roundTo p 0 = 0 := by
  simp [roundTo, roundHalfEven]

/-- A whole number of units of a place that is kept is not changed. -/
theorem roundTo_eq {k e : ℤ} (hq : q = k * 2 ^ e) (h : |q| < 2 ^ (p + e)) : roundTo p q = q := by
  by_cases hzero : q = 0
  · rw [hzero, roundTo_zero]
  · have hplace : Int.log 2 |q| < p + e := by
      apply (Int.lt_zpow_iff_log_lt Nat.one_lt_two (abs_pos.mpr hzero)).mp
      exact_mod_cast h
    have hwhole : q / ulp p q = ((k * 2 ^ (e - (Int.log 2 |q| + 1 - p)).toNat : ℤ) : ℚ) := by
      rw [div_eq_iff (ulp_pos p q).ne']
      push_cast
      rw [mul_assoc, ulp, ← zpow_natCast, ← zpow_add₀ two_ne_zero, Int.toNat_of_nonneg (by omega),
        sub_add_cancel]
      exact hq
    rw [roundTo, hwhole, roundHalfEven_intCast, ← hwhole, div_mul_cancel₀ _ (ulp_pos p q).ne']

theorem roundTo_natCast {n : Nat} (h : n < 2 ^ p) : roundTo p n = n := by
  apply roundTo_eq (k := n) (e := 0)
  · simp
  · rw [add_zero, zpow_natCast, Nat.abs_cast]
    exact_mod_cast h

@[simp] theorem roundTo_neg (p : Nat) (q : ℚ) : roundTo p (-q) = -roundTo p q := by
  have hulp : ulp p (-q) = ulp p q := by simp only [ulp, abs_neg]
  rw [roundTo, hulp, neg_div, roundHalfEven_neg, Int.cast_neg, neg_mul, roundTo]

theorem roundTo_nonneg (h : 0 ≤ q) : 0 ≤ roundTo p q := by
  have hquotient : ((0 : ℤ) : ℚ) ≤ q / ulp p q := by
    push_cast
    exact div_nonneg h (ulp_pos p q).le
  have hround := roundHalfEven_mono hquotient
  rw [roundHalfEven_intCast] at hround
  exact mul_nonneg (by exact_mod_cast hround) (ulp_pos p q).le

theorem roundTo_nonpos (h : q ≤ 0) : roundTo p q ≤ 0 := by
  have hneg := roundTo_nonneg (p := p) (neg_nonneg.mpr h)
  rw [roundTo_neg] at hneg
  exact neg_nonneg.mp hneg

/-- Between powers of two that are next to each other the units are the same. -/
theorem roundTo_mono_of_log_eq (h : x ≤ y) (hlog : Int.log 2 |x| = Int.log 2 |y|) :
    roundTo p x ≤ roundTo p y := by
  have hulp : ulp p x = ulp p y := by simp only [ulp, hlog]
  have hpos := ulp_pos p y
  have hround := roundHalfEven_mono (div_le_div_of_nonneg_right h hpos.le)
  simp only [roundTo, hulp]
  exact mul_le_mul_of_nonneg_right (by exact_mod_cast hround) hpos.le

/-- A positive number is not rounded past the next power of two. -/
theorem roundTo_le_zpow_log (hx : 0 < x) : roundTo p x ≤ 2 ^ (Int.log 2 |x| + 1) := by
  have htop : ((2 ^ p : ℤ) : ℚ) * ulp p x = 2 ^ (Int.log 2 |x| + 1) := by
    push_cast
    rw [ulp, ← zpow_natCast, ← zpow_add₀ two_ne_zero]
    congr 1
    omega
  have hlt : x < 2 ^ (Int.log 2 |x| + 1) := by
    rw [abs_of_pos hx]
    exact_mod_cast Int.lt_zpow_succ_log_self Nat.one_lt_two x
  have hquotient : x / ulp p x ≤ ((2 ^ p : ℤ) : ℚ) := by
    rw [div_le_iff₀ (ulp_pos p x), htop]
    exact hlt.le
  have hround := roundHalfEven_mono hquotient
  rw [roundHalfEven_intCast] at hround
  rw [roundTo, ← htop]
  exact mul_le_mul_of_nonneg_right (by exact_mod_cast hround) (ulp_pos p x).le

theorem zpow_log_le_roundTo (hp : 0 < p) (hx : 0 < x) : 2 ^ Int.log 2 |x| ≤ roundTo p x := by
  have hbottom : ((2 ^ (p - 1) : ℤ) : ℚ) * ulp p x = 2 ^ Int.log 2 |x| := by
    push_cast
    rw [ulp, ← zpow_natCast, ← zpow_add₀ two_ne_zero]
    congr 1
    omega
  have hle : 2 ^ Int.log 2 |x| ≤ x := by
    have hlog := Int.zpow_log_le_self Nat.one_lt_two (abs_pos.mpr hx.ne')
    rw [abs_of_pos hx] at hlog ⊢
    exact_mod_cast hlog
  have hquotient : ((2 ^ (p - 1) : ℤ) : ℚ) ≤ x / ulp p x := by
    rw [le_div_iff₀ (ulp_pos p x), hbottom]
    exact hle
  have hround := roundHalfEven_mono hquotient
  rw [roundHalfEven_intCast] at hround
  rw [roundTo, ← hbottom]
  exact mul_le_mul_of_nonneg_right (by exact_mod_cast hround) (ulp_pos p x).le

theorem roundTo_pos (hp : 0 < p) (hq : 0 < q) : 0 < roundTo p q :=
  (zpow_pos two_pos _).trans_le (zpow_log_le_roundTo hp hq)

private theorem roundTo_mono_of_nonneg (hp : 0 < p) (hx : 0 ≤ x) (h : x ≤ y) :
    roundTo p x ≤ roundTo p y := by
  rcases hx.eq_or_lt with rfl | hpos
  · rw [roundTo_zero]
    exact roundTo_nonneg h
  · have hlog : Int.log 2 |x| ≤ Int.log 2 |y| := by
      apply Int.log_mono_right (abs_pos.mpr hpos.ne')
      rwa [abs_of_pos hpos, abs_of_pos (hpos.trans_le h)]
    rcases hlog.eq_or_lt with heq | hlt
    · exact roundTo_mono_of_log_eq h heq
    · calc roundTo p x ≤ 2 ^ (Int.log 2 |x| + 1) := roundTo_le_zpow_log hpos
        _ ≤ 2 ^ Int.log 2 |y| := zpow_le_zpow_right₀ one_le_two (by omega)
        _ ≤ roundTo p y := zpow_log_le_roundTo hp (hpos.trans_le h)

/-- Rounding keeps the order. -/
theorem roundTo_mono (hp : 0 < p) (h : x ≤ y) : roundTo p x ≤ roundTo p y := by
  rcases le_total 0 x with hx | hx
  · exact roundTo_mono_of_nonneg hp hx h
  · rcases le_total 0 y with hy | hy
    · exact (roundTo_nonpos hx).trans (roundTo_nonneg hy)
    · have hneg := roundTo_mono_of_nonneg hp (neg_nonneg.mpr hy) (neg_le_neg h)
      rw [roundTo_neg, roundTo_neg] at hneg
      exact neg_le_neg_iff.mp hneg

/-- A positive number loses less than half of itself. -/
theorem half_le_roundTo (hp : 0 < p) (hq : 0 ≤ q) : q / 2 ≤ roundTo p q := by
  rcases hq.eq_or_lt with rfl | hpos
  · simp
  · have hlt : q < 2 ^ (Int.log 2 |q| + 1) := by
      rw [abs_of_pos hpos]
      exact_mod_cast Int.lt_zpow_succ_log_self Nat.one_lt_two q
    rw [zpow_add_one₀ two_ne_zero] at hlt
    have hle := zpow_log_le_roundTo hp hpos
    linarith

theorem roundTo_le (hp : 0 < p) (hexact : roundTo p y = y) (h : q ≤ y) : roundTo p q ≤ y :=
  hexact ▸ roundTo_mono hp h

theorem roundTo_le_mul (hq : 0 ≤ q) : roundTo p q ≤ q * (1 + 1 / 2 ^ p) := by
  rcases hq.eq_or_lt with rfl | hpos
  · simp
  · have hround : (roundHalfEven (q / ulp p q) : ℚ) ≤ q / ulp p q + 1 / 2 := by
      linarith [(abs_le.mp (abs_roundHalfEven_sub (q / ulp p q))).2]
    have hulp : ulp p q = 2 * (2 ^ Int.log 2 |q| / 2 ^ p) := by
      rw [ulp, zpow_sub₀ two_ne_zero, zpow_add_one₀ two_ne_zero, zpow_natCast]
      ring
    have hlog : 2 ^ Int.log 2 |q| ≤ q := by
      have hself := Int.zpow_log_le_self Nat.one_lt_two (abs_pos.mpr hpos.ne')
      rw [abs_of_pos hpos] at hself ⊢
      exact_mod_cast hself
    calc roundTo p q ≤ (q / ulp p q + 1 / 2) * ulp p q :=
        mul_le_mul_of_nonneg_right hround (ulp_pos p q).le
      _ = q + ulp p q / 2 := by
        rw [add_mul, div_mul_cancel₀ _ (ulp_pos p q).ne']
        ring
      _ = q + 2 ^ Int.log 2 |q| / 2 ^ p := by
        rw [hulp]
        ring
      _ ≤ q + q / 2 ^ p := by gcongr
      _ = q * (1 + 1 / 2 ^ p) := by ring

/-! ### Doubles -/

theorem f64_mono (h : x ≤ y) : f64 x ≤ f64 y :=
  roundTo_mono (by decide) h

theorem f64_nonneg (h : 0 ≤ q) : 0 ≤ f64 q :=
  roundTo_nonneg h

@[simp] theorem f64_zero : f64 0 = 0 :=
  roundTo_zero 53

@[simp] theorem f64_neg (q : ℚ) : f64 (-q) = -f64 q :=
  roundTo_neg 53 q

/-- A bound that is a power of two is kept, and below the largest one nothing overflows. -/
theorem ExtRat.double_of_le {k : Nat} (hk : k < 1024) (h : |q| ≤ 2 ^ k) :
    (fin q).double = fin (f64 q) ∧ |f64 q| ≤ 2 ^ k := by
  have hexact : f64 (2 ^ k) = 2 ^ k := by
    apply roundTo_eq (k := 1) (e := k)
    · simp
    · rw [abs_of_pos (by positivity), zpow_add₀ two_ne_zero, zpow_natCast, zpow_natCast]
      linarith [show (0 : ℚ) < 2 ^ k by positivity]
  have hle : |f64 q| ≤ 2 ^ k := by
    rw [abs_le] at h ⊢
    constructor
    · rw [← hexact, ← f64_neg]
      exact f64_mono h.1
    · rw [← hexact]
      exact f64_mono h.2
  exact ⟨double_fin (hle.trans_lt (pow_lt_pow_right₀ one_lt_two hk)), hle⟩

end MonitoringRobot.Base
