import Mathlib.Algebra.Order.Archimedean.Basic
import Mathlib.Algebra.Order.Field.Basic
import Mathlib.RingTheory.Coprime.Lemmas
import Mathlib.Tactic.FieldSimp
import Mathlib.Tactic.LinearCombination
import Mathlib.Tactic.Ring
import MonitoringRobot.Base.Numeric
import MonitoringRobot.Base.Riccati

/-!
# The scalar Kalman filter

`KalmanFilter` (`edge_packages/src/rssi/rssi/data_zone_serv.py:10-26`,
`edge_packages/src/rssi/rssi/rssi_logger.py:8-20`) over an arbitrary ordered field: first as
the code computes it, with a division that may raise, then as a type of filters whose
variances are in range, on which no division raises and which every update stays in. The
second part is about the shipped variances and integer measurements: the estimate then is a
fraction whose denominator is prime to ten and to the numerator of the gain, so that two
different states are told apart even after rounding to two decimals.
-/

namespace MonitoringRobot.Rssi
open MonitoringRobot.Base

/-- The attributes of a `KalmanFilter` object. -/
structure KalmanState (α : Type) where
  processVariance : α
  measurementVariance : α
  estimatedValue : α
  errorCovariance : α

section Update

variable {α : Type} [Field α]

/-- `update`; the estimate it returns is the new `estimated_value`. -/
def KalmanState.update [DecidableEq α] (f : KalmanState α) (measurement : α) :
    Except PyError (KalmanState α) :=
  let priorErrorCovariance := f.errorCovariance + f.processVariance
  let divisor := priorErrorCovariance + f.measurementVariance
  if divisor = 0 then .error .zeroDivisionError
  else
    let kalmanGain := priorErrorCovariance / divisor
    .ok { f with
      estimatedValue := f.estimatedValue + kalmanGain * (measurement - f.estimatedValue)
      errorCovariance := (1 - kalmanGain) * priorErrorCovariance }

/-- `prior_error_covariance`. -/
def KalmanState.prior (f : KalmanState α) : α := f.errorCovariance + f.processVariance

/-- `kalman_gain`. -/
def KalmanState.gain (f : KalmanState α) : α := f.prior / (f.prior + f.measurementVariance)

end Update

/-- A filter with a process variance that is not negative, a positive measurement variance
and a positive covariance. -/
structure KalmanFilter (α : Type) [Field α] [LinearOrder α] extends KalmanState α where
  process_nonneg : 0 ≤ processVariance
  measurement_pos : 0 < measurementVariance
  covariance_pos : 0 < errorCovariance

namespace KalmanFilter

section Field

variable {α : Type} [Field α] [LinearOrder α]

@[ext]
theorem ext_state {f g : KalmanFilter α} (h : f.toKalmanState = g.toKalmanState) : f = g := by
  cases f
  cases g
  congr

/-- The gain is that of the Riccati recursion at the covariance. -/
theorem gain_eq (f : KalmanFilter α) : f.gain =
    Riccati.gain f.processVariance f.measurementVariance f.errorCovariance := rfl

variable [IsStrictOrderedRing α]

theorem prior_pos (f : KalmanFilter α) : 0 < f.prior :=
  add_pos_of_pos_of_nonneg f.covariance_pos f.process_nonneg

theorem divisor_pos (f : KalmanFilter α) : 0 < f.prior + f.measurementVariance :=
  add_pos f.prior_pos f.measurement_pos

theorem gain_pos (f : KalmanFilter α) : 0 < f.gain := by
  rw [gain_eq]
  exact Riccati.gain_pos f.process_nonneg f.measurement_pos f.covariance_pos

theorem gain_lt_one (f : KalmanFilter α) : f.gain < 1 := by
  rw [gain_eq]
  exact Riccati.gain_lt_one f.process_nonneg f.measurement_pos f.covariance_pos

/-- `update` on filters in range. -/
def update (f : KalmanFilter α) (measurement : α) : KalmanFilter α where
  processVariance := f.processVariance
  measurementVariance := f.measurementVariance
  estimatedValue := f.estimatedValue + f.gain * (measurement - f.estimatedValue)
  errorCovariance := (1 - f.gain) * f.prior
  process_nonneg := f.process_nonneg
  measurement_pos := f.measurement_pos
  covariance_pos := mul_pos (sub_pos.mpr f.gain_lt_one) f.prior_pos

/-- The covariance takes one step of the Riccati recursion. -/
theorem errorCovariance_update (f : KalmanFilter α) (measurement : α) :
    (f.update measurement).errorCovariance =
      Riccati.next f.processVariance f.measurementVariance f.errorCovariance := rfl

/-- On filters in range the code's update raises nothing and stays in range. -/
theorem update_toKalmanState (f : KalmanFilter α) (measurement : α) :
    f.toKalmanState.update measurement = .ok (f.update measurement).toKalmanState := by
  have hdivisor : f.errorCovariance + f.processVariance + f.measurementVariance ≠ 0 :=
    f.divisor_pos.ne'
  simp only [KalmanState.update, if_neg hdivisor]
  rfl

/-- The new estimate weighs the old one and the measurement by the gain. -/
theorem estimatedValue_update (f : KalmanFilter α) (measurement : α) :
    (f.update measurement).estimatedValue =
      (1 - f.gain) * f.estimatedValue + f.gain * measurement := by
  change f.estimatedValue + f.gain * (measurement - f.estimatedValue) = _
  ring

/-- With a common measurement variance the gain determines the prior covariance. -/
theorem prior_eq_of_gain_eq {f g : KalmanFilter α}
    (hr : f.measurementVariance = g.measurementVariance) (h : f.gain = g.gain) :
    f.prior = g.prior := by
  rw [KalmanState.gain, KalmanState.gain, div_eq_div_iff f.divisor_pos.ne' g.divisor_pos.ne',
    ← hr] at h
  have hprod : (f.prior - g.prior) * f.measurementVariance = 0 := by linarith
  rcases mul_eq_zero.mp hprod with hp | hz
  · exact sub_eq_zero.mp hp
  · exact absurd hz f.measurement_pos.ne'

end Field

/-- `KalmanFilter()` with the default variances and a first guess. -/
def init (estimatedValue : ℚ) : KalmanFilter ℚ where
  processVariance := 1 / 100000
  measurementVariance := 1 / 10
  estimatedValue := estimatedValue
  errorCovariance := 1
  process_nonneg := by norm_num
  measurement_pos := by norm_num
  covariance_pos := one_pos

/-- The filter has the shipped variances, the covariance `a / b` in units of the process
variance, and the estimate `y / b`. -/
structure Grid (f : KalmanFilter ℚ) (a b y : ℤ) : Prop where
  process : f.processVariance = 1 / 100000
  measurement : f.measurementVariance = 1 / 10
  a_pos : 0 < a
  b_pos : 0 < b
  a_mod : a % 10 = 0
  b_mod : b % 10 = 1
  coprime : IsCoprime a b
  covariance : f.errorCovariance = a / (b * 100000)
  estimate : f.estimatedValue = y / b

/-- A fresh filter whose first guess is an integer is on the grid. -/
theorem grid_init (y : ℤ) : Grid (init y) 100000 1 y where
  process := rfl
  measurement := rfl
  a_pos := by decide
  b_pos := by decide
  a_mod := by decide
  b_mod := by decide
  coprime := isCoprime_one_right
  covariance := by
    change (1 : ℚ) = _
    norm_num
  estimate := by
    change (y : ℚ) = _
    norm_num

private theorem isCoprime_ten {n : ℤ} (h : n % 10 = 1) : IsCoprime 10 n :=
  ⟨-(n / 10), 1, by omega⟩

variable {f g : KalmanFilter ℚ} {a b y : ℤ}

theorem Grid.gain (h : Grid f a b y) : f.gain = (a + b) / (a + 10001 * b) := by
  have hb : (0 : ℚ) < b := Int.cast_pos.mpr h.b_pos
  have ha : (0 : ℚ) < a := Int.cast_pos.mpr h.a_pos
  have hd : (a : ℚ) + 10001 * b ≠ 0 := by positivity
  have hprior : f.prior = (a + b) / (b * 100000) := by
    rw [KalmanState.prior, h.covariance, h.process]
    field_simp
  have hdivisor : f.prior + f.measurementVariance = (a + 10001 * b) / (b * 100000) := by
    rw [hprior, h.measurement]
    field_simp
    ring
  rw [KalmanState.gain, hdivisor, hprior]
  field_simp

/-- The numerator and the denominator of the gain are prime to each other. -/
theorem Grid.coprime_gain (h : Grid f a b y) : IsCoprime (a + b) (a + 10001 * b) := by
  have hten : IsCoprime (10 : ℤ) (a + b) := isCoprime_ten (by have := h.a_mod; have := h.b_mod; omega)
  have hb : IsCoprime (a + b) b := by
    have hab := h.coprime.add_mul_right_left 1
    rwa [one_mul] at hab
  have hprod : IsCoprime (a + b) (10 ^ 4 * b) := (hten.symm.pow_right).mul_right hb
  have hsum := hprod.add_mul_left_right 1
  have heq : 10 ^ 4 * b + (a + b) * 1 = a + 10001 * b := by ring
  rwa [heq] at hsum

theorem Grid.update (h : Grid f a b y) (m : ℤ) :
    Grid (f.update m) (10000 * (a + b)) (a + 10001 * b) (10000 * y + (a + b) * m) := by
  have hapos := h.a_pos
  have hbpos := h.b_pos
  have hamod := h.a_mod
  have hbmod := h.b_mod
  have hb : (0 : ℚ) < b := Int.cast_pos.mpr hbpos
  have ha : (0 : ℚ) < a := Int.cast_pos.mpr hapos
  have hd : (a : ℚ) + 10001 * b ≠ 0 := by positivity
  have hten : IsCoprime (10 : ℤ) (a + 10001 * b) := isCoprime_ten (by omega)
  constructor
  · exact h.process
  · exact h.measurement
  · omega
  · omega
  · omega
  · omega
  · have hpow : IsCoprime ((10 : ℤ) ^ 4) (a + 10001 * b) := hten.pow_left
    exact hpow.mul_left h.coprime_gain
  · change (1 - f.gain) * f.prior = _
    rw [KalmanState.prior, h.gain, h.covariance, h.process]
    push_cast
    field_simp
    ring
  · rw [estimatedValue_update, h.gain, h.estimate]
    push_cast
    field_simp
    ring

theorem Grid.unique {a' b' y' : ℤ} (hf : Grid f a b y) (hg : Grid g a' b' y')
    (h : f.errorCovariance = g.errorCovariance) : a = a' ∧ b = b' := by
  have hb : (b : ℚ) ≠ 0 := Int.cast_ne_zero.mpr hf.b_pos.ne'
  have hb' : (b' : ℚ) ≠ 0 := Int.cast_ne_zero.mpr hg.b_pos.ne'
  have hcross : a * b' = a' * b := by
    rw [hf.covariance, hg.covariance] at h
    field_simp at h
    rw [mul_comm a' b]
    exact_mod_cast h
  have hdvd : b ∣ b' := hf.coprime.symm.dvd_of_dvd_mul_left ⟨a', by rw [hcross, mul_comm]⟩
  have hdvd' : b' ∣ b := hg.coprime.symm.dvd_of_dvd_mul_left ⟨a, by rw [← hcross, mul_comm]⟩
  have hbb := Int.dvd_antisymm hf.b_pos.le hg.b_pos.le hdvd hdvd'
  subst hbb
  exact ⟨mul_right_cancel₀ hf.b_pos.ne' hcross, rfl⟩

private theorem odd_combination {d n T : ℤ} (h : IsCoprime d (200 * n)) (hT : Odd T) :
    ∃ k m : ℤ, (2 * k + 1) * d - 200 * n * m = T := by
  obtain ⟨u, v, huv⟩ := h
  have hsum : u * T * d = T + 2 * (100 * n * (-(v * T))) := by
    linear_combination T * huv
  have hodd : Odd (u * T * d) := by
    rw [hsum]
    exact hT.add_even (even_two_mul _)
  obtain ⟨k, hk⟩ := (Int.odd_mul.mp hodd).1
  refine ⟨k, -(v * T), ?_⟩
  rw [← hk]
  linear_combination hsum

/-- Of two filters with one covariance and different estimates, some integer measurement puts
the new estimates on the two sides of a rounding boundary. -/
theorem Grid.separated {z : ℤ} (hf : Grid f a b y) (hg : Grid g a b z) (hlt : y < z) :
    ∃ m : ℤ, round2 (f.update m).estimatedValue ≠ round2 (g.update m).estimatedValue := by
  have hamod := hf.a_mod
  have hbmod := hf.b_mod
  have hcoprime : IsCoprime (a + 10001 * b) (200 * (a + b)) := by
    have htwo : IsCoprime (2 : ℤ) (a + 10001 * b) := ⟨-((a + 10001 * b) / 2), 1, by omega⟩
    have hten : IsCoprime (10 : ℤ) (a + 10001 * b) := isCoprime_ten (by omega)
    have h200 : IsCoprime (2 * 10 ^ 2 : ℤ) (a + 10001 * b) := htwo.mul_left hten.pow_left
    exact (h200.mul_left hf.coprime_gain).symm
  -- the boundary just above the first estimate, in half hundredths over the denominator
  have hT : Odd (2000000 * y + 1) := ⟨1000000 * y, by ring⟩
  obtain ⟨k, m, hkm⟩ := odd_combination hcoprime hT
  have hd : (0 : ℚ) < ((a + 10001 * b : ℤ) : ℚ) := Int.cast_pos.mpr (hf.update m).b_pos
  refine ⟨m, round2_ne_of_between (k := k) ?_ ?_⟩
  · rw [(hf.update m).estimate, mul_div_assoc', div_lt_iff₀ hd]
    have hlow : 200 * (10000 * y + (a + b) * m) < (2 * k + 1) * (a + 10001 * b) := by linarith
    exact_mod_cast hlow
  · rw [(hg.update m).estimate, mul_div_assoc', lt_div_iff₀ hd]
    have hhigh : (2 * k + 1) * (a + 10001 * b) < 200 * (10000 * z + (a + b) * m) := by
      have hstep : 2000000 * y + 1 < 2000000 * z := by omega
      linarith
    exact_mod_cast hhigh

/-- With different gains a large enough measurement takes the estimates apart. -/
theorem apart_of_gain_ne (h : f.gain ≠ g.gain) :
    ∃ m : ℤ, round2 (f.update m).estimatedValue ≠ round2 (g.update m).estimatedValue := by
  have hgap : 0 < |f.gain - g.gain| := abs_pos.mpr (sub_ne_zero.mpr h)
  obtain ⟨c, hc⟩ : ∃ c, c = (1 - f.gain) * f.estimatedValue - (1 - g.gain) * g.estimatedValue :=
    ⟨_, rfl⟩
  obtain ⟨m, hm⟩ := exists_nat_gt ((1 / 100 + |c|) / |f.gain - g.gain|)
  rw [div_lt_iff₀ hgap] at hm
  refine ⟨m, round2_ne_of_far ?_⟩
  have hdiff : (f.update (m : ℤ)).estimatedValue - (g.update (m : ℤ)).estimatedValue =
      m * (f.gain - g.gain) + c := by
    rw [estimatedValue_update, estimatedValue_update, hc, Int.cast_natCast]
    ring
  have habs : (m : ℚ) * |f.gain - g.gain| - |c| ≤ |m * (f.gain - g.gain) + c| := by
    have hsub := abs_sub_abs_le_abs_sub ((m : ℚ) * (f.gain - g.gain)) (-c)
    rwa [abs_neg, abs_mul, Nat.abs_cast, sub_neg_eq_add] at hsub
  rw [hdiff]
  linarith

/-- Two different filters on the grid are told apart by an integer measurement, even after
rounding. -/
theorem exists_apart {a' b' z : ℤ} (hf : Grid f a b y) (hg : Grid g a' b' z) (hne : f ≠ g) :
    ∃ m : ℤ, round2 (f.update m).estimatedValue ≠ round2 (g.update m).estimatedValue := by
  by_cases hgain : f.gain = g.gain
  · have hprior := prior_eq_of_gain_eq (hf.measurement.trans hg.measurement.symm) hgain
    have hcov : f.errorCovariance = g.errorCovariance := by
      unfold KalmanState.prior at hprior
      rw [hf.process, hg.process] at hprior
      exact add_right_cancel hprior
    obtain ⟨rfl, rfl⟩ := hf.unique hg hcov
    rcases lt_trichotomy y z with hlt | heq | hgt
    · exact hf.separated hg hlt
    · have hsame : f.toKalmanState = g.toKalmanState := by
        have hest : f.estimatedValue = g.estimatedValue := by
          rw [hf.estimate, hg.estimate, heq]
        have hproc := hf.process.trans hg.process.symm
        have hmeas := hf.measurement.trans hg.measurement.symm
        cases hfs : f.toKalmanState
        cases hgs : g.toKalmanState
        simp_all
      exact absurd (ext_state hsame) hne
    · obtain ⟨m, hm⟩ := hg.separated hf hgt
      exact ⟨m, hm.symm⟩
  · exact apart_of_gain_ne hgain

end KalmanFilter

end MonitoringRobot.Rssi
