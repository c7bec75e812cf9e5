import MonitoringRobot.Base.Machine
import MonitoringRobot.Rssi.Kalman

/-!
# What the filter makes of its measurements

`KalmanFilter` (`edge_packages/src/rssi/rssi/data_zone_serv.py:10-26`,
`edge_packages/src/rssi/rssi/rssi_logger.py:8-20`) is exponential smoothing whose gains come
from the scalar Riccati recursion: the covariance, and with it every gain, depends on the two
variances and on how many measurements there were, and on nothing that was measured.
-/

namespace MonitoringRobot.Rssi
open MonitoringRobot.Base

variable {α : Type} [Field α] [LinearOrder α]

/-- `KalmanFilter(process_variance, measurement_variance)` with a first guess. -/
def KalmanState.start (q r x₀ : α) : KalmanState α := ⟨q, r, x₀, 1⟩

/-- Feed the measurements in order. -/
abbrev KalmanState.run : KalmanState α → List α → Except PyError (KalmanState α) :=
  Machine.run update

/-- What `n` measurements leave of the first guess. -/
def KalmanState.startWeight (q r : α) (n : ℕ) : α :=
  Smoothing.startWeight (Riccati.gains q r n 1)

/-- What is left of each of `n` measurements. -/
def KalmanState.weights (q r : α) (n : ℕ) : List α := Smoothing.weights (Riccati.gains q r n 1)

namespace KalmanFilter

variable [IsStrictOrderedRing α]

/-- A fresh filter with variances in range. -/
def start {q r : α} (hq : 0 ≤ q) (hr : 0 < r) (x₀ : α) : KalmanFilter α :=
  ⟨KalmanState.start q r x₀, hq, hr, one_pos⟩

/-- The filter after the measurements. -/
def updates (f : KalmanFilter α) (ms : List α) : KalmanFilter α := ms.foldl update f

theorem updates_concat (f : KalmanFilter α) (ms : List α) (m : α) :
    f.updates (ms ++ [m]) = (f.updates ms).update m := by
  rw [updates, List.foldl_concat]
  rfl

/-- On filters in range the code's run raises nothing and stays in range. -/
theorem run_toKalmanState (f : KalmanFilter α) (ms : List α) :
    f.toKalmanState.run ms = .ok (f.updates ms).toKalmanState := by
  induction ms generalizing f with
  | nil => rfl
  | cons m ms ih =>
    rw [KalmanState.run, Machine.run_cons_ok ms (f.update_toKalmanState m)]
    exact ih (f.update m)

theorem updates_variances (f : KalmanFilter α) (ms : List α) :
    (f.updates ms).processVariance = f.processVariance ∧
      (f.updates ms).measurementVariance = f.measurementVariance := by
  induction ms generalizing f with
  | nil => exact ⟨rfl, rfl⟩
  | cons m ms ih => exact ih (f.update m)

/-- The covariance takes one step of the recursion for each measurement. -/
theorem errorCovariance_updates (f : KalmanFilter α) (ms : List α) :
    (f.updates ms).errorCovariance =
      (Riccati.next f.processVariance f.measurementVariance)^[ms.length] f.errorCovariance := by
  induction ms generalizing f with
  | nil => rfl
  | cons m ms ih => exact ih (f.update m)

/-- The estimate is smoothed with the gains of the recursion. -/
theorem estimatedValue_updates (f : KalmanFilter α) (ms : List α) :
    (f.updates ms).estimatedValue = Smoothing.smooth f.estimatedValue
      (Riccati.gains f.processVariance f.measurementVariance ms.length f.errorCovariance) ms := by
  induction ms generalizing f with
  | nil => rfl
  | cons m ms ih => exact ih (f.update m)

end KalmanFilter

variable [IsStrictOrderedRing α]

/-- A run from a fresh filter returns the filter in range. -/
theorem KalmanState.run_start {q r : α} (hq : 0 ≤ q) (hr : 0 < r) (x₀ : α) (ms : List α) :
    (start q r x₀).run ms = .ok ((KalmanFilter.start hq hr x₀).updates ms).toKalmanState :=
  (KalmanFilter.start hq hr x₀).run_toKalmanState ms

theorem KalmanState.startWeight_succ_lt {q r : α} (hq : 0 ≤ q) (hr : 0 < r) (n : ℕ) :
    startWeight q r (n + 1) < startWeight q r n := by
  unfold startWeight
  rw [Riccati.gains_succ]
  apply Smoothing.startWeight_concat_lt (Riccati.proper_gains hq hr one_pos n)
  exact Riccati.gain_pos hq hr (Riccati.iterate_next_pos hq hr one_pos n)

section Start

variable {q r : α} (hq : 0 ≤ q) (hr : 0 < r)

/-- The estimate of a fresh filter is its first guess, smoothed. -/
theorem KalmanFilter.estimatedValue_start (x₀ : α) (ms : List α) :
    ((start hq hr x₀).updates ms).estimatedValue =
      Smoothing.smooth x₀ (Riccati.gains q r ms.length 1) ms :=
  (start hq hr x₀).estimatedValue_updates ms

/-- Two fresh filters stay apart by what is left of the first guesses. -/
theorem KalmanFilter.estimatedValue_sub (x₀ y₀ : α) (ms : List α) :
    ((start hq hr y₀).updates ms).estimatedValue -
        ((start hq hr x₀).updates ms).estimatedValue =
      KalmanState.startWeight q r ms.length * (y₀ - x₀) := by
  rw [estimatedValue_start, estimatedValue_start,
    Smoothing.smooth_sub_smooth x₀ y₀ (Riccati.length_gains q r ms.length 1)]
  rfl

end Start

/-- **The filter is a weighted average.** For all variances in range, the weights of a number
of measurements are positive and add up to one, and the first guess loses weight with every
measurement. Every run from a fresh filter returns; its next gain is strictly between zero and
one; its estimate is the average with these weights, is in every range that holds the first
guess and the measurements, and is monotone in the measurements; and the estimate from a
greater first guess stays greater and comes closer with the next measurement. -/
theorem weighted_average {q r : α} (hq : 0 ≤ q) (hr : 0 < r) :
    (∀ n, 0 < KalmanState.startWeight q r n ∧ (KalmanState.weights q r n).length = n ∧
      (∀ w ∈ KalmanState.weights q r n, 0 < w) ∧
      KalmanState.startWeight q r n + (KalmanState.weights q r n).sum = 1 ∧
      KalmanState.startWeight q r (n + 1) < KalmanState.startWeight q r n) ∧
    ∀ x₀ ms, ∃ f, (KalmanState.start q r x₀).run ms = .ok f ∧ (0 < f.gain ∧ f.gain < 1) ∧
      f.estimatedValue = KalmanState.startWeight q r ms.length * x₀ +
        (List.zipWith (· * ·) (KalmanState.weights q r ms.length) ms).sum ∧
      (∀ lo hi, lo ≤ x₀ ∧ x₀ ≤ hi → (∀ m ∈ ms, lo ≤ m ∧ m ≤ hi) →
        lo ≤ f.estimatedValue ∧ f.estimatedValue ≤ hi) ∧
      (∀ ms' g, List.Forall₂ (· ≤ ·) ms ms' → (KalmanState.start q r x₀).run ms' = .ok g →
        f.estimatedValue ≤ g.estimatedValue) ∧
      (∀ y₀ g, x₀ < y₀ → (KalmanState.start q r y₀).run ms = .ok g →
        f.estimatedValue < g.estimatedValue ∧
        ∀ m f' g', f.update m = .ok f' → g.update m = .ok g' →
          g'.estimatedValue - f'.estimatedValue < g.estimatedValue - f.estimatedValue) := by
  have hproper := fun n ↦ Riccati.proper_gains (n := n) hq hr (one_pos (α := α))
  constructor
  · intro n
    refine ⟨Smoothing.startWeight_pos (hproper n), ?_, Smoothing.weights_pos (hproper n),
      Smoothing.startWeight_add_sum _, KalmanState.startWeight_succ_lt hq hr n⟩
    rw [KalmanState.weights, Smoothing.length_weights, Riccati.length_gains]
  · intro x₀ ms
    refine ⟨_, KalmanState.run_start hq hr x₀ ms, ?_, ?_, ?_, ?_, ?_⟩
    · exact ⟨KalmanFilter.gain_pos _, KalmanFilter.gain_lt_one _⟩
    · rw [KalmanFilter.estimatedValue_start,
        Smoothing.smooth_eq x₀ (Riccati.length_gains q r ms.length 1)]
      rfl
    · intro lo hi hx hms
      rw [KalmanFilter.estimatedValue_start]
      exact Smoothing.smooth_mem_range (hproper ms.length) hx hms
    · intro ms' g hms hg
      rw [KalmanState.run_start hq hr, Except.ok.injEq] at hg
      rw [← hg, KalmanFilter.estimatedValue_start, KalmanFilter.estimatedValue_start,
        ← hms.length_eq]
      exact Smoothing.smooth_mono (hproper ms.length) (le_refl x₀) hms
    · intro y₀ g hxy hg
      rw [KalmanState.run_start hq hr, Except.ok.injEq] at hg
      subst hg
      have hgap := sub_pos.mpr hxy
      constructor
      · rw [← sub_pos, KalmanFilter.estimatedValue_sub]
        exact mul_pos (Smoothing.startWeight_pos (hproper ms.length)) hgap
      · intro m f' g' hf' hg'
        rw [KalmanFilter.update_toKalmanState, Except.ok.injEq] at hf' hg'
        rw [← hf', ← hg', ← KalmanFilter.updates_concat, ← KalmanFilter.updates_concat,
          KalmanFilter.estimatedValue_sub, KalmanFilter.estimatedValue_sub, List.length_append,
          List.length_singleton]
        exact mul_lt_mul_of_pos_right (KalmanState.startWeight_succ_lt hq hr ms.length) hgap

/-- The collector's filter, after one scan at -40, is between its first guess and the scan. -/
theorem weighted_average_once : ∃ f,
    (KalmanState.start (1 / 100000) (1 / 10) (-100 : ℚ)).run [-40] = .ok f ∧
      (-100 : ℚ) ≤ f.estimatedValue ∧ f.estimatedValue ≤ -40 := by
  obtain ⟨-, h⟩ := weighted_average (q := (1 / 100000 : ℚ)) (r := 1 / 10) (by norm_num)
    (by norm_num)
  obtain ⟨f, hf, -, -, hrange, -⟩ := h (-100) [-40]
  refine ⟨f, hf, hrange (-100) (-40) (by norm_num) ?_⟩
  intro m hm
  rw [List.mem_singleton.mp hm]
  norm_num

end MonitoringRobot.Rssi
