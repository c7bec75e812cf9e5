import Mathlib.Analysis.Real.Sqrt
import MonitoringRobot.Rssi.Features
import MonitoringRobot.Rssi.Filtering

/-!
# How the filter settles

Over the real numbers the covariance of a filter has one steady value for each pair of
variances. Every run moves it there strictly monotonically and without reaching it, so that
with the shipped variances the gain falls and never freezes. The covariance does not depend on
the measurements; the four filters of a node are updated together
(`edge_packages/src/rssi/rssi/rssi_logger.py:52-64`,
`edge_packages/src/rssi/rssi/data_zone_serv.py:99-107`) and share it in every state.
-/

namespace MonitoringRobot.Rssi
open MonitoringRobot.Base

/-- One update takes the covariance from that of `f` to that of `g`: toward the steady value
`p` without crossing it, below the measurement variance, and closer by a factor; its gain is
the new covariance in units of the measurement variance. -/
structure Settles (q r p : ℝ) (f g : KalmanState ℝ) : Prop where
  falls : p < 1 → p < g.errorCovariance ∧ g.errorCovariance < f.errorCovariance
  rises : 1 < p → f.errorCovariance < g.errorCovariance ∧ g.errorCovariance < p
  stays : 1 = p → f.errorCovariance = p ∧ g.errorCovariance = p
  bounded : g.errorCovariance < r
  contracts : |g.errorCovariance - p| ≤ (r / (q + r)) ^ 2 * |f.errorCovariance - p|
  gain : f.gain = g.errorCovariance / r
  responds : p < 1 → g.gain < f.gain ∧ p / r < f.gain ∧ 0 < p / r

theorem exists_steady {q r : ℝ} (hq : 0 < q) (hr : 0 < r) : ∃ p, Riccati.Steady q r p := by
  have hroot : 0 ≤ q ^ 2 + 4 * (q * r) := by positivity
  have hlt : q < √(q ^ 2 + 4 * (q * r)) := by
    rw [Real.lt_sqrt hq.le]
    have hprod := mul_pos hq hr
    linarith
  refine ⟨(√(q ^ 2 + 4 * (q * r)) - q) / 2, ?_, ?_⟩
  · linarith
  · linear_combination Real.sq_sqrt hroot / 4

/-- An update of a filter whose covariance is on the side of the steady value on which it
started settles. -/
theorem settles_of_side {f : KalmanFilter ℝ} {q r p : ℝ}
    (hvar : f.processVariance = q ∧ f.measurementVariance = r) (hp : Riccati.Steady q r p)
    (hside : (p < 1 → p < f.errorCovariance) ∧ (1 < p → f.errorCovariance < p) ∧
      (1 = p → f.errorCovariance = p)) (m : ℝ) :
    Settles q r p f.toKalmanState (f.update m).toKalmanState := by
  obtain ⟨rfl, rfl⟩ := hvar
  have hq := f.process_nonneg
  have hr := f.measurement_pos
  have hpos := f.covariance_pos
  have hnext := f.errorCovariance_update m
  constructor
  · intro h
    rw [hnext]
    exact hp.next_of_lt hq hr hpos (hside.1 h)
  · intro h
    rw [hnext]
    exact hp.next_of_gt hq hr hpos (hside.2.1 h)
  · intro h
    rw [hnext, hside.2.2 h]
    exact ⟨rfl, hp.next_self hq hr⟩
  · rw [hnext]
    exact Riccati.next_lt hq hr hpos
  · rw [hnext]
    exact hp.abs_next_sub_le hq hr hpos
  · rw [hnext, f.gain_eq, Riccati.next_eq hq hr hpos, mul_div_cancel_left₀ _ hr.ne']
  · intro h
    have hfall := hp.next_of_lt hq hr hpos (hside.1 h)
    rw [← hnext] at hfall
    refine ⟨?_, ?_, div_pos hp.pos hr⟩
    · rw [f.gain_eq, (f.update m).gain_eq]
      exact Riccati.gain_lt_gain hq hr (f.update m).covariance_pos hfall.2
    · rw [f.gain_eq, ← hp.gain_self hq hr]
      exact Riccati.gain_lt_gain hq hr hp.pos (hside.1 h)

theorem settles_update {q r p : ℝ} (hq : 0 ≤ q) (hr : 0 < r) (hp : Riccati.Steady q r p)
    (x₀ : ℝ) (ms : List ℝ) (m : ℝ) :
    Settles q r p ((KalmanFilter.start hq hr x₀).updates ms).toKalmanState
      (((KalmanFilter.start hq hr x₀).updates ms).update m).toKalmanState := by
  have hcov := (KalmanFilter.start hq hr x₀).errorCovariance_updates ms
  have hside := hp.iterate_side hq hr one_pos ms.length
  change _ = (Riccati.next q r)^[ms.length] 1 at hcov
  rw [← hcov] at hside
  exact settles_of_side ((KalmanFilter.start hq hr x₀).updates_variances ms) hp hside m

/-- The shipped variances have a steady value below the first covariance. -/
theorem steady_lt_one {p : ℝ} (hp : Riccati.Steady (1 / 100000) (1 / 10) p) : p < 1 := by
  rw [hp.lt_iff (by norm_num) one_pos]
  norm_num

/-- Four filters with the shipped variances after `n` updates each. -/
def Synchronized (n : ℕ) (filters : PerAp (KalmanFilter ℚ)) : Prop :=
  ∀ i, (filters i).processVariance = 1 / 100000 ∧ (filters i).measurementVariance = 1 / 10 ∧
    (filters i).errorCovariance = (Riccati.next (1 / 100000) (1 / 10))^[n] 1

theorem synchronized_init (guess : ℚ) : Synchronized 0 fun _ ↦ KalmanFilter.init guess :=
  fun _ ↦ ⟨rfl, rfl, rfl⟩

/-- Updating all four keeps filters synchronized, whatever they measure. -/
theorem Synchronized.update {n : ℕ} {filters : PerAp (KalmanFilter ℚ)}
    (h : Synchronized n filters) (raw : PerAp ℚ) :
    Synchronized (n + 1) fun i ↦ (filters i).update (raw i) := by
  intro i
  obtain ⟨hq, hr, hcov⟩ := h i
  refine ⟨hq, hr, ?_⟩
  rw [KalmanFilter.errorCovariance_update, hq, hr, hcov, Function.iterate_succ_apply']

/-- The collector's filters are updated once for each row it logs. -/
theorem synchronized_logger (file : CsvFile) (evs : List Event) :
    Synchronized ((World.init file).run evs).2.length
      ((World.init file).run evs).1.node.filters := by
  apply Machine.emit_history (P := fun (w : World) (out : List Sample) ↦
    Synchronized out.length w.node.filters)
  · exact synchronized_init (-100)
  · intro w out e _ h
    by_cases he : e = .request true
    · rw [he, World.step_start, List.append_nil]
      exact h
    · have hquiet := w.step_quiet he
      generalize w.step e = next at hquiet
      rw [List.length_append]
      cases hquiet with
      | @logs time result raw _ => exact h.update fun i ↦ raw i
      | stop => exact h
      | setZone => exact h
      | idle => exact h
      | remove => exact h
      | truncate => exact h

/-- A run of the publisher over the results of its scans, with everything published. -/
abbrev RSSIPublisher.run : RSSIPublisher → List (Option Text) → RSSIPublisher × List Features :=
  Machine.emit fun n result ↦ ((n.publishRssi result).1, (n.publishRssi result).2.toList)

/-- The publisher's filters are updated once for each scan it publishes. -/
theorem synchronized_publisher (results : List (Option Text)) :
    Synchronized (RSSIPublisher.init.run results).2.length
      (RSSIPublisher.init.run results).1.filters := by
  apply Machine.emit_history (P := fun (n : RSSIPublisher) (out : List Features) ↦
    Synchronized out.length n.filters)
  · exact synchronized_init (-90)
  · intro n out result _ h
    rw [List.length_append]
    cases result with
    | none => exact h
    | some text =>
      rw [RSSIPublisher.publishRssi, RSSIPublisher.getRssiData_some]
      exact h.update fun i ↦ lastValue text (RSSIPublisher.targetBssids i)

/-- **The filter settles and never freezes.** In real arithmetic, for all positive variances,
there is one steady covariance, and every update of every run settles toward it, whatever is
measured; the steady covariance of the shipped variances is below the first one. In every
reachable state of the collector and of the publisher the four filters have one covariance. -/
theorem filters_settle :
    (∀ q r : ℝ, 0 < q → 0 < r → ∃ p, (0 < p ∧ p ^ 2 + q * p = q * r) ∧
      (∀ p', 0 < p' → p' ^ 2 + q * p' = q * r → p' = p) ∧
      ∀ x₀ ms m, ∃ f g, (KalmanState.start q r x₀).run ms = .ok f ∧ f.update m = .ok g ∧
        Settles q r p f g) ∧
    (∀ p : ℝ, 0 < p → p ^ 2 + 1 / 100000 * p = 1 / 100000 * (1 / 10) → p < 1) ∧
    (∀ file evs i j, (((World.init file).run evs).1.node.filters i).errorCovariance =
      (((World.init file).run evs).1.node.filters j).errorCovariance) ∧
    (∀ results i j, ((RSSIPublisher.init.run results).1.filters i).errorCovariance =
      ((RSSIPublisher.init.run results).1.filters j).errorCovariance) := by
  refine ⟨?_, ?_, ?_, ?_⟩
  · intro q r hq hr
    obtain ⟨p, hp⟩ := exists_steady hq hr
    refine ⟨p, ⟨hp.pos, hp.equation⟩, ?_, ?_⟩
    · intro p' hpos heq
      exact Riccati.Steady.unique hq.le ⟨hpos, heq⟩ hp
    · intro x₀ ms m
      exact ⟨_, _, KalmanState.run_start hq.le hr x₀ ms, KalmanFilter.update_toKalmanState _ m,
        settles_update hq.le hr hp x₀ ms m⟩
  · intro p hpos heq
    exact steady_lt_one ⟨hpos, heq⟩
  · intro file evs i j
    have h := synchronized_logger file evs
    rw [(h i).2.2, (h j).2.2]
  · intro results i j
    have h := synchronized_publisher results
    rw [(h i).2.2, (h j).2.2]

end MonitoringRobot.Rssi
