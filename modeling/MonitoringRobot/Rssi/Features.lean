import Mathlib.Tactic.FinCases
import MonitoringRobot.Rssi.Logger

/-!
# Features for training and features for serving

`RSSIPublisher` (`edge_packages/src/rssi/rssi/rssi_logger.py:22-64`) feeds the predictor what
`RSSILogger` (`edge_packages/src/rssi/rssi/data_zone_serv.py:28-113`) collected the dataset
with. The two copies read the same level for three of the four targets and look for different
access points in the third column; their filters start ten apart, and no update closes that
gap. Compared are exact numbers, before CSV rounding and before the conversion to `float32`.
-/

namespace MonitoringRobot.Rssi
open MonitoringRobot.Base

/-- The attributes of the node; `rssi_logger.py:33`. -/
structure RSSIPublisher where
  filters : PerAp (KalmanFilter ℚ)

/-- `__init__`: the filters start from a first guess of `-90.0`. -/
def RSSIPublisher.init : RSSIPublisher := ⟨fun _ ↦ KalmanFilter.init (-90)⟩

/-- The raw and the filtered values of one scan. -/
structure Features where
  raw : PerAp ℚ
  filtered : PerAp ℚ

/-- `publish_rssi`; `rssi_logger.py:52-64`. A list of four values counts as true. -/
def RSSIPublisher.publishRssi (n : RSSIPublisher) (result : Option Text) :
    RSSIPublisher × Option Features :=
  match RSSIPublisher.getRssiData result with
  | none => (n, none)
  | some raw =>
    let filters : PerAp (KalmanFilter ℚ) := fun i ↦ (n.filters i).update (raw i)
    (⟨filters⟩, some ⟨raw, fun i ↦ (filters i).estimatedValue⟩)

/-- What the publisher sends for a sequence of scans. -/
def RSSIPublisher.features (n : RSSIPublisher) : List (Option Text) → List (Option Features)
  | [] => []
  | result :: rest => (n.publishRssi result).2 :: (n.publishRssi result).1.features rest

/-- The values of a sample as numbers. -/
def Sample.features (s : Sample) : Features := ⟨fun i ↦ s.raw i, s.filtered⟩

/-- What the collector logs for a sequence of ticks. -/
def RSSILogger.features (n : RSSILogger) : List (ℚ × Option Text) → List (Option Features)
  | [] => []
  | (time, result) :: rest =>
    (n.scanAndLog time result).2.map Sample.features :: (n.scanAndLog time result).1.features rest

/-- The value of an address in a scan: the last level read for it, or `-100`. -/
def lastValue (text : Text) (mac : Text) : ℤ :=
  ((lastLevel? (readings text) mac).map intOf).getD (-100)

theorem RSSILogger.getRssiData_some (text : Text) : RSSILogger.getRssiData (some text) =
    some fun i ↦ lastValue text (RSSILogger.targetBssids i) :=
  getRssiData_eq _ _ _ _

theorem RSSIPublisher.getRssiData_some (text : Text) : RSSIPublisher.getRssiData (some text) =
    some fun i ↦ (lastValue text (RSSIPublisher.targetBssids i) : ℚ) := by
  rw [RSSIPublisher.getRssiData, getRssiData_eq, Option.some.injEq]
  ext i
  rw [lastValue]
  cases lastLevel? (readings text) (RSSIPublisher.targetBssids i) with
  | none => rfl
  | some rssi => rfl

/-- Outside the third column the two nodes look for the same access point. -/
theorem targetBssids_eq {i : Fin 4} (h : i ≠ 2) :
    RSSIPublisher.targetBssids i = RSSILogger.targetBssids i := by
  fin_cases i
  · decide
  · decide
  · exact absurd rfl h
  · decide

/-- The raw values of a scan agree exactly when the third access points of the two nodes are
heard at the same level, or both not at all. -/
theorem raw_agree_iff (text : Text) :
    (∀ i, (lastValue text (RSSIPublisher.targetBssids i) : ℚ) =
        lastValue text (RSSILogger.targetBssids i)) ↔
      lastValue text "ce:ec:70:ba:27:7e".toList = lastValue text "76:09:6d:d7:74:0f".toList := by
  constructor
  · intro h
    exact Int.cast_injective (h 2)
  · intro h i
    by_cases hi : i = 2
    · subst hi
      exact congrArg Int.cast h
    · rw [targetBssids_eq hi]

/-- Filters with one gain and different estimates stay apart whatever they measure. -/
theorem KalmanFilter.update_apart {f g : KalmanFilter ℚ} (hgain : f.gain = g.gain)
    (hne : f.estimatedValue ≠ g.estimatedValue) (m : ℚ) :
    (f.update m).estimatedValue ≠ (g.update m).estimatedValue := by
  rw [estimatedValue_update, estimatedValue_update, hgain]
  intro h
  have hprod : (1 - g.gain) * (f.estimatedValue - g.estimatedValue) = 0 := by linarith
  rcases mul_eq_zero.mp hprod with hzero | hzero
  · have hlt := g.gain_lt_one
    linarith
  · exact hne (sub_eq_zero.mp hzero)

/-- The collector once it received START for a zone. -/
def RSSILogger.started (zone : String) : RSSILogger :=
  (RSSILogger.init.serviceCallback zone true).1

/-- A first scan gives different features, whatever was heard: the first columns read the same
level and still differ after their filters. -/
theorem first_features_ne (zone : String) (time : ℚ) (text : Text) :
    ((RSSILogger.started zone).scanAndLog time (some text)).2.map Sample.features ≠
      (RSSIPublisher.init.publishRssi (some text)).2 := by
  have hlogger : ((RSSILogger.started zone).scanAndLog time (some text)).2.map
      Sample.features = some ⟨fun i ↦ (lastValue text (RSSILogger.targetBssids i) : ℚ),
        fun i ↦ ((KalmanFilter.init (-100)).update
          (lastValue text (RSSILogger.targetBssids i))).estimatedValue⟩ := by
    simp only [RSSILogger.scanAndLog, RSSILogger.getRssiData_some]
    rfl
  have hpublisher : (RSSIPublisher.init.publishRssi (some text)).2 =
      some ⟨fun i ↦ (lastValue text (RSSIPublisher.targetBssids i) : ℚ),
        fun i ↦ ((KalmanFilter.init (-90)).update
          (lastValue text (RSSIPublisher.targetBssids i))).estimatedValue⟩ := by
    simp only [RSSIPublisher.publishRssi, RSSIPublisher.getRssiData_some]
    rfl
  have hgain : (KalmanFilter.init (-100)).gain = (KalmanFilter.init (-90)).gain := rfl
  have hguess : (KalmanFilter.init (-100)).estimatedValue ≠
      (KalmanFilter.init (-90)).estimatedValue := by
    change (-100 : ℚ) ≠ -90
    norm_num
  intro h
  rw [hlogger, hpublisher, Option.some.injEq, Features.mk.injEq] at h
  have hfirst := congrFun h.2 0
  rw [targetBssids_eq (show (0 : Fin 4) ≠ 2 by decide)] at hfirst
  exact absurd hfirst (KalmanFilter.update_apart hgain hguess _)

/-- **When training and serving agree.** Feed one sequence of scans to a fresh collector that
received START and to a fresh publisher. They compute the same raw and filtered values at
every scan that succeeds (one that fails gives no values on either side), if and only if no
scan succeeds. -/
theorem features_agree_iff (zone : String) (ticks : List (ℚ × Option Text)) :
    (RSSILogger.started zone).features ticks =
        RSSIPublisher.init.features (ticks.map Prod.snd) ↔
      ∀ t ∈ ticks, t.2 = none := by
  induction ticks with
  | nil =>
    constructor
    · intro _ t ht
      cases ht
    · intro _
      rfl
  | cons t ticks ih =>
    obtain ⟨time, result⟩ := t
    cases result with
    | none =>
      have hlogger : (RSSILogger.started zone).features ((time, none) :: ticks) =
          none :: (RSSILogger.started zone).features ticks := rfl
      have hpublisher : RSSIPublisher.init.features (((time, none) :: ticks).map Prod.snd) =
          none :: RSSIPublisher.init.features (ticks.map Prod.snd) := rfl
      rw [hlogger, hpublisher, List.cons.injEq, ih]
      constructor
      · intro h t ht
        rcases List.mem_cons.mp ht with rfl | ht
        · rfl
        · exact h.2 t ht
      · intro h
        exact ⟨rfl, fun t ht ↦ h t (List.mem_cons_of_mem _ ht)⟩
    | some text =>
      constructor
      · intro h
        exact absurd (List.cons.inj h).1 (first_features_ne zone time text)
      · intro h
        cases h (time, some text) List.mem_cons_self

/-- One scan that hears nobody: equal raw values, different filtered values. -/
theorem features_differ : ∃ f g : Features,
    (RSSILogger.started "Room1").features [(0, some [])] = [some f] ∧
      RSSIPublisher.init.features [some []] = [some g] ∧
      f.raw 0 = g.raw 0 ∧ f.filtered 0 ≠ g.filtered 0 := by
  refine ⟨_, _, rfl, rfl, ?_, ?_⟩
  · rfl
  · decide +kernel

end MonitoringRobot.Rssi
