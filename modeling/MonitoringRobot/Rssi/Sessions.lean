import Mathlib.Tactic.FinCases
import MonitoringRobot.Rssi.Iwlist
import MonitoringRobot.Rssi.Logger

/-!
# What one logging session owes to the earlier ones

START sets the zone, the flag and the counter, and leaves the four filters as they are
(`edge_packages/src/rssi/rssi/data_zone_serv.py:58-69,99-113`). Two sessions of the same zone
with the same scans therefore log the same rows, if and only if the filters are in the same
state when START arrives: between any two different states some scan makes a difference of a
hundredth, however old the difference is.
-/

namespace MonitoringRobot.Rssi
open MonitoringRobot.Base

/-- The samples logged by a START and the timer ticks after it. -/
def World.session (w : World) (ticks : List (ℚ × Option Text)) : List Sample :=
  (w.run (.request true :: ticks.map fun t ↦ .tick t.1 t.2)).2

/-- The row of a sample without its time. -/
def Sample.labelled (s : Sample) : Record := s.record.tail

/-- A START now logs the same rows, up to their times, in both worlds, whatever the scans. -/
def SessionsAgree (w₁ w₂ : World) : Prop :=
  ∀ ticks₁ ticks₂ : List (ℚ × Option Text), ticks₁.map Prod.snd = ticks₂.map Prod.snd →
    (w₁.session ticks₁).map Sample.labelled = (w₂.session ticks₂).map Sample.labelled

/-- Rows agree up to their times exactly in the zone, the levels and the rounded estimates. -/
theorem Sample.labelled_eq_iff (s t : Sample) : s.labelled = t.labelled ↔
    s.zone = t.zone ∧ s.raw = t.raw ∧ ∀ i, round2 (s.filtered i) = round2 (t.filtered i) := by
  have hexpand : ∀ x : Sample, x.labelled = [.text x.zone,
      .integer (x.raw 0), .decimal (round2 (x.filtered 0)),
      .integer (x.raw 1), .decimal (round2 (x.filtered 1)),
      .integer (x.raw 2), .decimal (round2 (x.filtered 2)),
      .integer (x.raw 3), .decimal (round2 (x.filtered 3))] := fun _ ↦ rfl
  rw [hexpand, hexpand]
  constructor
  · intro h
    simp only [List.cons.injEq, Field.text.injEq, Field.integer.injEq, Field.decimal.injEq,
      and_true] at h
    obtain ⟨hz, hr0, hf0, hr1, hf1, hr2, hf2, hr3, hf3⟩ := h
    refine ⟨hz, ?_, ?_⟩
    · ext i
      fin_cases i
      · exact hr0
      · exact hr1
      · exact hr2
      · exact hr3
    · intro i
      fin_cases i
      · exact hf0
      · exact hf1
      · exact hf2
      · exact hf3
  · intro h
    obtain ⟨hz, hr, hf⟩ := h
    rw [hz, hr, hf 0, hf 1, hf 2, hf 3]

/-- Two worlds that a session cannot tell apart. -/
structure Alike (w₁ w₂ : World) : Prop where
  filters : w₁.node.filters = w₂.node.filters
  zone : w₁.node.currentZone = w₂.node.currentZone
  logging : w₁.node.isLogging = w₂.node.isLogging

/-- Ticks with one scan keep two worlds alike and log the same row. -/
theorem Alike.tick {w₁ w₂ : World} (h : Alike w₁ w₂) (time₁ time₂ : ℚ) (result : Option Text) :
    Alike (w₁.step (.tick time₁ result)).1 (w₂.step (.tick time₂ result)).1 ∧
      (w₁.step (.tick time₁ result)).2.map Sample.labelled =
        (w₂.step (.tick time₂ result)).2.map Sample.labelled := by
  by_cases hidle : w₁.node.isLogging = false ∨ result = none
  · have hidle₂ : w₂.node.isLogging = false ∨ result = none := h.logging ▸ hidle
    rw [World.step_tick_idle hidle, World.step_tick_idle hidle₂]
    exact ⟨h, rfl⟩
  · rw [not_or, Bool.not_eq_false] at hidle
    obtain ⟨text, rfl⟩ := Option.ne_none_iff_exists'.mp hidle.2
    obtain ⟨raw, hraw⟩ : ∃ raw, RSSILogger.getRssiData (some text) = some raw := ⟨_, rfl⟩
    have hlog₂ : w₂.node.isLogging = true := h.logging ▸ hidle.1
    have hrow : (w₁.node.sample time₁ raw).labelled = (w₂.node.sample time₂ raw).labelled := by
      rw [Sample.labelled_eq_iff]
      refine ⟨h.zone, rfl, ?_⟩
      intro i
      simp only [RSSILogger.sample, h.filters]
    rw [World.step_tick_logs hidle.1 hraw, World.step_tick_logs hlog₂ hraw]
    constructor
    · constructor
      · simp only [World.logged, RSSILogger.logged, h.filters]
      · exact h.zone
      · exact h.logging
    · rw [List.map_singleton, List.map_singleton, hrow]

/-- Ticks with the same scans log the same rows in worlds that are alike. -/
theorem Alike.run {w₁ w₂ : World} (h : Alike w₁ w₂) {ticks₁ ticks₂ : List (ℚ × Option Text)}
    (hscans : ticks₁.map Prod.snd = ticks₂.map Prod.snd) :
    (w₁.run (ticks₁.map fun t ↦ .tick t.1 t.2)).2.map Sample.labelled =
      (w₂.run (ticks₂.map fun t ↦ .tick t.1 t.2)).2.map Sample.labelled := by
  induction ticks₁ generalizing w₁ w₂ ticks₂ with
  | nil =>
    rw [List.map_nil, eq_comm, List.map_eq_nil_iff] at hscans
    rw [hscans]
    rfl
  | cons t₁ ticks₁ ih =>
    cases ticks₂ with
    | nil => cases hscans
    | cons t₂ ticks₂ =>
      rw [List.map_cons, List.map_cons, List.cons.injEq] at hscans
      obtain ⟨hnext, hrow⟩ := h.tick t₁.1 t₂.1 t₁.2
      rw [hscans.1] at hnext hrow
      simp only [List.map_cons, World.run_cons, List.map_append]
      rw [hscans.1, hrow, ih hnext hscans.2]

/-- All four filters are on the grid. -/
def RSSILogger.OnGrid (n : RSSILogger) : Prop :=
  ∀ i, ∃ a b y, KalmanFilter.Grid (n.filters i) a b y

theorem World.onGrid_step {w : World} (e : Event) (h : w.node.OnGrid) :
    (w.step e).1.node.OnGrid := by
  by_cases he : e = .request true
  · rw [he, step_start]
    exact h
  · have hquiet := w.step_quiet he
    generalize w.step e = next at hquiet
    cases hquiet with
    | @logs time result raw _ =>
      intro i
      obtain ⟨a, b, y, hgrid⟩ := h i
      exact ⟨_, _, _, hgrid.update (raw i)⟩
    | stop => exact h
    | setZone => exact h
    | idle => exact h
    | remove => exact h
    | truncate => exact h

theorem onGrid_run (file : CsvFile) (evs : List Event) :
    ((World.init file).run evs).1.node.OnGrid :=
  Machine.emit_invariant (P := fun (w : World) ↦ w.node.OnGrid)
    (fun _ ↦ ⟨_, _, _, KalmanFilter.grid_init (-100)⟩) (fun _ e h ↦ World.onGrid_step e h) evs

/-- No text. -/
def Plain.empty : Plain := ⟨[], by decide⟩

theorem RSSILogger.targetBssids_mac (i : Fin 4) :
    (RSSILogger.targetBssids i).length = 17 ∧
      (RSSILogger.targetBssids i).all isMacChar = true ∧
      (RSSILogger.targetBssids i).map Char.toLower = RSSILogger.targetBssids i := by
  fin_cases i
  · decide
  · decide
  · decide
  · decide

/-- A cell of one target with a given level. -/
def targetCell (i : Fin 4) (level : ℤ) : Cell where
  number := "01".toList
  mac := RSSILogger.targetBssids i
  beforeLevel := []
  quality := Plain.empty
  level := level
  noise := Plain.empty
  beforeEssid := []
  margin := Plain.empty
  essid := ⟨[], by decide⟩
  further := []
  indent := Plain.empty
  number_digits := List.all_eq_true.mp (show "01".toList.all Char.isDigit = true by decide)
  mac_length := (RSSILogger.targetBssids_mac i).1
  mac_class := List.all_eq_true.mp (RSSILogger.targetBssids_mac i).2.1

/-- Every level of every target is the result of some scan. -/
theorem exists_scan (i : Fin 4) (level : ℤ) :
    ∃ text raw, RSSILogger.getRssiData (some text) = some raw ∧ raw i = level := by
  refine ⟨scanText Plain.empty [targetCell i level], _, getRssiData_scanText
    RSSILogger.targetBssids intOf id intOf_strInt Plain.empty [targetCell i level], ?_⟩
  have hmac : (targetCell i level).bssid = RSSILogger.targetBssids i :=
    (RSSILogger.targetBssids_mac i).2.2
  simp only [levelOf, List.filter_cons, hmac, decide_true, if_true, List.filter_nil]
  rfl

/-- **When sessions are independent.** After any two histories, in front of any files, that
leave `zone_name` with the same value: the rows of a START and any ticks after it agree in
zone, levels and rounded estimates for all scans, if and only if the four filters are in the
same state in both. -/
theorem sessions_agree_iff (file₁ file₂ : CsvFile) (history₁ history₂ : List Event)
    (hzone : ((World.init file₁).run history₁).1.zoneName =
      ((World.init file₂).run history₂).1.zoneName) :
    SessionsAgree ((World.init file₁).run history₁).1 ((World.init file₂).run history₂).1 ↔
      ((World.init file₁).run history₁).1.node.filters =
        ((World.init file₂).run history₂).1.node.filters := by
  have hgrid₁ := onGrid_run file₁ history₁
  have hgrid₂ := onGrid_run file₂ history₂
  generalize ((World.init file₁).run history₁).1 = w₁ at *
  generalize ((World.init file₂).run history₂).1 = w₂ at *
  constructor
  · intro hagree
    by_contra hne
    obtain ⟨i, hi⟩ := Function.ne_iff.mp hne
    obtain ⟨a, b, y, hf⟩ := hgrid₁ i
    obtain ⟨a', b', z, hg⟩ := hgrid₂ i
    obtain ⟨m, hm⟩ := KalmanFilter.exists_apart hf hg hi
    obtain ⟨text, raw, hraw, hrawi⟩ := exists_scan i m
    have hrow := hagree [(0, some text)] [(0, some text)] rfl
    have hsession : ∀ w : World, (w.session [(0, some text)]).map Sample.labelled =
        [((w.step (.request true)).1.node.sample 0 raw).labelled] := by
      intro w
      rw [World.session, List.map_cons, List.map_nil, World.run_cons, World.run_cons,
        World.step_tick_logs rfl hraw]
      rfl
    rw [hsession, hsession, List.cons.injEq, Sample.labelled_eq_iff] at hrow
    apply hm
    rw [← hrawi]
    exact hrow.1.2.2 i
  · intro hfilters ticks₁ ticks₂ hscans
    have halike : Alike (w₁.step (.request true)).1 (w₂.step (.request true)).1 :=
      ⟨hfilters, hzone, rfl⟩
    exact halike.run hscans

/-- Before anything was scanned a START and STOP leave the next session as it was. -/
theorem sessions_agree_iff_fresh :
    SessionsAgree ((World.init none).run []).1
      ((World.init none).run [.request true, .request false]).1 :=
  (sessions_agree_iff none none [] [.request true, .request false] rfl).mpr rfl

/-- A scan that hears the first access point at -40 dBm, logged in an earlier session, changes
the row logged for an empty scan in the next one. -/
theorem earlier_session_leaks :
    ¬ SessionsAgree ((World.init none).run []).1
      ((World.init none).run [.request true,
        .tick 0 (some "Cell 01 - Address: EA:B0:C5:11:92:25\nSignal level=-40 dBm".toList),
        .request false]).1 := by
  intro h
  have hrow := h [(1, some [])] [(1, some [])] rfl
  revert hrow
  decide +kernel

end MonitoringRobot.Rssi
