import Mathlib.Data.List.FinRange
import MonitoringRobot.Base.Csv
import MonitoringRobot.Base.Machine
import MonitoringRobot.Ros.Interfaces
import MonitoringRobot.Rssi.Kalman
import MonitoringRobot.Rssi.Scan

/-!
# The collector of the fingerprint dataset

`RSSILogger` (`edge_packages/src/rssi/rssi/data_zone_serv.py:28-69,99-127`) with its
parameter, its CSV file and the world around it: requests and timer ticks, changes of
`zone_name`, and another process that removes or empties the file. A file is absent or a text;
opening it for appending does not fail. Rows are put behind whatever the text ends with, so that
the first row written behind a last record without line break is read as a part of that record.
-/

namespace MonitoringRobot.Rssi
open MonitoringRobot.Base MonitoringRobot.Ros

/-- The attributes of the node; `data_zone_serv.py:43-49`. -/
structure RSSILogger where
  filters : PerAp (KalmanFilter ℚ)
  currentZone : String
  isLogging : Bool
  pointCount : Nat

/-- `__init__`: the filters start from a first guess of `-100.0`. -/
def RSSILogger.init : RSSILogger where
  filters := fun _ ↦ KalmanFilter.init (-100)
  currentZone := "None"
  isLogging := false
  pointCount := 0

/-- `service_callback` while the parameter `zone_name` reads `zoneName`;
`data_zone_serv.py:58-69`. -/
def RSSILogger.serviceCallback (n : RSSILogger) (zoneName : String) (data : Bool) :
    RSSILogger × SetBoolResponse :=
  if data then
    let n := { n with currentZone := zoneName, isLogging := true, pointCount := 0 }
    (n, ⟨true, "STARTED logging zone: " ++ n.currentZone⟩)
  else
    let n := { n with isLogging := false }
    (n, ⟨true, "STOPPED. Total points for " ++ n.currentZone ++ ": " ++ toString n.pointCount⟩)

/-- What one tick logs, before formatting. -/
structure Sample where
  time : ℚ
  zone : String
  raw : PerAp ℤ
  filtered : PerAp ℚ

/-- `scan_and_log` up to the file, with the row it goes on to write;
`data_zone_serv.py:99-113,127`. -/
def RSSILogger.scanAndLog (n : RSSILogger) (time : ℚ) (result : Option Text) :
    RSSILogger × Option Sample :=
  if !n.isLogging then (n, none)
  else
    match RSSILogger.getRssiData result with
    | none => (n, none)
    | some raw =>
      let filters : PerAp (KalmanFilter ℚ) := fun i ↦ (n.filters i).update (raw i)
      let sample : Sample := ⟨time, n.currentZone, raw, fun i ↦ (filters i).estimatedValue⟩
      ({ n with filters := filters, pointCount := n.pointCount + 1 }, some sample)

/-- A field of a CSV record. -/
inductive Field where
  | text (s : String)
  | integer (n : ℤ)
  | decimal (q : ℚ)
  deriving DecidableEq

/-- One CSV record. -/
abbrev Record := List Field

/-- The header record; `data_zone_serv.py:120-124`. -/
def header : Record :=
  [.text "time", .text "zone", .text "ap0_raw", .text "ap0_filt", .text "ap1_raw",
    .text "ap1_filt", .text "ap2_raw", .text "ap2_filt", .text "ap3_raw", .text "ap3_filt"]

/-- `row`; `data_zone_serv.py:110-113`. -/
def Sample.record (s : Sample) : Record :=
  .decimal s.time :: .text s.zone ::
    (List.finRange 4).flatMap fun i ↦ [.integer (s.raw i), .decimal (round2 (s.filtered i))]

/-- The file on disk: absent, or its text. -/
abbrev CsvFile := Option (List (Csv.Token Field))

/-- The writes of `scan_and_log`: the header first where the file is absent or empty;
`data_zone_serv.py:115-125`. -/
def appendRow (file : CsvFile) (row : Record) : CsvFile :=
  let fileExists := file.isSome
  let text := file.getD []
  let text := if !fileExists || text.isEmpty then text ++ Csv.writerow header else text
  some (text ++ Csv.writerow row)

/-- The node, its parameter, and the file. -/
structure World where
  node : RSSILogger
  zoneName : String
  file : CsvFile

/-- A fresh node in front of a file; `zone_name` is declared as `Room1`. -/
def World.init (file : CsvFile) : World := ⟨RSSILogger.init, "Room1", file⟩

/-- A request, a parameter change, a timer tick with its scan, or another process removing or
emptying the file. -/
inductive Event where
  | request (data : Bool)
  | setZone (zone : String)
  | tick (time : ℚ) (result : Option Text)
  | remove
  | truncate

/-- One event, with the sample it logs, if any. -/
def World.step (w : World) : Event → World × List Sample
  | .request data => ({ w with node := (w.node.serviceCallback w.zoneName data).1 }, [])
  | .setZone zone => ({ w with zoneName := zone }, [])
  | .tick time result =>
    match w.node.scanAndLog time result with
    | (node, none) => ({ w with node := node }, [])
    | (node, some sample) =>
      ({ w with node := node, file := appendRow w.file sample.record }, [sample])
  | .remove => ({ w with file := none }, [])
  | .truncate => ({ w with file := w.file.map fun _ ↦ [] }, [])

/-- A run of events, with the samples it logs. -/
abbrev World.run : World → List Event → World × List Sample := Machine.emit step

theorem World.run_cons (w : World) (e : Event) (es : List Event) : w.run (e :: es) =
    (((w.step e).1.run es).1, (w.step e).2 ++ ((w.step e).1.run es).2) :=
  Machine.emit_cons w e es

theorem World.run_append (w : World) (es fs : List Event) : w.run (es ++ fs) =
    (((w.run es).1.run fs).1, (w.run es).2 ++ ((w.run es).1.run fs).2) :=
  Machine.emit_append w es fs

/-- A tick while stopped, and a tick whose scan failed, change nothing. -/
theorem World.step_tick_idle {w : World} {result : Option Text}
    (h : w.node.isLogging = false ∨ result = none) (time : ℚ) :
    w.step (.tick time result) = (w, []) := by
  have hnode : w.node.scanAndLog time result = (w.node, none) := by
    unfold RSSILogger.scanAndLog
    rcases h with h | h
    · rw [h]
      rfl
    · rw [h]
      split
      · rfl
      · rfl
  simp only [step, hnode]

/-- The node after a tick that logs. -/
def RSSILogger.logged (n : RSSILogger) (raw : PerAp ℤ) : RSSILogger :=
  { n with filters := fun i ↦ (n.filters i).update (raw i), pointCount := n.pointCount + 1 }

/-- What a logging tick writes down. -/
def RSSILogger.sample (n : RSSILogger) (time : ℚ) (raw : PerAp ℤ) : Sample :=
  ⟨time, n.currentZone, raw, fun i ↦ ((n.filters i).update (raw i)).estimatedValue⟩

/-- The world after a tick that logs. -/
def World.logged (w : World) (time : ℚ) (raw : PerAp ℤ) : World :=
  { w with node := w.node.logged raw,
           file := appendRow w.file (w.node.sample time raw).record }

theorem World.step_tick_logs {w : World} {text : Text} {raw : PerAp ℤ}
    (h : w.node.isLogging = true) (hraw : RSSILogger.getRssiData (some text) = some raw)
    (time : ℚ) : w.step (.tick time (some text)) =
      (w.logged time raw, [w.node.sample time raw]) := by
  have hnode : w.node.scanAndLog time (some text) =
      (w.node.logged raw, some (w.node.sample time raw)) := by
    have hgo : ¬ (!w.node.isLogging) = true := by rw [h]; decide
    rw [RSSILogger.scanAndLog, if_neg hgo]
    simp only [hraw]
    rfl
  simp only [step, hnode]
  rfl

/-- Everything an event can do short of a START. -/
inductive Quiet (w : World) : Event → World × List Sample → Prop where
  | stop : Quiet w (.request false) ({ w with node := { w.node with isLogging := false } }, [])
  | setZone {zone} : Quiet w (.setZone zone) ({ w with zoneName := zone }, [])
  | idle {time result} : Quiet w (.tick time result) (w, [])
  | logs {time result raw} (h : w.node.isLogging = true) :
      Quiet w (.tick time result) (w.logged time raw, [w.node.sample time raw])
  | remove : Quiet w .remove ({ w with file := none }, [])
  | truncate : Quiet w .truncate ({ w with file := w.file.map fun _ ↦ [] }, [])

/-- An event other than a START has one of these effects. -/
theorem World.step_quiet (w : World) {e : Event} (he : e ≠ .request true) :
    Quiet w e (w.step e) := by
  cases e with
  | request data =>
    cases data with
    | true => exact absurd rfl he
    | false => exact .stop
  | setZone zone => exact .setZone
  | tick time result =>
    by_cases hidle : w.node.isLogging = false ∨ result = none
    · rw [step_tick_idle hidle]
      exact .idle
    · rw [not_or, Bool.not_eq_false] at hidle
      obtain ⟨text, rfl⟩ := Option.ne_none_iff_exists'.mp hidle.2
      rw [step_tick_logs hidle.1 rfl]
      exact .logs hidle.1
  | remove => exact .remove
  | truncate => exact .truncate

/-- A START sets the zone, the flag and the counter, and nothing else. -/
theorem World.step_start (w : World) : w.step (.request true) =
    ({ w with node := { w.node with currentZone := w.zoneName, isLogging := true,
                                    pointCount := 0 } }, []) := rfl

/-- Short of a START a step keeps the zone, counts what it logs, and logs under that zone. -/
theorem World.step_session {w : World} {e : Event} (he : e ≠ .request true) :
    (w.step e).1.node.currentZone = w.node.currentZone ∧
      (w.step e).1.node.pointCount = w.node.pointCount + (w.step e).2.length ∧
      ∀ s ∈ (w.step e).2, s.zone = w.node.currentZone := by
  have hquiet := w.step_quiet he
  generalize w.step e = next at hquiet
  cases hquiet with
  | logs h =>
    refine ⟨rfl, rfl, ?_⟩
    intro s hs
    rw [List.mem_singleton.mp hs]
    rfl
  | stop => exact ⟨rfl, rfl, by simp⟩
  | setZone => exact ⟨rfl, rfl, by simp⟩
  | idle => exact ⟨rfl, rfl, by simp⟩
  | remove => exact ⟨rfl, rfl, by simp⟩
  | truncate => exact ⟨rfl, rfl, by simp⟩

/-- Short of a START a run keeps the zone, counts what it logs, and logs under that zone. -/
theorem World.run_session {w : World} {es : List Event} (hes : ∀ e ∈ es, e ≠ .request true) :
    (w.run es).1.node.currentZone = w.node.currentZone ∧
      (w.run es).1.node.pointCount = w.node.pointCount + (w.run es).2.length ∧
      ∀ s ∈ (w.run es).2, s.zone = w.node.currentZone := by
  apply Machine.emit_history (P := fun (v : World) (out : List Sample) ↦
    v.node.currentZone = w.node.currentZone ∧
      v.node.pointCount = w.node.pointCount + out.length ∧
      ∀ s ∈ out, s.zone = w.node.currentZone)
  · exact ⟨rfl, rfl, by simp⟩
  · intro v out e he h
    obtain ⟨hzone, hcount, hlabel⟩ := h
    obtain ⟨hzone', hcount', hlabel'⟩ := step_session (w := v) (hes e he)
    rw [hzone] at hzone' hlabel'
    refine ⟨hzone', ?_, ?_⟩
    · rw [hcount', hcount, List.length_append, Nat.add_assoc]
    · intro s hs
      rcases List.mem_append.mp hs with hs | hs
      · exact hlabel s hs
      · exact hlabel' s hs

/-- A record with one field per column of the header, other than the header. -/
def DataRow (record : List (List (Csv.Token Field))) : Prop :=
  record.length = header.length ∧ record ≠ Csv.written header

/-- The file is absent, empty, or read as one header followed by data rows. -/
def WellFormed : CsvFile → Prop
  | none => True
  | some text => text = [] ∨
      ∃ rows, Csv.reader text = Csv.written header :: rows ∧ ∀ row ∈ rows, DataRow row

/-- The file is absent, empty, or ends with a line break. -/
def Ended : CsvFile → Prop
  | none => True
  | some text => Csv.Ended text

/-- What a tick writes is a data row: it starts with a number. -/
theorem Sample.dataRow_record (s : Sample) : DataRow (Csv.written s.record) := by
  constructor
  · rfl
  · intro h
    cases List.head_eq_of_cons_eq h

theorem appendRow_of_empty {file : CsvFile} (h : file.getD [] = []) (row : Record) :
    appendRow file row = some (Csv.writerow header ++ Csv.writerow row) := by
  simp [appendRow, h]

theorem appendRow_of_ne_nil {text : List (Csv.Token Field)} (h : text ≠ []) (row : Record) :
    appendRow (some text) row = some (text ++ Csv.writerow row) := by
  simp [appendRow, h]

theorem ended_appendRow (file : CsvFile) (row : Record) : Ended (appendRow file row) :=
  Csv.ended_append_writerow _ row

/-- Appending a data row keeps a file well-formed, if its last record has a line break. -/
theorem wellFormed_appendRow {file : CsvFile} {row : Record} (h : WellFormed file)
    (hended : Ended file) (hrow : DataRow (Csv.written row)) :
    WellFormed (appendRow file row) := by
  by_cases hempty : file.getD [] = []
  · rw [appendRow_of_empty hempty]
    right
    refine ⟨[Csv.written row], ?_, ?_⟩
    · rw [Csv.reader_append (Csv.ended_writerow header), Csv.reader_writerow,
        Csv.reader_writerow]
      rfl
    · intro r hr
      rw [List.mem_singleton.mp hr]
      exact hrow
  · cases file with
    | none => exact absurd rfl hempty
    | some text =>
      rw [Option.getD_some] at hempty
      rcases h with hnil | ⟨rows, hread, hrows⟩
      · exact absurd hnil hempty
      · rw [appendRow_of_ne_nil hempty]
        right
        refine ⟨rows ++ [Csv.written row], ?_, ?_⟩
        · rw [Csv.reader_append hended, hread, Csv.reader_writerow]
          rfl
        · intro r hr
          rcases List.mem_append.mp hr with hr | hr
          · exact hrows r hr
          · rw [List.mem_singleton.mp hr]
            exact hrow

/-- All records of a well-formed file have one field per column. -/
theorem WellFormed.length_of_mem {text : List (Csv.Token Field)} (h : WellFormed (some text))
    {record : List (List (Csv.Token Field))} (hrecord : record ∈ Csv.reader text) :
    record.length = header.length := by
  rcases h with rfl | ⟨rows, hread, hrows⟩
  · rw [Csv.reader_nil] at hrecord
    cases hrecord
  · rw [hread] at hrecord
    rcases List.mem_cons.mp hrecord with rfl | hmem
    · rfl
    · exact (hrows record hmem).1

/-- Behind a last record without line break the first row is read as a part of that record. -/
theorem not_wellFormed_appendRow {file : CsvFile} (h : WellFormed file) (hended : ¬ Ended file)
    (s : Sample) : ¬ WellFormed (appendRow file s.record) := by
  cases file with
  | none => exact absurd trivial hended
  | some text =>
    obtain ⟨front, line, rfl, hfront, hline, hbreak⟩ := Csv.exists_of_not_ended hended
    have hne : front ++ line ≠ [] := List.append_ne_nil_of_right_ne_nil front hline
    obtain ⟨record, hread, hlength⟩ := Csv.length_reader_joined hline hbreak
      (.decimal s.time) s.record.tail
    have hlast : (Csv.fields line).length = header.length := by
      apply h.length_of_mem
      rw [Csv.reader_append hfront, Csv.reader_unended hline hbreak]
      exact List.mem_append_right _ (List.mem_singleton_self _)
    intro hnext
    rw [appendRow_of_ne_nil hne] at hnext
    have hjoined : record.length = header.length := by
      apply hnext.length_of_mem
      rw [List.append_assoc, Csv.reader_append hfront, show s.record = .decimal s.time ::
        s.record.tail from rfl, hread]
      exact List.mem_append_right _ (List.mem_singleton_self _)
    rw [hlength, hlast, Nat.add_eq_left] at hjoined
    cases hjoined

theorem World.wellFormed_step {w : World} (e : Event) (h : WellFormed w.file ∧ Ended w.file) :
    WellFormed (w.step e).1.file ∧ Ended (w.step e).1.file := by
  by_cases he : e = .request true
  · rw [he, step_start]
    exact h
  · have hquiet := w.step_quiet he
    generalize w.step e = next at hquiet
    cases hquiet with
    | logs _ =>
      exact ⟨wellFormed_appendRow h.1 h.2 (Sample.dataRow_record _), ended_appendRow _ _⟩
    | stop => exact h
    | setZone => exact h
    | idle => exact h
    | remove => exact ⟨trivial, trivial⟩
    | truncate =>
      cases w.file with
      | none => exact ⟨trivial, trivial⟩
      | some text => exact ⟨.inl rfl, .inl rfl⟩

/-- The rows an event adds follow those already at the end of the file. -/
theorem World.step_file {w : World} {e : Event} (he : e ≠ .remove ∧ e ≠ .truncate)
    {rows : List (Csv.Token Field)} (h : rows <:+ w.file.getD []) :
    rows ++ (w.step e).2.flatMap (fun s ↦ Csv.writerow s.record) <:+
      (w.step e).1.file.getD [] := by
  by_cases hstart : e = .request true
  · rw [hstart, step_start]
    simpa using h
  · have hquiet := w.step_quiet hstart
    generalize w.step e = next at hquiet
    cases hquiet with
    | @logs time result raw _ =>
      have hfile := h
      obtain ⟨old, hold⟩ := h
      simp only [logged, List.flatMap_singleton]
      by_cases hempty : w.file.getD [] = []
      · rw [hempty] at hfile
        rw [List.suffix_nil.mp hfile, appendRow_of_empty hempty]
        exact List.suffix_append _ _
      · cases hw : w.file with
        | none => exact absurd (by rw [hw]; rfl) hempty
        | some text =>
          rw [hw, Option.getD_some] at hold hempty
          rw [appendRow_of_ne_nil hempty]
          exact ⟨old, by rw [← List.append_assoc, hold]; rfl⟩
    | stop => simpa using h
    | setZone => simpa using h
    | idle => simpa using h
    | remove => exact absurd rfl he.1
    | truncate => exact absurd rfl he.2

/-- As long as nobody removes or empties the file, it ends with the rows logged. -/
theorem World.run_file (w : World) {es : List Event}
    (hes : ∀ e ∈ es, e ≠ .remove ∧ e ≠ .truncate) :
    (w.run es).2.flatMap (fun s ↦ Csv.writerow s.record) <:+ (w.run es).1.file.getD [] := by
  apply Machine.emit_history (P := fun (v : World) (out : List Sample) ↦
    out.flatMap (fun s ↦ Csv.writerow s.record) <:+ v.file.getD [])
  · exact List.nil_suffix
  · intro v out e he h
    rw [List.flatMap_append]
    exact step_file (hes e he) h

theorem World.run_stopped {w : World} (h : w.node.isLogging = false) {es : List Event}
    (hes : ∀ e ∈ es, e ≠ .request true) : (w.run es).2 = [] := by
  have hrun : (w.run es).1.node.isLogging = false ∧ (w.run es).2 = [] := by
    apply Machine.emit_history (P := fun (v : World) (out : List Sample) ↦
      v.node.isLogging = false ∧ out = [])
    · exact ⟨h, rfl⟩
    · intro v out e he hv
      have hquiet := v.step_quiet (hes e he)
      rw [hv.2]
      generalize v.step e = next at hquiet
      cases hquiet with
      | logs hlog =>
        rw [hv.1] at hlog
        cases hlog
      | stop => exact ⟨rfl, rfl⟩
      | setZone => exact ⟨hv.1, rfl⟩
      | idle => exact ⟨hv.1, rfl⟩
      | remove => exact ⟨hv.1, rfl⟩
      | truncate => exact ⟨hv.1, rfl⟩
  exact hrun.2

/-- **Integrity of the dataset.** After any events from construction, in front of any file:
a tick while stopped or with a failed scan changes nothing at all; the samples logged since
the latest START carry the zone read at that START, are counted by `point_count` and reported
by STOP, and their rows end the file unless it was removed or emptied since; before the first
START there are none. A file that started absent, empty or well-formed is so after all events,
if and only if its last record had a line break. -/
theorem dataset_integrity (file : CsvFile) :
    (∀ evs, (∀ time result,
        ((World.init file).run evs).1.node.isLogging = false ∨ result = none →
        ((World.init file).run evs).1.step (.tick time result) =
          (((World.init file).run evs).1, [])) ∧
      (∀ before session, evs = before ++ .request true :: session →
        (∀ e ∈ session, e ≠ .request true) →
        ∃ samples, ((World.init file).run evs).2 = ((World.init file).run before).2 ++ samples ∧
          (∀ s ∈ samples, s.zone = ((World.init file).run before).1.zoneName) ∧
          samples.length = ((World.init file).run evs).1.node.pointCount ∧
          (∀ zoneName, (((World.init file).run evs).1.node.serviceCallback zoneName false).2 =
            ⟨true, "STOPPED. Total points for " ++ ((World.init file).run before).1.zoneName ++
              ": " ++ toString samples.length⟩) ∧
          ((∀ e ∈ session, e ≠ .remove ∧ e ≠ .truncate) →
            samples.flatMap (fun s ↦ Csv.writerow s.record) <:+
              ((World.init file).run evs).1.file.getD [])) ∧
      ((∀ e ∈ evs, e ≠ .request true) → ((World.init file).run evs).2 = [] ∧
        ((World.init file).run evs).1.node.pointCount = 0)) ∧
    (WellFormed file →
      (Ended file ↔ ∀ evs, WellFormed ((World.init file).run evs).1.file)) := by
  refine ⟨fun evs ↦ ⟨?_, ?_, ?_⟩, ?_⟩
  · intro time result h
    exact World.step_tick_idle h time
  · intro before session hevs hsession
    generalize hw : ((World.init file).run before).1 = w
    have hrun : (World.init file).run evs =
        (((w.step (.request true)).1.run session).1,
          ((World.init file).run before).2 ++ ((w.step (.request true)).1.run session).2) := by
      rw [hevs, World.run_append, World.run_cons, hw]
      rfl
    obtain ⟨hzone, hcount, hlabel⟩ :=
      World.run_session (w := (w.step (.request true)).1) hsession
    have hstart : (w.step (.request true)).1.node.currentZone = w.zoneName := rfl
    have hzero : (w.step (.request true)).1.node.pointCount = 0 := rfl
    rw [hstart] at hzone hlabel
    rw [hzero, Nat.zero_add] at hcount
    rw [hrun]
    refine ⟨_, rfl, hlabel, hcount.symm, ?_, ?_⟩
    · intro zoneName
      rw [← hcount, ← hzone]
      rfl
    · intro hfile
      exact World.run_file _ hfile
  · intro hevs
    have hnone := World.run_stopped (w := World.init file) rfl hevs
    obtain ⟨-, hcount, -⟩ := World.run_session (w := World.init file) hevs
    refine ⟨hnone, ?_⟩
    rw [hcount, hnone]
    rfl
  · intro hfile
    constructor
    · intro hended evs
      exact (Machine.emit_invariant (P := fun (w : World) ↦ WellFormed w.file ∧ Ended w.file)
        ⟨hfile, hended⟩ (fun _ e h ↦ World.wellFormed_step e h) evs).1
    · intro h
      by_contra hended
      exact not_wellFormed_appendRow hfile hended _ (h [.request true, .tick 0 (some [])])

/-- The header without a line break: the first row logged makes it a record of nineteen
fields. -/
theorem unended_header_joined :
    WellFormed (some ([.comma].intercalate (Csv.written header))) ∧
      (((World.init (some ([.comma].intercalate (Csv.written header)))).run
        [.request true, .tick 0 (some [])]).1.file.map fun text ↦
          (Csv.reader text).map List.length) = some [19] ∧
      ¬ WellFormed ((World.init (some ([.comma].intercalate (Csv.written header)))).run
        [.request true, .tick 0 (some [])]).1.file := by
  have hopen : WellFormed (some ([.comma].intercalate (Csv.written header))) :=
    .inr ⟨[], by decide +kernel, by simp⟩
  refine ⟨hopen, by decide +kernel, ?_⟩
  apply not_wellFormed_appendRow hopen
  intro hended
  rcases hended with hnil | ⟨front, hfront⟩
  · cases hnil
  · have hlast := congrArg List.getLast? hfront
    rw [List.getLast?_concat] at hlast
    revert hlast
    decide +kernel

end MonitoringRobot.Rssi
