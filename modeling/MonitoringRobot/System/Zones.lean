import MonitoringRobot.Base.Machine
import MonitoringRobot.Base.Rounding
import MonitoringRobot.Base.Topic
import MonitoringRobot.Rssi.Features

/-!
# From a scan to the displayed zone

`RSSIPublisher` publishes raw and filtered levels, `ZonePredictor` a zone for each of them, and
`ZoneVisualizerLite` keeps the zones it shows (`edge_packages/src/rssi/rssi/rssi_logger.py:52-64`,
`fog_packages/src/rssi/rssi/zone_predictor.py:21-46`,
`fog_packages/src/rssi/rssi/visualize_prediction.py:12-55`). Callbacks of the three nodes and the
messages between them can come in any order. The classifier is a function of its sample; one model
is loaded for both predictions.
-/

namespace MonitoringRobot.System
open MonitoringRobot.Base MonitoringRobot.Base.Machine MonitoringRobot.Rssi

/-- The characters `str.strip` removes. -/
def isSpace (c : Char) : Bool :=
  let n := c.toNat
  (9 ≤ n && n ≤ 13) || (28 ≤ n && n ≤ 32) || n == 0x85 || n == 0xa0 || n == 0x1680 ||
    (0x2000 ≤ n && n ≤ 0x200a) || n == 0x2028 || n == 0x2029 || n == 0x202f || n == 0x205f ||
    n == 0x3000

/-- `strip()`. -/
def strip (t : Text) : Text := ((t.dropWhile isSpace).reverse.dropWhile isSpace).reverse

/-- The zone shown before the first prediction. -/
def noZone : Text := "None".toList

/-! ### One channel -/

/-- The topics of one channel, and the zone the visualizer keeps for it. Predictions are published
with a history of one message. -/
structure Line where
  samples : Topic (PerAp ℚ) 10 10
  predictions : Topic Text 1 10
  zone : Text

/-- What can happen to a channel between two scans. -/
inductive LineEvent where
  | sampleArrives
  | predict
  | predictionArrives
  | display
deriving DecidableEq, Repr

namespace Line

def init : Line := { samples := .init, predictions := .init, zone := noZone }

/-- `raw_callback` or `filt_callback` with the oldest sample that arrived, if any. -/
def predictCallback (predictZone : PerAp ℚ → Text) (l : Line) : Line :=
  match l.samples.take? with
  | none => l
  | some (sample, rest) =>
    { l with samples := rest, predictions := l.predictions.publish (predictZone sample) }

/-- `raw_zone_callback` or `filtered_zone_callback` with the oldest prediction that arrived, if
any. -/
def zoneCallback (l : Line) : Line × List Text :=
  match l.predictions.take? with
  | none => (l, [])
  | some (msg, rest) => ({ l with predictions := rest, zone := strip msg }, [strip msg])

/-- One event; the zones that are kept are put out. -/
def step (predictZone : PerAp ℚ → Text) (l : Line) : LineEvent → Line × List Text
  | .sampleArrives => ({ l with samples := l.samples.transport }, [])
  | .predict => (l.predictCallback predictZone, [])
  | .predictionArrives => ({ l with predictions := l.predictions.transport }, [])
  | .display => l.zoneCallback

/-- A sample is published. -/
def publish (l : Line) (sample : PerAp ℚ) : Line :=
  { l with samples := l.samples.publish sample }

/-- No message is on its way. -/
def Idle (l : Line) : Prop := l.samples.Idle ∧ l.predictions.Idle

/-- The zone shown for a sample. -/
def zoneOf (predictZone : PerAp ℚ → Text) (sample : PerAp ℚ) : Text := strip (predictZone sample)

/-- The histories of the two topics, one after the other. -/
structure Followed (predictZone : PerAp ℚ → Text) (published : List (PerAp ℚ)) (shown : List Text)
    (l : Line) : Prop where
  topics : ∃ taken messages, l.samples.Carries published taken ∧
    l.predictions.Carries (taken.map predictZone) messages ∧ shown = messages.map strip
  zone : l.zone = shown.getLast?.getD noZone

namespace Followed

variable {predictZone : PerAp ℚ → Text} {published : List (PerAp ℚ)} {shown : List Text} {l : Line}

theorem init (predictZone : PerAp ℚ → Text) : Followed predictZone [] [] Line.init where
  topics := ⟨[], [], .init, .init, rfl⟩
  zone := rfl

theorem publish (h : Followed predictZone published shown l) (sample : PerAp ℚ) :
    Followed predictZone (published ++ [sample]) shown (l.publish sample) where
  topics := by
    obtain ⟨taken, messages, hsamples, hpredictions, hshown⟩ := h.topics
    exact ⟨taken, messages, hsamples.publish (by decide) sample, hpredictions, hshown⟩
  zone := h.zone

theorem predictCallback (h : Followed predictZone published shown l) :
    Followed predictZone published shown (l.predictCallback predictZone) := by
  obtain ⟨taken, messages, hsamples, hpredictions, hshown⟩ := h.topics
  unfold Line.predictCallback
  split
  · exact h
  · next sample rest htake =>
    have hpublished := hpredictions.publish (by decide) (predictZone sample)
    rw [← List.map_singleton, ← List.map_append] at hpublished
    exact ⟨⟨taken ++ [sample], messages, hsamples.take htake, hpublished, hshown⟩, h.zone⟩

theorem zoneCallback (h : Followed predictZone published shown l) :
    Followed predictZone published (shown ++ l.zoneCallback.2) l.zoneCallback.1 := by
  obtain ⟨taken, messages, hsamples, hpredictions, hshown⟩ := h.topics
  unfold Line.zoneCallback
  split
  · rw [List.append_nil]
    exact h
  · next msg rest htake =>
    constructor
    · refine ⟨taken, messages ++ [msg], hsamples, hpredictions.take htake, ?_⟩
      rw [List.map_append, ← hshown, List.map_singleton]
    · rw [List.getLast?_concat]
      rfl

theorem step (h : Followed predictZone published shown l) (e : LineEvent) :
    Followed predictZone published (shown ++ (l.step predictZone e).2)
      (l.step predictZone e).1 := by
  obtain ⟨taken, messages, hsamples, hpredictions, hshown⟩ := h.topics
  cases e with
  | sampleArrives =>
    simp only [Line.step, List.append_nil]
    exact ⟨⟨taken, messages, hsamples.transport (by decide), hpredictions, hshown⟩, h.zone⟩
  | predict =>
    simp only [Line.step, List.append_nil]
    exact h.predictCallback
  | predictionArrives =>
    simp only [Line.step, List.append_nil]
    exact ⟨⟨taken, messages, hsamples, hpredictions.transport (by decide), hshown⟩, h.zone⟩
  | display => exact h.zoneCallback

/-- The zones that were shown are those of published samples, in the order of publishing. -/
theorem sublist (h : Followed predictZone published shown l) :
    shown.Sublist (published.map (zoneOf predictZone)) := by
  obtain ⟨taken, messages, hsamples, hpredictions, rfl⟩ := h.topics
  have htaken : taken.Sublist published := (List.sublist_append_left _ _).trans hsamples.inOrder
  have hmessages : messages.Sublist (taken.map predictZone) :=
    (List.sublist_append_left _ _).trans hpredictions.inOrder
  have hall := (hmessages.trans (htaken.map predictZone)).map strip
  rwa [List.map_map] at hall

/-- When no message is on its way the zone of the newest sample is shown. -/
theorem zone_of_idle (h : Followed predictZone published shown l) (hidle : l.Idle) :
    l.zone = ((published.getLast?).map (zoneOf predictZone)).getD noZone := by
  obtain ⟨taken, messages, hsamples, hpredictions, hshown⟩ := h.topics
  have htaken := hsamples.newest
  rw [show l.samples.pending = [] from hidle.1, List.append_nil] at htaken
  have hmessages := hpredictions.newest
  rw [show l.predictions.pending = [] from hidle.2, List.append_nil, List.getLast?_map] at hmessages
  rw [h.zone, hshown, List.getLast?_map, hmessages, htaken, Option.map_map]
  rfl

end Followed

/-! ### Draining a channel -/

variable (predictZone : PerAp ℚ → Text)

/-- The steps the messages of a channel still have to take; a sample becomes a prediction. -/
def work (l : Line) : Nat := 3 * l.samples.backlog + l.predictions.backlog

theorem work_le (l : Line) : l.work ≤ 102 := by
  have hsamples := l.samples.backlog_le
  have hpredictions := l.predictions.backlog_le
  unfold work
  omega

/-- How many messages an event can take. -/
def waiting (l : Line) : LineEvent → Nat
  | .sampleArrives => l.samples.outgoing.entries.length
  | .predict => l.samples.incoming.entries.length
  | .predictionArrives => l.predictions.outgoing.entries.length
  | .display => l.predictions.incoming.entries.length

theorem idle_iff {l : Line} : l.Idle ↔ ∀ e, l.waiting e = 0 := by
  rw [Idle, Topic.idle_iff, Topic.idle_iff]
  constructor
  · rintro ⟨⟨hin, hout⟩, hin', hout'⟩ e
    cases e <;> simpa [waiting]
  · intro h
    exact ⟨⟨List.length_eq_zero_iff.mp (h .predict), List.length_eq_zero_iff.mp (h .sampleArrives)⟩,
      List.length_eq_zero_iff.mp (h .display), List.length_eq_zero_iff.mp (h .predictionArrives)⟩

theorem work_of_idle {l : Line} (h : ∀ e, l.waiting e = 0) : l.work = 0 := by
  have harrived : l.samples.incoming.entries.length = 0 := h .predict
  have hsent : l.samples.outgoing.entries.length = 0 := h .sampleArrives
  have harrived' : l.predictions.incoming.entries.length = 0 := h .display
  have hsent' : l.predictions.outgoing.entries.length = 0 := h .predictionArrives
  simp only [work, Topic.backlog]
  omega

theorem step_of_waiting_eq_zero {l : Line} {e : LineEvent} (h : l.waiting e = 0) :
    l.step predictZone e = (l, []) := by
  cases e <;> have hnil := List.length_eq_zero_iff.mp h
  · simp only [step, Topic.transport_of_nil hnil]
  · simp only [step, predictCallback, Topic.take?_eq_none_iff.mpr hnil]
  · simp only [step, Topic.transport_of_nil hnil]
  · simp only [step, zoneCallback, Topic.take?_eq_none_iff.mpr hnil]

theorem work_step_lt {l : Line} {e : LineEvent} (h : l.waiting e ≠ 0) :
    (l.step predictZone e).1.work < l.work := by
  cases e <;> have hne := List.length_eq_zero_iff.not.mp h
  case sampleArrives =>
    have hlt := Topic.backlog_transport_lt hne
    simp only [step, work]
    omega
  case predict =>
    simp only [step, predictCallback]
    split
    · next hnone => exact absurd (Topic.take?_eq_none_iff.mp hnone) hne
    · next sample rest htake =>
      have hsamples := Topic.backlog_of_take? htake
      have hpredictions := l.predictions.backlog_publish_le (predictZone sample)
      simp only [work]
      omega
  case predictionArrives =>
    have hlt := Topic.backlog_transport_lt hne
    simp only [step, work]
    omega
  case display =>
    simp only [step, zoneCallback]
    split
    · next hnone => exact absurd (Topic.take?_eq_none_iff.mp hnone) hne
    · next msg rest htake =>
      have hpredictions := Topic.backlog_of_take? htake
      simp only [work]
      omega

theorem work_step_le (l : Line) (e : LineEvent) : (l.step predictZone e).1.work ≤ l.work := by
  by_cases h : l.waiting e = 0
  · rw [step_of_waiting_eq_zero predictZone h]
  · exact (work_step_lt predictZone h).le

theorem work_emit_le (l : Line) (es : List LineEvent) :
    (emit (step predictZone) l es).1.work ≤ l.work := by
  have hstep : ∀ (t : Line) (e : LineEvent), t.work ≤ l.work →
      (step predictZone t e).1.work ≤ l.work := fun t e ht ↦ (work_step_le predictZone t e).trans ht
  exact emit_invariant (P := fun t : Line ↦ t.work ≤ l.work) le_rfl hstep es

theorem work_emit_lt {l : Line} {es : List LineEvent} {e : LineEvent} (he : e ∈ es)
    (h : l.waiting e ≠ 0) : (emit (step predictZone) l es).1.work < l.work := by
  induction es generalizing l with
  | nil => exact absurd he List.not_mem_nil
  | cons e' es ih =>
    rw [emit_cons]
    by_cases hfirst : l.waiting e' = 0
    · rw [step_of_waiting_eq_zero predictZone hfirst]
      have hne : e ≠ e' := fun heq ↦ h (heq ▸ hfirst)
      exact ih (List.mem_of_ne_of_mem hne he) h
    · exact (work_emit_le predictZone _ es).trans_lt (work_step_lt predictZone hfirst)

/-- After as many rounds of all events as there is work, no message is on its way. -/
theorem idle_of_rounds {l : Line} {rounds : List (List LineEvent)}
    (hall : ∀ round ∈ rounds, ∀ e, e ∈ round) (h : l.work ≤ rounds.length) :
    (emit (step predictZone) l rounds.flatten).1.Idle := by
  induction rounds generalizing l with
  | nil =>
    change l.Idle
    rw [idle_iff]
    intro e
    by_contra hne
    have hlt := work_step_lt predictZone hne
    rw [List.length_nil] at h
    omega
  | cons round rounds ih =>
    rw [List.flatten_cons, emit_append]
    have hrest : ∀ round ∈ rounds, ∀ e, e ∈ round :=
      fun round' hmem ↦ hall round' (List.mem_cons_of_mem round hmem)
    apply ih hrest
    rw [List.length_cons] at h
    by_cases hidle : ∀ e, l.waiting e = 0
    · have hle := work_emit_le predictZone l round
      rw [work_of_idle hidle] at hle
      omega
    · obtain ⟨e, he⟩ := not_forall.mp hidle
      have hlt := work_emit_lt predictZone (hall round (List.mem_cons_self ..) e) he
      omega

end Line

/-! ### Both channels -/

/-- The two channels of the visualizer. -/
inductive Channel where
  | raw
  | filtered
deriving DecidableEq, Repr

/-- `data` of the message published for a channel, a list of `float`s. -/
def message (features : Features) : Channel → PerAp ℚ
  | .raw => fun i ↦ f32 (features.raw i)
  | .filtered => fun i ↦ f32 (features.filtered i)

/-- The publisher and the two channels. -/
structure ZoneSystem where
  publisher : RSSIPublisher
  line : Channel → Line

/-- A timer call of the publisher with the outcome of its scan, or an event of a channel. -/
inductive ZoneEvent where
  | publishRssi (result : Option Text)
  | line (c : Channel) (e : LineEvent)

namespace ZoneSystem

def init : ZoneSystem := { publisher := .init, line := fun _ ↦ .init }

/-- The features of a scan are published on both channels. -/
def publish (s : ZoneSystem) : RSSIPublisher × Option Features → ZoneSystem
  | (publisher, none) => { s with publisher }
  | (publisher, some features) =>
    { publisher, line := fun c ↦ (s.line c).publish (message features c) }

/-- One event; the zones that are kept are put out with their channel. -/
def step (predictZone : PerAp ℚ → Text) (s : ZoneSystem) :
    ZoneEvent → ZoneSystem × List (Channel × Text)
  | .publishRssi result => (s.publish (s.publisher.publishRssi result), [])
  | .line c e =>
    ({ s with line := Function.update s.line c ((s.line c).step predictZone e).1 },
      ((s.line c).step predictZone e).2.map (c, ·))

/-- The samples a step publishes. -/
def sampled (c : Channel) (s : ZoneSystem) : ZoneEvent → List (PerAp ℚ)
  | .publishRssi result =>
    ((s.publisher.publishRssi result).2.map (message · c)).toList
  | .line _ _ => []

/-- The scans of a run. -/
def scans (es : List ZoneEvent) : List (Option Text) :=
  es.filterMap fun
    | .publishRssi result => some result
    | .line _ _ => none

/-- The samples the publisher sends on a channel, scan after scan. -/
def published (es : List ZoneEvent) (c : Channel) : List (PerAp ℚ) :=
  ((RSSIPublisher.init.features (scans es)).filterMap id).map (message · c)

/-- The system after a run. -/
def after (predictZone : PerAp ℚ → Text) (es : List ZoneEvent) : ZoneSystem :=
  (emit (step predictZone) init es).1

/-- The zones put out for a channel. -/
def shownOf (c : Channel) (out : List (Channel × Text)) : List Text :=
  (out.filter (·.1 = c)).map (·.2)

/-- The zones shown on a channel during a run. -/
def shown (predictZone : PerAp ℚ → Text) (es : List ZoneEvent) (c : Channel) : List Text :=
  shownOf c (emit (step predictZone) init es).2

variable {predictZone : PerAp ℚ → Text}

theorem observe_sampled (c : Channel) (s : ZoneSystem) (es : List ZoneEvent) :
    observe (step predictZone) (sampled c) s es =
      ((s.publisher.features (scans es)).filterMap id).map (message · c) := by
  induction es generalizing s with
  | nil => rfl
  | cons e es ih =>
    rw [observe, ih]
    cases e with
    | publishRssi result =>
      simp only [sampled, step, scans, List.filterMap_cons, RSSIPublisher.features]
      cases hresult : s.publisher.publishRssi result with
      | mk publisher features =>
        cases features <;> rfl
    | line c' e => rfl

theorem shownOf_append (c : Channel) (out out' : List (Channel × Text)) :
    shownOf c (out ++ out') = shownOf c out ++ shownOf c out' := by
  simp [shownOf]

theorem shownOf_self (c : Channel) (zones : List Text) : shownOf c (zones.map (c, ·)) = zones := by
  simp [shownOf, List.filter_map, Function.comp_def]

theorem shownOf_of_ne {c c' : Channel} (h : c' ≠ c) (zones : List Text) :
    shownOf c (zones.map (c', ·)) = [] := by
  simp [shownOf, List.filter_map, Function.comp_def, h]

theorem followed_step {c : Channel} {s : ZoneSystem} {samples : List (PerAp ℚ)}
    {out : List (Channel × Text)}
    (h : Line.Followed predictZone samples (shownOf c out) (s.line c)) (e : ZoneEvent) :
    Line.Followed predictZone (samples ++ sampled c s e)
      (shownOf c (out ++ (step predictZone s e).2)) ((step predictZone s e).1.line c) := by
  cases e with
  | publishRssi result =>
    simp only [step, sampled, List.append_nil]
    cases s.publisher.publishRssi result with
    | mk publisher features =>
      cases features with
      | none =>
        simp only [Option.map_none, Option.toList_none, List.append_nil]
        exact h
      | some features => exact h.publish (message features c)
  | line c' e =>
    simp only [step, sampled, List.append_nil, shownOf_append]
    by_cases heq : c' = c
    · subst heq
      rw [shownOf_self, Function.update_self]
      exact h.step e
    · rw [shownOf_of_ne heq, List.append_nil, Function.update_of_ne (Ne.symm heq)]
      exact h

theorem followed (predictZone : PerAp ℚ → Text) (es : List ZoneEvent) (c : Channel) :
    Line.Followed predictZone (published es c) (shown predictZone es c)
      ((after predictZone es).line c) := by
  have hstart : Line.Followed predictZone [] (shownOf c []) (init.line c) := .init predictZone
  have hrun : Line.Followed predictZone (observe (step predictZone) (sampled c) init es)
      (shown predictZone es c) ((after predictZone es).line c) :=
    emit_observe_history
      (P := fun (s : ZoneSystem) samples out ↦
        Line.Followed predictZone samples (shownOf c out) (s.line c))
      hstart fun t samples out e _ h ↦ followed_step h e
  rw [observe_sampled] at hrun
  exact hrun

/-- In every order of callbacks and messages, and whatever the classifier says: the zones shown on a
channel are those of samples published on it, each at most once and never one after a later one;
what is displayed is the last of them, and once no message is on its way it is the zone of the
newest sample. -/
theorem zones_in_order (predictZone : PerAp ℚ → Text) (es : List ZoneEvent) (c : Channel) :
    (shown predictZone es c).Sublist ((published es c).map (Line.zoneOf predictZone)) ∧
    ((after predictZone es).line c).zone = (shown predictZone es c).getLast?.getD noZone ∧
    (((after predictZone es).line c).Idle →
      ((after predictZone es).line c).zone =
        ((published es c).getLast?.map (Line.zoneOf predictZone)).getD noZone) := by
  have h := followed predictZone es c
  exact ⟨h.sublist, h.zone, h.zone_of_idle⟩

/-- The events of one channel. -/
def ofChannel (c : Channel) : ZoneEvent → Option LineEvent
  | .publishRssi _ => none
  | .line c' e => if c' = c then some e else none

theorem scans_append (es es' : List ZoneEvent) : scans (es ++ es') = scans es ++ scans es' :=
  List.filterMap_append

/-- Between two scans a channel sees its own events only. -/
theorem line_emit (predictZone : PerAp ℚ → Text) (c : Channel) (s : ZoneSystem)
    {es : List ZoneEvent} (h : scans es = []) :
    (emit (step predictZone) s es).1.line c =
      (emit (Line.step predictZone) (s.line c) (es.filterMap (ofChannel c))).1 := by
  induction es generalizing s with
  | nil => rfl
  | cons e es ih =>
    cases e with
    | publishRssi result => cases h
    | line c' e =>
      rw [emit_cons, ih _ h]
      by_cases heq : c' = c
      · subst heq
        have hevent : ofChannel c' (.line c' e) = some e := if_pos rfl
        rw [List.filterMap_cons_some hevent, emit_cons]
        simp only [step, Function.update_self]
      · have hevent : ofChannel c (.line c' e) = none := if_neg heq
        rw [List.filterMap_cons_none hevent]
        simp only [step, Function.update_of_ne (Ne.symm heq)]

/-- Once the publisher stops, the zone of the newest sample is shown on both channels, however it
was before: after as many rounds as messages fit into the queues, whatever the order in a round and
whatever else happens in it. -/
theorem zones_settle (predictZone : PerAp ℚ → Text) (es : List ZoneEvent)
    {rounds : List (List ZoneEvent)} (hquiet : ∀ round ∈ rounds, scans round = [])
    (hall : ∀ round ∈ rounds, ∀ c e, ZoneEvent.line c e ∈ round) (hlong : 102 ≤ rounds.length)
    (c : Channel) :
    ((after predictZone (es ++ rounds.flatten)).line c).zone =
      ((published es c).getLast?.map (Line.zoneOf predictZone)).getD noZone := by
  have hscans : scans rounds.flatten = [] := by
    apply List.filterMap_eq_nil_iff.mpr
    intro e he
    obtain ⟨round, hround, hmem⟩ := List.mem_flatten.mp he
    exact List.filterMap_eq_nil_iff.mp (hquiet round hround) e hmem
  have hpublished : published (es ++ rounds.flatten) c = published es c := by
    rw [published, scans_append, hscans, List.append_nil]
    rfl
  have hidle : ((after predictZone (es ++ rounds.flatten)).line c).Idle := by
    rw [after, emit_append, line_emit predictZone c _ hscans, List.filterMap_flatten]
    apply Line.idle_of_rounds
    · intro round hround e
      obtain ⟨events, hevents, rfl⟩ := List.mem_map.mp hround
      exact List.mem_filterMap.mpr ⟨.line c e, hall events hevents c e, if_pos rfl⟩
    · rw [List.length_map]
      exact (Line.work_le _).trans hlong
  rw [(followed predictZone (es ++ rounds.flatten) c).zone_of_idle hidle, hpublished]

/-- A classifier that tells whether nothing is heard. -/
def byAllLevels (sample : PerAp ℚ) : Text :=
  if ∀ i, sample i < -199 / 2 then "zone3\n".toList else "zone0\n".toList

/-- Every event of every channel. -/
def allEvents : List ZoneEvent :=
  [Channel.raw, Channel.filtered].flatMap fun c ↦
    [LineEvent.display, .predictionArrives, .predict, .sampleArrives].map (ZoneEvent.line c)

/-- A scan that hears nothing. -/
theorem zones_settle_silent :
    ((after byAllLevels ([.publishRssi (some [])] ++
      (List.replicate 102 allEvents).flatten)).line .filtered).zone = "zone0".toList ∧
    ((after byAllLevels ([.publishRssi (some [])] ++
      (List.replicate 102 allEvents).flatten)).line .raw).zone = "zone3".toList := by
  have hquiet : ∀ round ∈ List.replicate 102 allEvents, scans round = [] := by
    intro round hround
    rw [List.eq_of_mem_replicate hround]
    rfl
  have hall : ∀ round ∈ List.replicate 102 allEvents, ∀ c e, ZoneEvent.line c e ∈ round := by
    intro round hround c e
    rw [List.eq_of_mem_replicate hround]
    cases c <;> cases e <;> simp [allEvents]
  have hlong : 102 ≤ (List.replicate 102 allEvents).length := by rw [List.length_replicate]
  exact ⟨(zones_settle byAllLevels _ hquiet hall hlong .filtered).trans (by decide +kernel),
    (zones_settle byAllLevels _ hquiet hall hlong .raw).trans (by decide +kernel)⟩

end ZoneSystem

end MonitoringRobot.System
