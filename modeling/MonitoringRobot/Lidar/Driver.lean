import MonitoringRobot.Lidar.Codec
import MonitoringRobot.Lidar.Scans
import MonitoringRobot.Lidar.Unpacker

/-!
# From the wire to the application

`SlamtecLidarDriver` (`edge_packages/src/rplidar_ros/sdk/src/sl_lidar_driver.cpp`) decodes
messages, unpacks their samples and keeps the scans: `onProtocolMessageDecoded` (`:1655-1669`)
feeds the unpacker, `onHQNodeDecoded` and `onHQNodeScanResetReq` (`:1645-1653`) feed the scan
holder. A scan is started by disabling the unpacker and leaving loop mode (`:1459-1463`),
resetting the scans and enabling the unpacker (`:655-656`). Every call and every received byte
is one step. The time a node gets is a parameter: it depends on the time of arrival and on the
place of the node among those published at once.
-/

namespace MonitoringRobot.Lidar
open MonitoringRobot.Base MonitoringRobot.Base.Machine

/-- What the threads do. -/
inductive DriverEvent where
  | received (now : Nat) (byte : UInt8)
  | exitLoopMode
  | enable
  | disable
  | holder (event : HolderEvent)
deriving DecidableEq, Repr

/-- What passes from the decoder to the unpacker. -/
inductive UnpackerInput where
  | message (now : Nat) (message : ProtocolMessage)
  | enable
  | disable
  | holder (event : HolderEvent)
deriving DecidableEq, Repr

/-- The part of a step that concerns the decoder. -/
def decodeStage (c : RPLidarProtocolCodec) :
    DriverEvent → RPLidarProtocolCodec × List UnpackerInput
  | .received now byte => ((c.onDecodeByte byte).1, (c.onDecodeByte byte).2.map (.message now))
  | .exitLoopMode => (c.onDecodeReset, [])
  | .enable => (c, [.enable])
  | .disable => (c, [.disable])
  | .holder event => (c, [.holder event])

/-- What the listener does with the published nodes and requests. -/
def holderEvents (nodeTime : Nat → Nat → Nat) (now : Nat) (out : List Decoded) :
    List HolderEvent :=
  out.zipIdx.filterMap fun
    | (.hqNode n, pos) => some (.push (nodeTime now pos) n)
    | (.newScanReset, _) => some .rewind
    | (.decodingError .., _) => none

/-- The part of a step that concerns the unpacker. -/
def unpackStage (timing : TimingDesc) (nodeTime : Nat → Nat → Nat) (u : DataUnpacker) :
    UnpackerInput → DataUnpacker × List HolderEvent
  | .message now m =>
    ((u.onSampleData timing m.cmd m.data).1,
      holderEvents nodeTime now (u.onSampleData timing m.cmd m.data).2.2)
  | .enable => (u.enable timing, [])
  | .disable => (u.disable timing, [])
  | .holder event => (u, [event])

/-- The decoder, the unpacker and the scans. -/
abbrev LidarDriver := (RPLidarProtocolCodec × DataUnpacker) × HolderSystem

namespace LidarDriver

/-- The driver as it was created. -/
def init : LidarDriver := ((.init, .init), .init)

/-- One step of any thread. -/
def step (timing : TimingDesc) (nodeTime : Nat → Nat → Nat) :
    LidarDriver → DriverEvent → LidarDriver × List Grab :=
  pipe (pipe decodeStage (unpackStage timing nodeTime)) HolderSystem.step

/-- `startScan`, as far as it concerns these components: four steps with no other one between
them. -/
def startScan : List DriverEvent := [.disable, .exitLoopMode, .holder .reset, .enable]

end LidarDriver

/-! ### While the unpacker is disabled -/

/-- An event of the application for the scans. -/
def DriverEvent.holderEvent : DriverEvent → Option HolderEvent
  | .holder event => some event
  | _ => none

theorem onSampleData_disabled {u : DataUnpacker} (h : u.enabled = false) (timing : TimingDesc)
    (t : UInt8) (buffer : List UInt8) : u.onSampleData timing t buffer = (u, false, []) := by
  have hne : ¬ u.enabled = true := Bool.eq_false_iff.mp h
  rw [DataUnpacker.onSampleData, if_neg hne]

theorem enabled_disable (u : DataUnpacker) (timing : TimingDesc) :
    (u.disable timing).enabled = false := by
  simp only [DataUnpacker.disable, DataUnpacker.reset, DataUnpacker.clearCache]
  split <;> rfl

/-- A disabled unpacker lets the application's events through and nothing else. -/
theorem emit_disabled (timing : TimingDesc) (nodeTime : Nat → Nat → Nat)
    (c : RPLidarProtocolCodec) {u : DataUnpacker} (hu : u.enabled = false)
    {events : List DriverEvent} (hevents : .enable ∉ events) :
    (emit (pipe decodeStage (unpackStage timing nodeTime)) (c, u) events).2 =
      events.filterMap DriverEvent.holderEvent := by
  induction events generalizing c u with
  | nil => rfl
  | cons event events ih =>
    rw [List.mem_cons, not_or] at hevents
    have hrest := fun d {v : DataUnpacker} (hv : v.enabled = false) ↦ ih d hv hevents.2
    rw [emit_cons]
    cases event with
    | received now byte =>
      have hmessages : ∀ messages : List ProtocolMessage,
          emit (unpackStage timing nodeTime) u (messages.map (.message now)) = (u, []) := by
        intro messages
        induction messages with
        | nil => rfl
        | cons m messages ihm =>
          have hstep : unpackStage timing nodeTime u (.message now m) = (u, []) := by
            simp only [unpackStage, onSampleData_disabled hu]
            rfl
          rw [List.map_cons, emit_cons_silent _ hstep, ihm]
      simp only [pipe, decodeStage, hmessages]
      exact hrest _ hu
    | exitLoopMode => exact hrest _ hu
    | enable => exact absurd rfl hevents.1
    | disable => exact hrest _ (enabled_disable u timing)
    | holder event =>
      simp only [pipe, decodeStage, emit_cons, emit_nil, unpackStage, DriverEvent.holderEvent,
        List.filterMap_cons, List.append_nil]
      exact congrArg _ (hrest c hu)

/-- As long as the unpacker is disabled, no received byte changes what the reader gets: the
reader's part of any run is the run without the bytes. -/
theorem stopped_scan_is_silent (timing : TimingDesc) (nodeTime : Nat → Nat → Nat)
    {d : LidarDriver} (hd : d.1.2.enabled = false) {events : List DriverEvent}
    (hevents : .enable ∉ events) :
    (emit (LidarDriver.step timing nodeTime) d events).2 =
      (emit HolderSystem.step d.2 (events.filterMap DriverEvent.holderEvent)).2 := by
  rw [LidarDriver.step, emit_pipe, emit_disabled timing nodeTime d.1.1 hd hevents]

/-- A sample of one quality and distance. -/
def sampleAt (sync : Bool) (angleQ6 : Fin (2 ^ 15)) : Sample where
  sync := sync
  quality := ⟨15, by decide⟩
  angleQ6 := angleQ6
  distanceQ2 := ⟨4000, by decide⟩

/-- What is left of a turn, a turn of two samples, and the first one of the next turn. -/
def someTurns : List Sample × List (List Sample) :=
  ([sampleAt false ⟨20000, by decide⟩],
    [[sampleAt true ⟨0, by decide⟩, sampleAt false ⟨11520, by decide⟩],
      [sampleAt true ⟨64, by decide⟩]])

/-- The samples arrive, and the reader waits and locks. -/
def someTurnsArrive : List DriverEvent :=
  (RPLidarProtocolCodec.scanAnswer.header ++
    (someTurns.1 ++ someTurns.2.flatten).flatMap Sample.bytes).map (.received 7) ++
      [.holder (.wait false), .holder .lock]

/-! ### What every reachable state keeps -/

/-- The unpacker is in a session, and the holder keeps the last turns. -/
def LidarDriver.Reachable (timing : TimingDesc) (d : LidarDriver) : Prop :=
  (∃ s, InSession timing d.1.2 s) ∧ ∃ a, Kept d.2 a

theorem session_unpackStage {timing : TimingDesc} (nodeTime : Nat → Nat → Nat)
    {u : DataUnpacker} (h : ∃ s, InSession timing u s) (input : UnpackerInput) :
    ∃ s, InSession timing (unpackStage timing nodeTime u input).1 s := by
  obtain ⟨s, hs⟩ := h
  cases input with
  | message now m => exact ⟨_, (hs.sampleData m.cmd m.data).1⟩
  | enable => exact ⟨_, hs.step .enable⟩
  | disable => exact ⟨_, hs.step .disable⟩
  | holder event => exact ⟨s, hs⟩

theorem LidarDriver.reachable (timing : TimingDesc) (nodeTime : Nat → Nat → Nat)
    (events : List DriverEvent) :
    (emit (step timing nodeTime) init events).1.Reachable timing := by
  rw [step, init, emit_pipe, emit_pipe]
  constructor
  · exact emit_invariant (P := fun u ↦ ∃ s, InSession timing u s) ⟨_, InSession.init⟩
      (fun _ input h ↦ session_unpackStage nodeTime h input) _
  · exact emit_invariant (P := fun c ↦ ∃ a, Kept c a) ⟨_, Kept.init⟩
      (fun _ event ⟨_, ha⟩ ↦ ⟨_, (ha.step event).1⟩) _

/-! ### A standard scan -/

/-- The bytes that arrive. -/
def bytesOf (events : List DriverEvent) : List UInt8 :=
  events.filterMap fun
    | .received _ byte => some byte
    | _ => none

/-- The message of an input. -/
def UnpackerInput.content : UnpackerInput → Option ProtocolMessage
  | .message _ m => some m
  | _ => none

/-- The message of a sample. -/
def Sample.message (s : Sample) : ProtocolMessage :=
  { len := 5, cmd := NormalNode.ansType, data := s.bytes }

theorem Sample.length_bytes (s : Sample) : s.bytes.length = 5 := s.frame_bytes.size_eq

theorem emit_samples {c : RPLidarProtocolCodec}
    (hc : c.Receiving 5 NormalNode.ansType true []) (samples : List Sample) :
    (emit RPLidarProtocolCodec.onDecodeByte c (samples.flatMap Sample.bytes)).2 =
      samples.map Sample.message := by
  have hframe : ∀ s ∈ samples, ∀ d, RPLidarProtocolCodec.Receiving 5 NormalNode.ansType true [] d →
      RPLidarProtocolCodec.Receiving 5 NormalNode.ansType true []
        (emit RPLidarProtocolCodec.onDecodeByte d s.bytes).1 ∧
        (emit RPLidarProtocolCodec.onDecodeByte d s.bytes).2 = [s.message] :=
    fun s _ d hd ↦ hd.rest ((Nat.zero_add _).trans s.length_bytes)
  rw [(emit_flatMap hframe hc).2, List.map_eq_flatMap]

/-- The decoder on bytes only: the messages are those of the bytes. -/
theorem emit_decodeStage (c : RPLidarProtocolCodec) {events : List DriverEvent}
    (h : ∀ event ∈ events, ∃ now byte, event = .received now byte) :
    (emit decodeStage c events).2.map UnpackerInput.content =
      (emit RPLidarProtocolCodec.onDecodeByte c (bytesOf events)).2.map some := by
  induction events generalizing c with
  | nil => rfl
  | cons event events ih =>
    obtain ⟨now, byte, rfl⟩ := h event (List.mem_cons_self ..)
    have hrest := ih (c.onDecodeByte byte).1 fun e he ↦ h e (List.mem_cons_of_mem _ he)
    have hbytes : bytesOf (.received now byte :: events) = byte :: bytesOf events := rfl
    rw [hbytes, emit_cons, emit_cons, List.map_append, List.map_append, ← hrest]
    simp only [decodeStage, List.map_map]
    rfl

/-- The unpacker is enabled, and the next sample of a standard scan starts a node. -/
def AtNode (timing : TimingDesc) (u : DataUnpacker) : Prop :=
  ∃ s, InSession timing u s ∧ s.enabled = true ∧
    UnpackerHandler.normalNode.after timing (s.buffersOf NormalNode.ansType) =
      UnpackerHandler.normalNode.fresh

theorem AtNode.message {timing : TimingDesc} {u : DataUnpacker} (h : AtNode timing u)
    (nodeTime : Nat → Nat → Nat) (now : Nat) (s : Sample) :
    AtNode timing (unpackStage timing nodeTime u (.message now s.message)).1 ∧
      (unpackStage timing nodeTime u (.message now s.message)).2 =
        [.push (nodeTime now 0) s.hqNode] := by
  obtain ⟨session, hs, henabled, hafter⟩ := h
  have hdecode : UnpackerHandler.normalNode.onData timing UnpackerHandler.normalNode.fresh
      s.bytes = (UnpackerHandler.normalNode.fresh, [.hqNode s.hqNode]) := by
    have hone := Sample.decode [s]
    rwa [List.flatMap_singleton] at hone
  have hcall := hs.sampleData NormalNode.ansType s.bytes
  have hpublished := hcall.2 .normalNode (by decide) (by decide)
  rw [if_pos henabled, hafter, hdecode] at hpublished
  constructor
  · refine ⟨_, hcall.1, ?_, ?_⟩
    · rw [Session.step, if_pos henabled]
      exact henabled
    · have hbuffers : (session.step (.sampleData NormalNode.ansType s.bytes)).buffersOf
          NormalNode.ansType = session.buffersOf NormalNode.ansType ++ [s.bytes] := by
        rw [Session.step, if_pos henabled, Session.buffersOf, if_pos rfl]
      exact (congrArg _ hbuffers).trans ((UnpackerHandler.after_concat ..).trans
        (by rw [hafter, hdecode]))
  · simp only [unpackStage, Sample.message, hpublished]
    rfl

/-- The node of an event. -/
def HolderEvent.node (event : HolderEvent) : Option HqNode := event.entry.map Prod.snd

/-- The messages of several samples push their nodes and do nothing else. -/
theorem AtNode.messages {timing : TimingDesc} {u : DataUnpacker} (h : AtNode timing u)
    (nodeTime : Nat → Nat → Nat) {samples : List Sample} {inputs : List UnpackerInput}
    (hinputs : inputs.map UnpackerInput.content = samples.map fun s ↦ some s.message) :
    (emit (unpackStage timing nodeTime) u inputs).2.map HolderEvent.node =
      samples.map fun s ↦ some s.hqNode := by
  induction samples generalizing u inputs with
  | nil =>
    rw [List.map_nil, List.map_eq_nil_iff] at hinputs
    subst hinputs
    rfl
  | cons s samples ih =>
    cases inputs with
    | nil => cases hinputs
    | cons input inputs =>
      rw [List.map_cons, List.map_cons, List.cons.injEq] at hinputs
      obtain ⟨now, hinput⟩ : ∃ now, input = .message now s.message := by
        cases input with
        | message now m => exact ⟨now, by rw [Option.some.inj hinputs.1]⟩
        | enable => cases hinputs.1
        | disable => cases hinputs.1
        | holder event => cases hinputs.1
      subst hinput
      obtain ⟨hnext, hout⟩ := h.message nodeTime now s
      rw [emit_cons, hout, List.map_append, ih hnext hinputs.2]
      rfl

/-- An event that changes the turns. -/
def HolderEvent.changesTurns : HolderEvent → Bool
  | .wait _ => false
  | .lock => false
  | _ => true

/-- The reader waits or locks. -/
def DriverEvent.reads : DriverEvent → Bool
  | .holder event => !event.changesTurns
  | _ => false

/-- A byte arrives, or the reader waits or locks. -/
def DriverEvent.Scanning (event : DriverEvent) : Prop :=
  event.reads = true ∨ ∃ now byte, event = .received now byte

/-- What the scan holder is fed with while a standard scan arrives, besides the reader's
events: the nodes of the samples in order. -/
theorem AtNode.scan {timing : TimingDesc} {u : DataUnpacker} (h : AtNode timing u)
    (nodeTime : Nat → Nat → Nat) {c : RPLidarProtocolCodec} (hc : c.Idle) {a : Answer}
    (htype : a.type = NormalNode.ansType) (hloop : a.isLoop = true)
    (hsize : a.payload.length = 5) {samples : List Sample} {events : List DriverEvent}
    (hevents : ∀ event ∈ events, event.Scanning)
    (hbytes : bytesOf events = a.header ++ samples.flatMap Sample.bytes) :
    ((emit (pipe decodeStage (unpackStage timing nodeTime)) (c, u) events).2.filter
      HolderEvent.changesTurns).map HolderEvent.node = samples.map fun s ↦ some s.hqNode := by
  have hstate : ∀ d event, DriverEvent.reads event = true →
      (pipe decodeStage (unpackStage timing nodeTime) d event).1 = d := by
    intro d event hreads
    cases event with
    | holder event => rfl
    | received now byte => cases hreads
    | exitLoopMode => cases hreads
    | enable => cases hreads
    | disable => cases hreads
  have hout : ∀ d event, DriverEvent.reads event = true →
      (pipe decodeStage (unpackStage timing nodeTime) d event).2.filter
        HolderEvent.changesTurns = [] := by
    intro d event hreads
    cases event with
    | holder event =>
      have hkeep : ¬ event.changesTurns = true := by simpa [DriverEvent.reads] using hreads
      exact List.filter_cons_of_neg hkeep
    | received now byte => cases hreads
    | exitLoopMode => cases hreads
    | enable => cases hreads
    | disable => cases hreads
  have hreceived : ∀ event ∈ events.filter fun event ↦ !event.reads,
      ∃ now byte, event = .received now byte := by
    intro event he
    obtain ⟨hmem, hread⟩ := List.mem_filter.mp he
    refine (hevents event hmem).resolve_left ?_
    intro hreads
    rw [hreads] at hread
    cases hread
  have hsame : bytesOf (events.filter fun event ↦ !event.reads) = bytesOf events := by
    clear hevents hbytes hreceived
    induction events with
    | nil => rfl
    | cons event events ih =>
      cases event with
      | received now byte => exact congrArg (List.cons byte) ih
      | exitLoopMode => exact ih
      | enable => exact ih
      | disable => exact ih
      | holder event =>
        rw [List.filter_cons]
        split
        · exact ih
        · exact ih
  have hmessages := emit_decodeStage c hreceived
  have hheader := hc.header a
  rw [htype, hloop, hsize] at hheader
  rw [hsame, hbytes, emit_append, hheader.2, List.nil_append, emit_samples hheader.1,
    List.map_map] at hmessages
  have hnodes := h.messages nodeTime hmessages
  have hall : ∀ event ∈ (emit (unpackStage timing nodeTime) u (emit decodeStage c
      (events.filter fun event ↦ !event.reads)).2).2, event.changesTurns = true := by
    intro event he
    have hnode : event.node ∈ samples.map fun s ↦ some s.hqNode :=
      hnodes ▸ List.mem_map_of_mem he
    obtain ⟨s, -, hs⟩ := List.mem_map.mp hnode
    cases event with
    | push t n => rfl
    | rewind => rfl
    | reset => rfl
    | wait spurious => cases hs
    | lock => cases hs
  rw [(emit_filter hstate hout (c, u) events).2, emit_pipe, List.filter_eq_self.mpr hall, hnodes]

/-! ### What the application gets -/

theorem Sample.isSync_hqNode (s : Sample) : s.hqNode.isSync = s.sync := by
  have hflag : s.hqNode.flag = if s.sync then 1 else 0 := rfl
  rw [HqNode.isSync, hflag]
  cases s.sync <;> rfl

theorem turns_of_entries {samples : List Sample} {entries : List (Nat × HqNode)}
    (h : entries.map Prod.snd = samples.map Sample.hqNode) :
    (entries.foldl (Turns.push fun entry ↦ entry.2.isSync) .empty).map Prod.snd =
      (samples.foldl (Turns.push Sample.sync) .empty).map Sample.hqNode := by
  have hentries : (entries.map Prod.snd).foldl (Turns.push HqNode.isSync) .empty =
      (entries.foldl (Turns.push fun entry ↦ entry.2.isSync) .empty).map Prod.snd :=
    Turns.foldl_push_map (fun _ ↦ rfl) .empty entries
  have hsamples : (samples.map Sample.hqNode).foldl (Turns.push HqNode.isSync) .empty =
      (samples.foldl (Turns.push Sample.sync) .empty).map Sample.hqNode :=
    Turns.foldl_push_map Sample.isSync_hqNode .empty samples
  rw [← hentries, h, hsamples]

theorem entries_of_nodes {samples : List Sample} {events : List HolderEvent}
    (h : (events.filter HolderEvent.changesTurns).map HolderEvent.node =
      samples.map fun s ↦ some s.hqNode) :
    (∀ event ∈ events, event.KeepsTurns) ∧
      (events.filterMap HolderEvent.entry).map Prod.snd = samples.map Sample.hqNode := by
  constructor
  · intro event he
    cases hchanges : event.changesTurns with
    | false =>
      constructor
      · rintro rfl
        cases hchanges
      · rintro rfl
        cases hchanges
    | true =>
      have hmem := List.mem_map_of_mem (f := HolderEvent.node)
        (List.mem_filter.mpr ⟨he, hchanges⟩)
      rw [h] at hmem
      obtain ⟨s, -, hs⟩ := List.mem_map.mp hmem
      constructor
      · rintro rfl
        cases hs
      · rintro rfl
        cases hs
  · have hfilter : events.filterMap HolderEvent.entry =
        (events.filter HolderEvent.changesTurns).filterMap HolderEvent.entry := by
      rw [List.filterMap_filter]
      apply List.filterMap_congr
      intro event _
      cases event <;> rfl
    have hnodes := congrArg (List.filterMap id) h
    rw [List.filterMap_map, List.filterMap_map] at hnodes
    rw [hfilter, List.map_filterMap]
    exact hnodes.trans (List.filterMap_eq_map ▸ rfl)

/-- Of the turns of the device all but the last are closed. -/
theorem turns_of_samples {stray : List Sample} (hstray : ∀ s ∈ stray, s.sync = false)
    {turns : List (List Sample)} (hturns : ∀ turn ∈ turns, Turns.IsTurn Sample.sync turn) :
    ((stray ++ turns.flatten).foldl (Turns.push Sample.sync) .empty).done = turns.dropLast := by
  rw [List.foldl_append, Turns.foldl_push_nothing hstray rfl, Turns.foldl_push_turns hturns]

theorem scanning_someTurnsArrive : ∀ event ∈ someTurnsArrive, event.Scanning := by
  intro event he
  cases List.mem_append.mp he with
  | inl he =>
    obtain ⟨byte, -, rfl⟩ := List.mem_map.mp he
    exact Or.inr ⟨7, byte, rfl⟩
  | inr he =>
    have hread : ∀ e ∈ [DriverEvent.holder (.wait false), .holder .lock], e.reads = true := by
      decide
    exact Or.inl (hread event he)

theorem isTurn_someTurns : ∀ turn ∈ someTurns.2, Turns.IsTurn Sample.sync turn := by
  intro turn hturn
  simp only [someTurns, List.mem_cons, List.not_mem_nil, or_false] at hturn
  rcases hturn with rfl | rfl
  · exact ⟨_, _, rfl, rfl, by decide⟩
  · exact ⟨_, _, rfl, rfl, by decide⟩

end MonitoringRobot.Lidar
