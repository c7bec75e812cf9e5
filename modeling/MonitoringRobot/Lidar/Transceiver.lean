import MonitoringRobot.Lidar.Codec

/-!
# The receiving threads

`AsyncTransceiver` (`edge_packages/src/rplidar_ros/sdk/src/sl_async_transceiver.cpp:193-410`)
reads the channel in one thread and decodes in another. The buffers pass through a queue under
a lock, and an event wakes the decoder thread up. `unbindAndClose` stops both threads, waits
for them and empties the queue; a buffer it still finds there was allocated with `new` and is
deleted with `delete []`, which the program does not survive. What a thread does between two
points where another one can interfere is one step. A wait on the event can return without it
(`edge_packages/src/rplidar_ros/sdk/src/hal/event.h:106-170`).
-/

namespace MonitoringRobot.Lidar
open MonitoringRobot.Base MonitoringRobot.Base.Machine

/-- Where `_proc_rxThread` is: at the loop's condition, in `waitForDataExt` and `read`, or about
to queue what it has read. -/
inductive RxThread where
  | stopped
  | looping
  | receiving
  | received (decodeBuffer : List UInt8)
deriving DecidableEq, Repr

/-- Where `_proc_decoderThread` is. It waits when it has found the queue empty, and it takes
from the queue behind a failed wait without looking again. -/
inductive DecoderThread where
  | stopped
  | starting
  | looping
  | fetching
  | waiting
  | waitFailed
  | decoding (bufferToDecode : List UInt8)
  | asserted
deriving DecidableEq, Repr

/-- Where `unbindAndClose` is: behind the first assignment, or waiting for the threads, or lost
with the program. -/
inductive Unbinding where
  | no
  | setting
  | joining
  | crashed
deriving DecidableEq, Repr

/-- The members and the places of the threads. -/
structure AsyncTransceiver where
  isWorking : Bool
  dataEvt : Bool
  rxQueue : List (List UInt8)
  rxThread : RxThread
  decoderThread : DecoderThread
  unbinding : Unbinding
deriving DecidableEq, Repr

/-- What the channel has: data, nothing in time, or an error. -/
inductive ChannelResult where
  | data (buffer : List UInt8)
  | nothing
  | fail
deriving DecidableEq, Repr

/-- How `Event::wait` returns. -/
inductive WaitResult where
  | signalled
  | spurious
  | timeout
  | failed
deriving DecidableEq, Repr

/-- What the threads do. -/
inductive TransceiverEvent where
  | openChannelAndBind
  | unbindAndClose
  | setDataEvt
  | join
  | rxThread (result : ChannelResult)
  | decoderThread (result : WaitResult)
deriving DecidableEq, Repr

namespace AsyncTransceiver

/-- The constructor. -/
def init : AsyncTransceiver where
  isWorking := false
  dataEvt := false
  rxQueue := []
  rxThread := .stopped
  decoderThread := .stopped
  unbinding := .no

/-- A step of `_proc_rxThread`. Reading no bytes is an error, and an error ends the thread
while the transceiver works. -/
def rxStep (s : AsyncTransceiver) (result : ChannelResult) : AsyncTransceiver :=
  match s.rxThread with
  | .stopped => s
  | .looping => { s with rxThread := if s.isWorking then .receiving else .stopped }
  | .receiving =>
    match result with
    | .data buffer => { s with rxThread := if buffer = [] then .stopped else .received buffer }
    | .nothing => { s with rxThread := .looping }
    | .fail => { s with rxThread := if s.isWorking then .stopped else .looping }
  | .received decodeBuffer =>
    { s with rxQueue := s.rxQueue ++ [decodeBuffer], dataEvt := true, rxThread := .looping }

/-- A step of `_proc_decoderThread`, and its calls of the codec. -/
def decoderStep (s : AsyncTransceiver) (result : WaitResult) :
    AsyncTransceiver × List RPLidarProtocolCodec.Event :=
  match s.decoderThread with
  | .stopped => (s, [])
  | .starting => ({ s with decoderThread := .looping }, [.onDecodeReset])
  | .looping => ({ s with decoderThread := if s.isWorking then .fetching else .stopped }, [])
  | .fetching =>
    match s.rxQueue with
    | [] => ({ s with decoderThread := .waiting }, [])
    | buffer :: rest => ({ s with rxQueue := rest, decoderThread := .decoding buffer }, [])
  | .waiting =>
    match result with
    | .signalled =>
      if s.dataEvt then ({ s with dataEvt := false, decoderThread := .looping }, []) else (s, [])
    | .spurious => ({ s with dataEvt := false, decoderThread := .looping }, [])
    | .timeout => ({ s with decoderThread := .looping }, [])
    | .failed => ({ s with decoderThread := .waitFailed }, [])
  | .waitFailed =>
    match s.rxQueue with
    | [] => ({ s with decoderThread := .asserted }, [])
    | buffer :: rest => ({ s with rxQueue := rest, decoderThread := .decoding buffer }, [])
  | .decoding bufferToDecode =>
    ({ s with decoderThread := .looping }, [.onDecodeData bufferToDecode])
  | .asserted => (s, [])

/-- One step of any thread; a step a thread cannot take changes nothing. The channel is closed
before it is opened again. Behind the joins the queue has to be empty. -/
def step (s : AsyncTransceiver) :
    TransceiverEvent → AsyncTransceiver × List RPLidarProtocolCodec.Event
  | .openChannelAndBind =>
    if s.unbinding = .no ∧ s.isWorking = false then
      ({ s with isWorking := true, dataEvt := false, rxThread := .looping,
                decoderThread := .starting }, [])
    else (s, [])
  | .unbindAndClose =>
    if s.unbinding = .no ∧ s.isWorking = true then
      ({ s with isWorking := false, unbinding := .setting }, [])
    else (s, [])
  | .setDataEvt =>
    if s.unbinding = .setting then ({ s with dataEvt := true, unbinding := .joining }, [])
    else (s, [])
  | .join =>
    if s.unbinding = .joining ∧ s.rxThread = .stopped ∧ s.decoderThread = .stopped then
      ({ s with unbinding := if s.rxQueue = [] then .no else .crashed }, [])
    else (s, [])
  | .rxThread result => (s.rxStep result, [])
  | .decoderThread result => s.decoderStep result

/-! ### What every reachable state keeps -/

/-- Nothing is left of a session that was closed. -/
def Closed (s : AsyncTransceiver) : Prop := s.unbinding = .no ∧ s.isWorking = false

instance (s : AsyncTransceiver) : Decidable s.Closed := inferInstanceAs (Decidable (_ ∧ _))

/-- The event is set whenever the decoder thread would sleep although the queue has buffers, or
although the closing thread waits for it. -/
structure Sound (s : AsyncTransceiver) : Prop where
  closed : s.Closed → s.rxThread = .stopped ∧ s.decoderThread = .stopped ∧ s.rxQueue = []
  unbinding : s.unbinding ≠ .no → s.isWorking = false
  awake : s.decoderThread = .waiting → s.rxQueue ≠ [] → s.dataEvt = true
  joining : s.unbinding = .joining →
    s.dataEvt = true ∨ s.decoderThread = .looping ∨ s.decoderThread = .stopped
  running : s.isWorking = true → s.decoderThread ≠ .stopped
  crashed : s.unbinding = .crashed →
    s.rxThread = .stopped ∧ s.decoderThread = .stopped ∧ s.rxQueue ≠ []

theorem Sound.init : init.Sound where
  closed := fun _ ↦ ⟨rfl, rfl, rfl⟩
  unbinding := fun h ↦ absurd rfl h
  awake := fun h ↦ nomatch h
  joining := fun h ↦ nomatch h
  running := fun h ↦ nomatch h
  crashed := fun h ↦ nomatch h

/-- A thread that runs shows that the transceiver is not closed. -/
theorem Sound.not_closed {s : AsyncTransceiver} (h : s.Sound)
    (hruns : ¬ (s.rxThread = .stopped ∧ s.decoderThread = .stopped)) : ¬ s.Closed := by
  intro hclosed
  obtain ⟨hrx, hdecoder, -⟩ := h.closed hclosed
  exact hruns ⟨hrx, hdecoder⟩

/-- A step of one of the two threads only has to keep the conditions on the event. -/
theorem Sound.moved {s t : AsyncTransceiver} (h : s.Sound)
    (hruns : ¬ (s.rxThread = .stopped ∧ s.decoderThread = .stopped))
    (hworking : t.isWorking = s.isWorking) (hunbinding : t.unbinding = s.unbinding)
    (hawake : t.decoderThread = .waiting → t.rxQueue ≠ [] → t.dataEvt = true)
    (hjoining : s.unbinding = .joining →
      t.dataEvt = true ∨ t.decoderThread = .looping ∨ t.decoderThread = .stopped)
    (hrunning : s.isWorking = true → t.decoderThread ≠ .stopped) : t.Sound := by
  constructor
  · intro hclosed
    rw [Closed, hworking, hunbinding] at hclosed
    exact absurd hclosed (h.not_closed hruns)
  · rw [hworking, hunbinding]
    exact h.unbinding
  · exact hawake
  · rw [hunbinding]
    exact hjoining
  · rw [hworking]
    exact hrunning
  · intro hcrashed
    rw [hunbinding] at hcrashed
    obtain ⟨hrx, hdecoder, -⟩ := h.crashed hcrashed
    exact absurd ⟨hrx, hdecoder⟩ hruns

theorem Sound.rxStep {s : AsyncTransceiver} (h : s.Sound) (result : ChannelResult) :
    (s.rxStep result).Sound := by
  unfold AsyncTransceiver.rxStep
  cases hrx : s.rxThread with
  | stopped => exact h
  | looping => exact h.moved (by simp [hrx]) rfl rfl h.awake h.joining h.running
  | receiving => cases result <;> exact h.moved (by simp [hrx]) rfl rfl h.awake h.joining h.running
  | received decodeBuffer =>
    exact h.moved (by simp [hrx]) rfl rfl (fun _ _ ↦ rfl)
      (fun _ ↦ Or.inl rfl) h.running

/-- A step of the decoder thread. It takes the event only on its way to the loop's condition,
and it goes to sleep only when the queue is empty. -/
theorem Sound.decoderStep {s : AsyncTransceiver} (h : s.Sound) (result : WaitResult) :
    (s.decoderStep result).1.Sound := by
  have hset : s.decoderThread ≠ .looping → s.decoderThread ≠ .stopped →
      s.unbinding = .joining → s.dataEvt = true := by
    intro hlooping hstopped hjoining
    exact (h.joining hjoining).resolve_right fun hor ↦ hor.elim hlooping hstopped
  unfold AsyncTransceiver.decoderStep
  cases hdecoder : s.decoderThread with
  | stopped => exact h
  | asserted => exact h
  | starting =>
    exact h.moved (by simp [hdecoder]) rfl rfl (fun hw ↦ nomatch hw)
      (fun _ ↦ Or.inr (Or.inl rfl)) fun _ hd ↦ nomatch hd
  | looping =>
    refine h.moved (by simp [hdecoder]) rfl rfl ?_ ?_ ?_
    · intro hw
      dsimp only at hw
      split at hw <;> cases hw
    · intro hjoining
      have hidle : ¬ s.isWorking = true := by
        rw [h.unbinding (by simp [hjoining])]
        exact Bool.false_ne_true
      exact Or.inr (Or.inr (if_neg hidle))
    · intro hworking
      dsimp only
      rw [if_pos hworking]
      exact DecoderThread.noConfusion
  | fetching =>
    have hevent := hset (by simp [hdecoder]) (by simp [hdecoder])
    cases hqueue : s.rxQueue with
    | nil =>
      exact h.moved (by simp [hdecoder]) rfl rfl (fun _ hne ↦ absurd rfl hne)
        (fun hjoining ↦ Or.inl (hevent hjoining)) fun _ hd ↦ nomatch hd
    | cons buffer rest =>
      exact h.moved (by simp [hdecoder]) rfl rfl (fun hw ↦ nomatch hw)
        (fun hjoining ↦ Or.inl (hevent hjoining)) fun _ hd ↦ nomatch hd
  | waiting =>
    have hevent := hset (by simp [hdecoder]) (by simp [hdecoder])
    cases result with
    | signalled =>
      dsimp only
      split
      · exact h.moved (by simp [hdecoder]) rfl rfl (fun hw ↦ nomatch hw)
          (fun _ ↦ Or.inr (Or.inl rfl)) fun _ hd ↦ nomatch hd
      · exact h
    | spurious =>
      exact h.moved (by simp [hdecoder]) rfl rfl (fun hw ↦ nomatch hw)
        (fun _ ↦ Or.inr (Or.inl rfl)) fun _ hd ↦ nomatch hd
    | timeout =>
      exact h.moved (by simp [hdecoder]) rfl rfl (fun hw ↦ nomatch hw)
        (fun _ ↦ Or.inr (Or.inl rfl)) fun _ hd ↦ nomatch hd
    | failed =>
      exact h.moved (by simp [hdecoder]) rfl rfl (fun hw ↦ nomatch hw)
        (fun hjoining ↦ Or.inl (hevent hjoining)) fun _ hd ↦ nomatch hd
  | waitFailed =>
    have hevent := hset (by simp [hdecoder]) (by simp [hdecoder])
    cases s.rxQueue with
    | nil =>
      exact h.moved (by simp [hdecoder]) rfl rfl (fun hw ↦ nomatch hw)
        (fun hjoining ↦ Or.inl (hevent hjoining)) fun _ hd ↦ nomatch hd
    | cons buffer rest =>
      exact h.moved (by simp [hdecoder]) rfl rfl (fun hw ↦ nomatch hw)
        (fun hjoining ↦ Or.inl (hevent hjoining)) fun _ hd ↦ nomatch hd
  | decoding bufferToDecode =>
    exact h.moved (by simp [hdecoder]) rfl rfl (fun hw ↦ nomatch hw)
      (fun _ ↦ Or.inr (Or.inl rfl)) fun _ hd ↦ nomatch hd

theorem Sound.step {s : AsyncTransceiver} (h : s.Sound) (event : TransceiverEvent) :
    (s.step event).1.Sound := by
  cases event with
  | rxThread result => exact h.rxStep result
  | decoderThread result => exact h.decoderStep result
  | openChannelAndBind =>
    simp only [AsyncTransceiver.step]
    split
    · next hclosed =>
      refine ⟨(fun hc ↦ nomatch hc.2), fun hu ↦ absurd hclosed.1 hu, (fun hw ↦ nomatch hw), ?_,
        (fun _ hd ↦ nomatch hd), ?_⟩
      · intro hjoining
        cases hclosed.1.symm.trans hjoining
      · intro hcrashed
        cases hclosed.1.symm.trans hcrashed
    · exact h
  | unbindAndClose =>
    simp only [AsyncTransceiver.step]
    split
    · exact ⟨(fun hc ↦ nomatch hc.1), fun _ ↦ rfl, h.awake, (fun hj ↦ nomatch hj),
        (fun hw ↦ nomatch hw), fun hc ↦ nomatch hc⟩
    · exact h
  | setDataEvt =>
    simp only [AsyncTransceiver.step]
    split
    · next hsetting =>
      refine ⟨(fun hc ↦ nomatch hc.1), ?_, fun _ _ ↦ rfl, fun _ ↦ Or.inl rfl, h.running,
        fun hc ↦ nomatch hc⟩
      exact fun _ ↦ h.unbinding (by rw [hsetting]; exact Unbinding.noConfusion)
    · exact h
  | join =>
    simp only [AsyncTransceiver.step]
    split
    · next hstopped =>
      have hidle := h.unbinding (by rw [hstopped.1]; exact Unbinding.noConfusion)
      by_cases hqueue : s.rxQueue = []
      · rw [if_pos hqueue]
        exact ⟨fun _ ↦ ⟨hstopped.2.1, hstopped.2.2, hqueue⟩, fun _ ↦ hidle,
          fun _ hne ↦ absurd hqueue hne, (fun hj ↦ nomatch hj), h.running, fun hc ↦ nomatch hc⟩
      · rw [if_neg hqueue]
        exact ⟨(fun hc ↦ nomatch hc.1), fun _ ↦ hidle, h.awake, (fun hj ↦ nomatch hj),
          h.running, fun _ ↦ ⟨hstopped.2.1, hstopped.2.2, hqueue⟩⟩
    · exact h

theorem sound_run (events : List TransceiverEvent) : (emit step .init events).1.Sound :=
  emit_invariant Sound.init (fun _ event h ↦ h.step event) events

/-! ### What the decoder thread gets -/

end AsyncTransceiver

/-- The buffer the receiving thread has not queued yet. -/
def RxThread.held : RxThread → List (List UInt8)
  | .received decodeBuffer => [decodeBuffer]
  | _ => []

/-- The buffer the decoder thread is about to decode. -/
def DecoderThread.held : DecoderThread → List (List UInt8)
  | .decoding bufferToDecode => [bufferToDecode]
  | _ => []

/-- The calls of the codec once these buffers were decoded. -/
def DecoderThread.calls (d : DecoderThread) (decoded : List (List UInt8)) :
    List RPLidarProtocolCodec.Event :=
  if d = .starting then [] else .onDecodeReset :: decoded.map .onDecodeData

/-- How many steps the thread is away from its next wait, when it finds no buffers. -/
def DecoderThread.work : DecoderThread → Nat
  | .starting => 3
  | .decoding _ => 3
  | .looping => 2
  | .fetching => 1
  | _ => 0

namespace AsyncTransceiver

/-- The buffers that were read and not decoded, oldest first. -/
def inFlight (s : AsyncTransceiver) : List (List UInt8) :=
  s.decoderThread.held ++ (s.rxQueue ++ s.rxThread.held)

/-- The buffer a step reads from the channel. -/
def bufferRead (s : AsyncTransceiver) : TransceiverEvent → List (List UInt8)
  | .rxThread (.data buffer) => if s.rxThread = .receiving ∧ buffer ≠ [] then [buffer] else []
  | _ => []

/-- Since the channel was opened: the codec was reset once, and then given the buffers that were
read, in order and up to those in flight. -/
structure Decoded (s : AsyncTransceiver) (read : List (List UInt8))
    (calls : List RPLidarProtocolCodec.Event) (decoded : List (List UInt8)) : Prop where
  calls : calls = s.decoderThread.calls decoded
  starting : s.decoderThread = .starting → decoded = []
  inFlight : read = decoded ++ s.inFlight

variable {s : AsyncTransceiver} {read decoded : List (List UInt8)}
  {calls : List RPLidarProtocolCodec.Event}

theorem step_of_closed (hclosed : s.Closed) : s.step .openChannelAndBind =
    ({ s with isWorking := true, dataEvt := false, rxThread := .looping,
              decoderThread := .starting }, []) := if_pos hclosed

theorem Decoded.opened (h : s.Sound) (hclosed : s.Closed) :
    Decoded (s.step .openChannelAndBind).1 [] [] [] := by
  have hqueue := (h.closed hclosed).2.2
  rw [step_of_closed hclosed]
  refine ⟨rfl, fun _ ↦ rfl, ?_⟩
  simp [AsyncTransceiver.inFlight, DecoderThread.held, RxThread.held, hqueue]

/-- A step that decodes nothing and reads nothing keeps what is in flight. -/
theorem Decoded.moved {t : AsyncTransceiver} (h : s.Decoded read calls decoded)
    (hdecoder : s.decoderThread = .starting ↔ t.decoderThread = .starting)
    (hflight : t.inFlight = s.inFlight) : t.Decoded read calls decoded where
  calls := by
    rw [h.calls, DecoderThread.calls, DecoderThread.calls]
    simp only [hdecoder]
  starting := fun ht ↦ h.starting (hdecoder.mpr ht)
  inFlight := by rw [hflight, h.inFlight]

theorem Decoded.rxStep (h : s.Decoded read calls decoded) (result : ChannelResult) :
    (s.rxStep result).Decoded (read ++ s.bufferRead (.rxThread result)) calls decoded := by
  unfold AsyncTransceiver.rxStep
  cases hrx : s.rxThread with
  | stopped =>
    have hnone : s.bufferRead (.rxThread result) = [] := by
      cases result <;> simp [bufferRead, hrx]
    rw [hnone, List.append_nil]
    exact h
  | looping =>
    have hnone : s.bufferRead (.rxThread result) = [] := by
      cases result <;> simp [bufferRead, hrx]
    rw [hnone, List.append_nil]
    refine h.moved Iff.rfl ?_
    simp only [AsyncTransceiver.inFlight, hrx]
    split <;> rfl
  | receiving =>
    cases result with
    | nothing =>
      have hnone : s.bufferRead (.rxThread .nothing) = [] := rfl
      rw [hnone, List.append_nil]
      refine h.moved Iff.rfl ?_
      simp only [AsyncTransceiver.inFlight, hrx]
      rfl
    | fail =>
      have hnone : s.bufferRead (.rxThread .fail) = [] := rfl
      rw [hnone, List.append_nil]
      refine h.moved Iff.rfl ?_
      simp only [AsyncTransceiver.inFlight, hrx]
      split <;> rfl
    | data buffer =>
      by_cases hempty : buffer = []
      · have hnone : s.bufferRead (.rxThread (.data buffer)) = [] := by simp [bufferRead, hempty]
        rw [hnone, List.append_nil]
        refine h.moved Iff.rfl ?_
        simp only [AsyncTransceiver.inFlight, hrx, hempty, if_true]
        rfl
      · have hone : s.bufferRead (.rxThread (.data buffer)) = [buffer] :=
          if_pos ⟨hrx, hempty⟩
        rw [hone]
        dsimp only
        rw [if_neg hempty]
        refine ⟨h.calls, h.starting, ?_⟩
        rw [h.inFlight]
        simp [AsyncTransceiver.inFlight, hrx, RxThread.held]
  | received decodeBuffer =>
    have hnone : s.bufferRead (.rxThread result) = [] := by
      cases result <;> simp [bufferRead, hrx]
    rw [hnone, List.append_nil]
    refine h.moved Iff.rfl ?_
    simp [AsyncTransceiver.inFlight, hrx, RxThread.held]

theorem Decoded.decoderStep (h : s.Decoded read calls decoded) (result : WaitResult) : ∃ decoded',
      (s.decoderStep result).1.Decoded read (calls ++ (s.decoderStep result).2) decoded' := by
  unfold AsyncTransceiver.decoderStep
  cases hdecoder : s.decoderThread with
  | stopped => exact ⟨decoded, by rwa [List.append_nil]⟩
  | asserted => exact ⟨decoded, by rwa [List.append_nil]⟩
  | starting =>
    have hnil := h.starting hdecoder
    have hcalls := h.calls
    rw [hdecoder, DecoderThread.calls, if_pos rfl] at hcalls
    subst hnil hcalls
    refine ⟨[], rfl, fun _ ↦ rfl, ?_⟩
    rw [h.inFlight]
    simp [AsyncTransceiver.inFlight, hdecoder, DecoderThread.held]
  | looping =>
    refine ⟨decoded, ?_⟩
    rw [List.append_nil]
    refine h.moved ?_ ?_
    · rw [hdecoder]
      dsimp only
      split <;> simp
    · simp only [AsyncTransceiver.inFlight, hdecoder]
      split <;> rfl
  | fetching =>
    cases hqueue : s.rxQueue with
    | nil =>
      refine ⟨decoded, ?_⟩
      rw [List.append_nil]
      refine h.moved (by simp [hdecoder]) ?_
      simp [AsyncTransceiver.inFlight, hdecoder, hqueue, DecoderThread.held]
    | cons buffer rest =>
      refine ⟨decoded, ?_⟩
      rw [List.append_nil]
      refine h.moved (by simp [hdecoder]) ?_
      simp [AsyncTransceiver.inFlight, hdecoder, hqueue, DecoderThread.held]
  | waiting =>
    refine ⟨decoded, ?_⟩
    cases result with
    | signalled =>
      dsimp only
      split
      · rw [List.append_nil]
        refine h.moved (by simp [hdecoder]) ?_
        simp [AsyncTransceiver.inFlight, hdecoder, DecoderThread.held]
      · rwa [List.append_nil]
    | spurious =>
      rw [List.append_nil]
      refine h.moved (by simp [hdecoder]) ?_
      simp [AsyncTransceiver.inFlight, hdecoder, DecoderThread.held]
    | timeout =>
      rw [List.append_nil]
      refine h.moved (by simp [hdecoder]) ?_
      simp [AsyncTransceiver.inFlight, hdecoder, DecoderThread.held]
    | failed =>
      rw [List.append_nil]
      refine h.moved (by simp [hdecoder]) ?_
      simp [AsyncTransceiver.inFlight, hdecoder, DecoderThread.held]
  | waitFailed =>
    cases hqueue : s.rxQueue with
    | nil =>
      refine ⟨decoded, ?_⟩
      rw [List.append_nil]
      refine h.moved (by simp [hdecoder]) ?_
      simp [AsyncTransceiver.inFlight, hdecoder, hqueue, DecoderThread.held]
    | cons buffer rest =>
      refine ⟨decoded, ?_⟩
      rw [List.append_nil]
      refine h.moved (by simp [hdecoder]) ?_
      simp [AsyncTransceiver.inFlight, hdecoder, hqueue, DecoderThread.held]
  | decoding bufferToDecode =>
    have hflight := h.inFlight
    simp only [AsyncTransceiver.inFlight, hdecoder, DecoderThread.held] at hflight
    refine ⟨decoded ++ [bufferToDecode], ?_, (fun hd ↦ nomatch hd), ?_⟩
    · rw [h.calls, hdecoder]
      simp [DecoderThread.calls]
    · rw [hflight]
      simp [AsyncTransceiver.inFlight, DecoderThread.held]

theorem Decoded.step (h : s.Decoded read calls decoded) {event : TransceiverEvent}
    (hevent : event ≠ .openChannelAndBind) : ∃ decoded', (s.step event).1.Decoded
      (read ++ s.bufferRead event) (calls ++ (s.step event).2) decoded' := by
  cases event with
  | openChannelAndBind => exact absurd rfl hevent
  | rxThread result =>
    refine ⟨decoded, ?_⟩
    have hcalls : (s.step (.rxThread result)).2 = [] := rfl
    rw [hcalls, List.append_nil]
    exact h.rxStep result
  | decoderThread result =>
    have hnone : s.bufferRead (.decoderThread result) = [] := rfl
    rw [hnone, List.append_nil]
    exact h.decoderStep result
  | unbindAndClose =>
    refine ⟨decoded, ?_⟩
    simp only [AsyncTransceiver.step, bufferRead, List.append_nil]
    split
    · rw [List.append_nil]
      exact h.moved Iff.rfl rfl
    · rwa [List.append_nil]
  | setDataEvt =>
    refine ⟨decoded, ?_⟩
    simp only [AsyncTransceiver.step, bufferRead, List.append_nil]
    split
    · rw [List.append_nil]
      exact h.moved Iff.rfl rfl
    · rwa [List.append_nil]
  | join =>
    refine ⟨decoded, ?_⟩
    simp only [AsyncTransceiver.step, bufferRead, List.append_nil]
    split
    · rw [List.append_nil]
      exact h.moved Iff.rfl rfl
    · rwa [List.append_nil]

/-- From the opening of a closed transceiver to the next one. -/
theorem decoded_run (hs : s.Sound) (hclosed : s.Closed) {since : List TransceiverEvent}
    (hsince : .openChannelAndBind ∉ since) :
    ∃ decoded, (emit step s (.openChannelAndBind :: since)).1.Decoded
      (observe step bufferRead s (.openChannelAndBind :: since))
      (emit step s (.openChannelAndBind :: since)).2 decoded := by
  have hsilent : (s.step .openChannelAndBind).2 = [] := by rw [step_of_closed hclosed]
  have hrun : (emit step (s.step .openChannelAndBind).1 since).1.Sound ∧
      ∃ decoded, (emit step (s.step .openChannelAndBind).1 since).1.Decoded
        (observe step bufferRead (s.step .openChannelAndBind).1 since)
        (emit step (s.step .openChannelAndBind).1 since).2 decoded :=
    emit_observe_history
      (P := fun (t : AsyncTransceiver) seen out ↦ t.Sound ∧ ∃ decoded, t.Decoded seen out decoded)
    ⟨hs.step .openChannelAndBind, [], .opened hs hclosed⟩ (by
      intro t seen out event hmem ht
      obtain ⟨hsound, decoded, hdecoded⟩ := ht
      refine ⟨hsound.step event, hdecoded.step ?_⟩
      rintro rfl
      exact hsince hmem)
  rw [emit_cons, observe, hsilent, List.nil_append]
  exact hrun.2

/-- What the codec makes of its calls: the messages of the decoded bytes. -/
theorem messages_of_decoded (h : s.Decoded read calls decoded) (c : RPLidarProtocolCodec) :
    (emit RPLidarProtocolCodec.call c calls).2 =
      (emit RPLidarProtocolCodec.onDecodeByte c.onDecodeReset decoded.flatten).2 := by
  rw [h.calls, DecoderThread.calls]
  split
  · next hstarting => rw [h.starting hstarting, List.flatten_nil, emit_nil, emit_nil]
  · have hdata : ∀ (d : RPLidarProtocolCodec) (buffers : List (List UInt8)),
        emit RPLidarProtocolCodec.call d (buffers.map .onDecodeData) =
          emit RPLidarProtocolCodec.onDecodeData d buffers := by
      intro d buffers
      induction buffers generalizing d with
      | nil => rfl
      | cons buffer buffers ih => rw [List.map_cons, emit_cons, emit_cons, ih]; rfl
    rw [emit_cons, hdata, RPLidarProtocolCodec.emit_onDecodeData]
    rfl

/-- A transceiver that was closed has no buffer left, and one that crashed has. -/
theorem Sound.inFlight (h : s.Sound) : (s.Closed → s.inFlight = []) ∧
    (s.unbinding = .crashed → s.inFlight ≠ []) := by
  constructor
  · intro hclosed
    obtain ⟨hrx, hdecoder, hqueue⟩ := h.closed hclosed
    rw [AsyncTransceiver.inFlight, hrx, hdecoder, hqueue]
    rfl
  · intro hcrashed
    obtain ⟨hrx, hdecoder, hqueue⟩ := h.crashed hcrashed
    simpa [AsyncTransceiver.inFlight, hrx, hdecoder, DecoderThread.held, RxThread.held] using
      hqueue

/-- In any order of the threads' steps, the listener receives the messages of the bytes that
were read since the channel was opened, none twice, none lost and in order, up to the bytes in
flight. When the channel has been closed there are none in flight; where there were some, the
program has crashed. -/
theorem session_delivers (before : List TransceiverEvent)
    (hclosed : (emit step init before).1.Closed) {since : List TransceiverEvent}
    (hsince : .openChannelAndBind ∉ since) (c : RPLidarProtocolCodec) :
    let s := (emit step init before).1
    let t := (emit step init (before ++ .openChannelAndBind :: since)).1
    ∃ decoded : List UInt8,
      (observe step bufferRead s (.openChannelAndBind :: since)).flatten =
        decoded ++ t.inFlight.flatten ∧
      (emit (pipe step RPLidarProtocolCodec.call) (s, c) (.openChannelAndBind :: since)).2 =
        (emit RPLidarProtocolCodec.onDecodeByte c.onDecodeReset decoded).2 ∧
      (t.Closed → t.inFlight = []) ∧ (t.unbinding = .crashed → t.inFlight ≠ []) := by
  intro s t
  have ht : t = (emit step s (.openChannelAndBind :: since)).1 := by
    simp only [t, s, emit_append]
  obtain ⟨decoded, h⟩ := decoded_run (sound_run before) hclosed hsince
  rw [← ht] at h
  refine ⟨decoded.flatten, ?_, ?_, (sound_run _).inFlight⟩
  · rw [h.inFlight, List.flatten_append]
  · rw [emit_pipe]
    exact messages_of_decoded h c

/-- A health answer in two pieces; the decoder thread has decoded the first one and looks for
more when the second one is read. -/
def healthArrives : List TransceiverEvent :=
  [.decoderThread .timeout, .decoderThread .timeout, .decoderThread .timeout,
    .rxThread .nothing, .rxThread (.data [0xA5, 0x5A, 0x03, 0x00]), .rxThread .nothing,
    .decoderThread .signalled, .decoderThread .timeout, .decoderThread .timeout,
    .rxThread .nothing, .rxThread (.data [0x00, 0x00, 0x06, 0x00, 0x00, 0x00]),
    .decoderThread .timeout, .rxThread .nothing]

/-- Four bytes are decoded, the others are in flight. -/
theorem session_delivers_health :
    ∃ decoded : List UInt8,
      (observe step bufferRead init (.openChannelAndBind :: healthArrives)).flatten =
        decoded ++ [0x00, 0x00, 0x06, 0x00, 0x00, 0x00] ∧
      (emit (pipe step RPLidarProtocolCodec.call) (init, RPLidarProtocolCodec.init)
        (.openChannelAndBind :: healthArrives)).2 =
          (emit RPLidarProtocolCodec.onDecodeByte RPLidarProtocolCodec.init.onDecodeReset
            decoded).2 := by
  have hflight : (emit step init ([] ++ .openChannelAndBind :: healthArrives)).1.inFlight =
      [[0x00, 0x00, 0x06, 0x00, 0x00, 0x00]] := by decide
  obtain ⟨decoded, hread, hout, -⟩ := session_delivers [] (by decide)
    (by decide : .openChannelAndBind ∉ healthArrives) RPLidarProtocolCodec.init
  rw [hflight] at hread
  exact ⟨decoded, hread, hout⟩

-- the receiving thread queues a buffer when the decoder thread has stopped
example : (emit step init [.openChannelAndBind, .decoderThread .timeout, .rxThread .nothing,
    .rxThread (.data [0xA5]), .unbindAndClose, .decoderThread .timeout, .rxThread .nothing,
    .rxThread .nothing, .setDataEvt, .join]).1.unbinding = .crashed := by decide

/-! ### The decoder thread comes to rest -/

/-- The decoder thread can do nothing more on its own. -/
def Rests (s : AsyncTransceiver) : Prop :=
  s.decoderThread = .stopped ∨ (s.decoderThread = .waiting ∧ s.dataEvt = false)

/-- No wait has failed. -/
def Waits (s : AsyncTransceiver) : Prop :=
  s.decoderThread ≠ .waitFailed ∧ s.decoderThread ≠ .asserted

/-- How many steps the decoder thread takes at most before it rests. -/
def work (s : AsyncTransceiver) : Nat :=
  3 * s.rxQueue.length + (if s.dataEvt then 3 else 0) + s.decoderThread.work

theorem decoderStep_of_rests (h : s.Rests) : s.decoderStep .signalled = (s, []) := by
  unfold AsyncTransceiver.decoderStep
  cases h with
  | inl hstopped => rw [hstopped]
  | inr hwaiting => rw [hwaiting.1, hwaiting.2]; rfl

/-- Every other step of the thread is one step less to take. -/
theorem work_decoderStep (hwaits : s.Waits) (h : ¬ s.Rests) :
    (s.decoderStep .signalled).1.work < s.work := by
  unfold AsyncTransceiver.decoderStep
  cases hdecoder : s.decoderThread with
  | stopped => exact absurd (Or.inl hdecoder) h
  | asserted => exact absurd hdecoder hwaits.2
  | waitFailed => exact absurd hdecoder hwaits.1
  | starting => simp only [work, hdecoder, DecoderThread.work]; omega
  | decoding bufferToDecode => simp only [work, hdecoder, DecoderThread.work]; omega
  | looping =>
    have hnext : (if s.isWorking then DecoderThread.fetching else .stopped).work ≤ 1 := by
      split <;> decide
    have hhere : DecoderThread.looping.work = 2 := rfl
    simp only [work, hdecoder]
    omega
  | fetching =>
    cases hqueue : s.rxQueue with
    | nil => simp only [work, hdecoder, hqueue, DecoderThread.work]; omega
    | cons buffer rest =>
      simp only [work, hdecoder, hqueue, DecoderThread.work, List.length_cons]
      omega
  | waiting =>
    have hset : s.dataEvt = true := by
      by_contra hnot
      exact h (Or.inr ⟨hdecoder, Bool.eq_false_iff.mpr hnot⟩)
    simp only [work, hdecoder, hset, if_true, DecoderThread.work]
    simp

theorem decoderStep_frame (s : AsyncTransceiver) (result : WaitResult) :
    (s.decoderStep result).1.isWorking = s.isWorking ∧
      (s.decoderStep result).1.unbinding = s.unbinding ∧
      (s.decoderStep result).1.rxThread = s.rxThread := by
  unfold AsyncTransceiver.decoderStep
  cases s.decoderThread with
  | fetching => cases s.rxQueue <;> exact ⟨rfl, rfl, rfl⟩
  | waitFailed => cases s.rxQueue <;> exact ⟨rfl, rfl, rfl⟩
  | waiting =>
    cases result with
    | signalled => dsimp only; split <;> exact ⟨rfl, rfl, rfl⟩
    | spurious => exact ⟨rfl, rfl, rfl⟩
    | timeout => exact ⟨rfl, rfl, rfl⟩
    | failed => exact ⟨rfl, rfl, rfl⟩
  | stopped => exact ⟨rfl, rfl, rfl⟩
  | asserted => exact ⟨rfl, rfl, rfl⟩
  | starting => exact ⟨rfl, rfl, rfl⟩
  | looping => exact ⟨rfl, rfl, rfl⟩
  | decoding bufferToDecode => exact ⟨rfl, rfl, rfl⟩

/-- Only a failed wait leads there. -/
theorem Waits.step (h : s.Waits) {event : TransceiverEvent}
    (hevent : event ≠ .decoderThread .failed) : (s.step event).1.Waits := by
  cases event with
  | openChannelAndBind => simp only [AsyncTransceiver.step]; split <;> simp_all [Waits]
  | unbindAndClose => simp only [AsyncTransceiver.step]; split <;> exact h
  | setDataEvt => simp only [AsyncTransceiver.step]; split <;> exact h
  | join => simp only [AsyncTransceiver.step]; split <;> exact h
  | rxThread result =>
    simp only [AsyncTransceiver.step, AsyncTransceiver.rxStep]
    cases s.rxThread with
    | receiving => cases result <;> exact h
    | stopped => exact h
    | looping => exact h
    | received decodeBuffer => exact h
  | decoderThread result =>
    simp only [AsyncTransceiver.step, AsyncTransceiver.decoderStep]
    cases hdecoder : s.decoderThread with
    | stopped => exact h
    | asserted => exact h
    | starting => simp [Waits]
    | decoding bufferToDecode => simp [Waits]
    | looping =>
      dsimp only [Waits]
      split <;> simp
    | fetching => cases s.rxQueue <;> simp [Waits]
    | waitFailed => exact absurd hdecoder h.1
    | waiting =>
      cases result with
      | signalled =>
        dsimp only
        split
        · simp [Waits]
        · exact h
      | spurious => simp [Waits]
      | timeout => simp [Waits]
      | failed => exact absurd rfl hevent

/-- However many buffers are queued, the decoder thread rests after three steps for each and six
more. It rests on an empty queue while the transceiver works, and it has stopped when the
closing thread waits for it. -/
theorem decoder_rests (hs : s.Sound) (hwaits : s.Waits) {n : Nat}
    (hn : 3 * s.rxQueue.length + 6 ≤ n) :
    let t := (emit step s (List.replicate n (.decoderThread .signalled))).1
    (s.isWorking = true → t.isWorking = true ∧ t.rxThread = s.rxThread ∧
      t.decoderThread = .waiting ∧ t.rxQueue = []) ∧
    (s.unbinding = .joining → t.decoderThread = .stopped) := by
  intro t
  have hwork : s.work ≤ n := by
    have hevt : (if s.dataEvt = true then 3 else 0) ≤ 3 := by split <;> omega
    have hthread : s.decoderThread.work ≤ 3 := by
      cases s.decoderThread <;> simp [DecoderThread.work]
    rw [work]
    omega
  have hrests : t.Rests := emit_rests (P := fun u : AsyncTransceiver ↦ u.Waits)
    (fun u hu ↦ hu.step (by simp))
    (fun u hu ↦ by rw [AsyncTransceiver.step, decoderStep_of_rests hu]; exact hu)
    (fun u hu hnot ↦ work_decoderStep hu hnot) hwaits hwork
  have hkept : t.Sound ∧ t.isWorking = s.isWorking ∧ t.unbinding = s.unbinding ∧
      t.rxThread = s.rxThread := by
    have hall : ∀ m, (emit step s (List.replicate m (.decoderThread .signalled))).1.Sound ∧
        (emit step s (List.replicate m (.decoderThread .signalled))).1.isWorking = s.isWorking ∧
        (emit step s (List.replicate m (.decoderThread .signalled))).1.unbinding = s.unbinding ∧
        (emit step s (List.replicate m (.decoderThread .signalled))).1.rxThread = s.rxThread := by
      intro m
      induction m with
      | zero => exact ⟨hs, rfl, rfl, rfl⟩
      | succ m ih =>
        obtain ⟨hsound, hworking, hunbinding, hrx⟩ := ih
        rw [List.replicate_succ', emit_concat]
        obtain ⟨h1, h2, h3⟩ := decoderStep_frame
          (emit step s (List.replicate m (.decoderThread .signalled))).1 .signalled
        exact ⟨hsound.step _, h1.trans hworking, h2.trans hunbinding, h3.trans hrx⟩
    exact hall n
  obtain ⟨hsound, hworking, hunbinding, hrx⟩ := hkept
  constructor
  · intro hw
    have ht : t.isWorking = true := hworking.trans hw
    cases hrests with
    | inl hstopped => exact absurd hstopped (hsound.running ht)
    | inr hwaiting =>
      refine ⟨ht, hrx, hwaiting.1, ?_⟩
      by_contra hne
      rw [hsound.awake hwaiting.1 hne] at hwaiting
      cases hwaiting.2
  · intro hjoining
    cases hrests with
    | inl hstopped => exact hstopped
    | inr hwaiting =>
      have hcases := hsound.joining (hunbinding.trans hjoining)
      rw [hwaiting.1, hwaiting.2] at hcases
      simp at hcases

/-- Whatever the threads have done, no byte is forgotten and no thread sleeps for good: when the
channel falls silent and the decoder thread gets to run, the listener has received the messages
of all bytes that were read since the channel was opened; and a closing thread is not left
waiting for it. -/
theorem session_drains (before : List TransceiverEvent)
    (hclosed : (emit step init before).1.Closed) {since : List TransceiverEvent}
    (hsince : .openChannelAndBind ∉ since) (hwaits : .decoderThread .failed ∉ since)
    (c : RPLidarProtocolCodec) {n : Nat}
    (hn : 3 * (emit step init (before ++ .openChannelAndBind :: since)).1.rxQueue.length + 6 ≤
      n) :
    let s := (emit step init before).1
    let t := (emit step init (before ++ .openChannelAndBind :: since)).1
    let decoding := List.replicate n (.decoderThread .signalled)
    (t.isWorking = true → t.rxThread.held = [] →
      (emit (pipe step RPLidarProtocolCodec.call) (s, c)
        (.openChannelAndBind :: since ++ decoding)).2 =
          (emit RPLidarProtocolCodec.onDecodeByte c.onDecodeReset
            (observe step bufferRead s (.openChannelAndBind :: since)).flatten).2) ∧
    (t.unbinding = .joining → (emit step t decoding).1.decoderThread = .stopped) := by
  intro s t decoding
  have ht : t = (emit step s (.openChannelAndBind :: since)).1 := by
    simp only [t, s, emit_append]
  have hwait : t.Waits := by
    rw [ht, emit_cons]
    have hopened : (s.step .openChannelAndBind).1.Waits := by
      rw [step_of_closed hclosed]
      exact ⟨DecoderThread.noConfusion, DecoderThread.noConfusion⟩
    exact emit_history (P := fun (u : AsyncTransceiver) _ ↦ u.Waits) hopened
      fun u _ event hmem hu ↦ hu.step fun heq ↦ hwaits (heq ▸ hmem)
  have hrests := decoder_rests (sound_run _) hwait hn
  refine ⟨?_, hrests.2⟩
  intro hworking hheld
  obtain ⟨-, hrx, hwaiting, hqueue⟩ := hrests.1 hworking
  have hmore : .openChannelAndBind ∉ since ++ decoding := by
    rw [List.mem_append, not_or]
    exact ⟨hsince, fun hmem ↦ by cases List.eq_of_mem_replicate hmem⟩
  obtain ⟨decoded, h⟩ := decoded_run (sound_run before) hclosed hmore
  have hflat : (emit step s (.openChannelAndBind :: (since ++ decoding))).1 =
      (emit step t decoding).1 := by
    rw [← List.cons_append, emit_append, ht]
  have hsilent : observe step bufferRead t decoding = [] := by
    apply observe_eq_nil
    intro u event hmem
    rw [List.eq_of_mem_replicate hmem]
    rfl
  have hread : observe step bufferRead s (.openChannelAndBind :: (since ++ decoding)) =
      observe step bufferRead s (.openChannelAndBind :: since) := by
    rw [← List.cons_append, observe_append, ← ht, hsilent, List.append_nil]
  have hall := h.inFlight
  have hnone : (emit step t decoding).1.inFlight = [] := by
    rw [inFlight, hwaiting, hqueue, hrx, hheld]
    rfl
  rw [hflat, hnone, List.append_nil, hread] at hall
  rw [List.cons_append, emit_pipe, hall]
  exact messages_of_decoded h c

/-- From there the listener receives the health answer. -/
theorem session_drains_health :
    (emit (pipe step RPLidarProtocolCodec.call) (init, RPLidarProtocolCodec.init)
      (.openChannelAndBind :: healthArrives ++
        List.replicate 9 (.decoderThread .signalled))).2 =
          [{ len := 3, cmd := 0x06, data := [0x00, 0x00, 0x00] }] := by
  have hn : 3 * (emit step init ([] ++ .openChannelAndBind :: healthArrives)).1.rxQueue.length +
      6 ≤ 9 := by decide
  have hdrains := session_drains [] (by decide)
    (by decide : .openChannelAndBind ∉ healthArrives) (by decide)
    RPLidarProtocolCodec.init hn
  exact (hdrains.1 (by decide) (by decide)).trans (by decide)

end AsyncTransceiver
end MonitoringRobot.Lidar
