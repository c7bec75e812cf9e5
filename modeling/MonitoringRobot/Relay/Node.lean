import MonitoringRobot.Base.Machine
import MonitoringRobot.Relay.Pwm

/-!
# The velocity relay and its serial wire

`CmdVelToSerial` (`edge_packages/src/rssi/rssi/velocity_relay.py:27-53,67-92`) as a step
function over Twist callbacks and timer ticks. A write is given by its outcome: it puts the
packet on the wire, or raises and puts nothing there. A clock reading is a number of seconds,
so that `(now - time_sent).nanoseconds / 1e9` is a difference of readings. An input carries
the reading its callback takes; a callback that takes none ignores it.
-/

namespace MonitoringRobot.Relay
open MonitoringRobot.Base MonitoringRobot.Ros

/-- The attributes of the node. `ser` says whether `serial.Serial(...)` returned in
`__init__`: otherwise the attribute does not exist. -/
structure CmdVelToSerial where
  timeoutDuration : ℚ
  timeSent : Option ℚ
  sentVelCmd : Bool
  ser : Bool

/-- `__init__`; `velocity_relay.py:27-36`. -/
def CmdVelToSerial.init (p : Params) (opened : Bool) : CmdVelToSerial where
  timeoutDuration := p.timeoutDuration
  timeSent := none
  sentVelCmd := false
  ser := opened

/-- `self.ser.write(...)`: an `AttributeError` without a port, else the given outcome. -/
def CmdVelToSerial.serWrite (n : CmdVelToSerial) (write : Except PyError Unit) :
    Except PyError Unit :=
  if n.ser then write else .error .attributeError

/-- `timer_callback`; `velocity_relay.py:45-53`. The write stands outside any `try`. -/
def timerCallback (n : CmdVelToSerial) (write : Except PyError Unit) (now : ℚ) :
    Except PyError (CmdVelToSerial × Option Text) :=
  match n.sentVelCmd, n.timeSent with
  | true, some timeSent =>
    if n.timeoutDuration < now - timeSent then do
      n.serWrite write
      .ok ({ n with sentVelCmd := false }, some stopPacket)
    else .ok (n, none)
  | _, _ => .ok (n, none)

/-- `listener_callback`; `velocity_relay.py:67-92`. The packet is built outside the `try`;
the write, the clock reading and the arming stand inside it. -/
def listenerCallback (p : Params) (n : CmdVelToSerial) (msg : Twist ExtRat)
    (write : Except PyError Unit) (now : ℚ) : Except PyError (CmdVelToSerial × Option Text) := do
  let packet ← listenerPacket p msg
  match n.serWrite write with
  | .ok () => .ok ({ n with timeSent := some now, sentVelCmd := true }, some packet)
  | .error _ => .ok (n, none)

/-- The callback a packet came from. -/
inductive Source where
  | listener
  | watchdog
  deriving DecidableEq

/-- One packet on the wire, with the reading of the callback that wrote it. -/
structure Written where
  source : Source
  packet : Text
  time : ℚ

/-- The node and everything written so far, oldest first. -/
structure World where
  node : CmdVelToSerial
  wire : List Written

/-- A freshly constructed node in front of a silent wire. -/
def World.init (p : Params) (opened : Bool) : World := ⟨CmdVelToSerial.init p opened, []⟩

/-- A Twist callback or a timer tick. -/
inductive Event where
  | twist (msg : Twist ExtRat) (write : Except PyError Unit) (now : ℚ)
  | tick (write : Except PyError Unit) (now : ℚ)

/-- The reading of a callback. -/
def Event.now : Event → ℚ
  | .twist _ _ now => now
  | .tick _ now => now

/-- Put the packet a callback wrote, if any, on the wire. -/
def World.record (w : World) (source : Source) (time : ℚ) :
    CmdVelToSerial × Option Text → World
  | (n, none) => ⟨n, w.wire⟩
  | (n, some packet) => ⟨n, w.wire ++ [⟨source, packet, time⟩]⟩

/-- One callback; an escaping exception ends the node. -/
def step (p : Params) (w : World) : Event → Except PyError World
  | .twist msg write now =>
    (listenerCallback p w.node msg write now).map (w.record .listener now)
  | .tick write now => (timerCallback w.node write now).map (w.record .watchdog now)

/-- A run of callbacks. -/
abbrev run (p : Params) : World → List Event → Except PyError World := Machine.run (step p)

/-- The guard of the watchdog: armed, and the last command older than the timeout. -/
def CmdVelToSerial.Due (n : CmdVelToSerial) (now : ℚ) : Prop :=
  n.sentVelCmd = true ∧ ∃ timeSent, n.timeSent = some timeSent ∧
    n.timeoutDuration < now - timeSent

/-- The world after a command reached the wire. -/
def World.command (w : World) (packet : Text) (now : ℚ) : World :=
  ⟨{ w.node with timeSent := some now, sentVelCmd := true },
    w.wire ++ [⟨.listener, packet, now⟩]⟩

/-- The world after the watchdog's stop reached the wire. -/
def World.stop (w : World) (now : ℚ) : World :=
  ⟨{ w.node with sentVelCmd := false }, w.wire ++ [⟨.watchdog, stopPacket, now⟩]⟩

/-- With an open port the outcome of the write is that of the driver. -/
theorem CmdVelToSerial.serWrite_of_ser {n : CmdVelToSerial} (h : n.ser = true)
    (write : Except PyError Unit) : n.serWrite write = write := by
  simp only [serWrite, h, if_true]

theorem CmdVelToSerial.ser_of_serWrite {n : CmdVelToSerial} {write : Except PyError Unit}
    (h : n.serWrite write = .ok ()) : n.ser = true := by
  unfold serWrite at h
  split at h
  · assumption
  · cases h

/-- A tick with nothing due leaves the node alone and never evaluates the write. -/
theorem timerCallback_of_not_due {n : CmdVelToSerial} {now : ℚ} (h : ¬ n.Due now)
    (write : Except PyError Unit) : timerCallback n write now = .ok (n, none) := by
  unfold timerCallback
  split
  · next timeSent hs ht =>
    rw [if_neg fun hlt ↦ h ⟨hs, timeSent, ht, hlt⟩]
  · rfl

/-- A due tick writes the stop and disarms, or raises what the write raises. -/
theorem timerCallback_of_due {n : CmdVelToSerial} {now : ℚ} (h : n.Due now)
    (write : Except PyError Unit) :
    timerCallback n write now =
      (n.serWrite write).map fun _ ↦ ({ n with sentVelCmd := false }, some stopPacket) := by
  obtain ⟨hs, timeSent, ht, hlt⟩ := h
  simp only [timerCallback, hs, ht, if_pos hlt]
  cases n.serWrite write <;> rfl

/-- A finite twist whose write succeeds puts its packet on the wire and arms the watchdog. -/
theorem step_twist_ok {p : Params} {w : World} {msg : Twist ExtRat} {packet : Text}
    {write : Except PyError Unit} (hp : listenerPacket p msg = .ok packet)
    (hw : w.node.serWrite write = .ok ()) (now : ℚ) :
    step p w (.twist msg write now) = .ok (w.command packet now) := by
  simp only [step, listenerCallback, hp, hw]
  rfl

theorem step_twist_raised {p : Params} {w : World} {msg : Twist ExtRat} {packet : Text}
    {write : Except PyError Unit} {e : PyError} (hp : listenerPacket p msg = .ok packet)
    (hw : w.node.serWrite write = .error e) (now : ℚ) :
    step p w (.twist msg write now) = .ok w := by
  simp only [step, listenerCallback, hp, hw]
  rfl

theorem step_tick_idle {p : Params} {w : World} {now : ℚ} (h : ¬ w.node.Due now)
    (write : Except PyError Unit) : step p w (.tick write now) = .ok w := by
  simp only [step, timerCallback_of_not_due h]
  rfl

/-- A due tick whose write succeeds puts the stop on the wire and disarms. -/
theorem step_tick_due {p : Params} {w : World} {now : ℚ} {write : Except PyError Unit}
    (h : w.node.Due now) (hw : w.node.serWrite write = .ok ()) :
    step p w (.tick write now) = .ok (w.stop now) := by
  simp only [step, timerCallback_of_due h, hw]
  rfl

/-- A callback is absorbed: a twist is finite, and the write of a due tick does not raise. -/
def Absorbed (w : World) : Event → Prop
  | .twist msg _ _ => msg.IsFinite
  | .tick write now => w.node.Due now → w.node.serWrite write = .ok ()

/-- Everything a callback that returns can have done. -/
inductive Effect (p : Params) (w : World) : Event → World → Prop where
  | command {msg write now packet} (hp : listenerPacket p msg = .ok packet)
      (hw : w.node.serWrite write = .ok ()) :
      Effect p w (.twist msg write now) (w.command packet now)
  | lost {msg write now e} (hw : w.node.serWrite write = .error e) :
      Effect p w (.twist msg write now) w
  | stop {write now} (hd : w.node.Due now) (hw : w.node.serWrite write = .ok ()) :
      Effect p w (.tick write now) (w.stop now)
  | idle {write now} (hd : ¬ w.node.Due now) : Effect p w (.tick write now) w

/-- An absorbed callback returns, with one of the four effects. -/
theorem step_of_absorbed (p : Params) {w : World} {e : Event} (h : Absorbed w e) :
    ∃ u, step p w e = .ok u ∧ Effect p w e u := by
  cases e with
  | twist msg write now =>
    obtain ⟨packet, hp⟩ := (listenerPacket_ok_iff p msg).mpr h
    cases hw : w.node.serWrite write with
    | ok => exact ⟨_, step_twist_ok hp hw now, .command hp hw⟩
    | error e => exact ⟨_, step_twist_raised hp hw now, .lost hw⟩
  | tick write now =>
    by_cases hd : w.node.Due now
    · exact ⟨_, step_tick_due hd (h hd), .stop hd (h hd)⟩
    · exact ⟨_, step_tick_idle hd write, .idle hd⟩

theorem step_ok_iff (p : Params) (w : World) (e : Event) :
    (∃ u, step p w e = .ok u) ↔ Absorbed w e := by
  constructor
  · rintro ⟨u, hu⟩
    cases e with
    | twist msg write now =>
      cases hp : listenerPacket p msg with
      | ok packet => exact (listenerPacket_ok_iff p msg).mp ⟨packet, hp⟩
      | error e =>
        simp only [step, listenerCallback, hp] at hu
        cases hu
    | tick write now =>
      intro hd
      cases hw : w.node.serWrite write with
      | ok => rfl
      | error e =>
        simp only [step, timerCallback_of_due hd, hw] at hu
        cases hu
  · intro h
    obtain ⟨u, hu, -⟩ := step_of_absorbed p h
    exact ⟨u, hu⟩

theorem effect_of_step {p : Params} {w u : World} {e : Event} (h : step p w e = .ok u) :
    Effect p w e u := by
  obtain ⟨v, hv, heff⟩ := step_of_absorbed p ((step_ok_iff p w e).mp ⟨u, h⟩)
  rw [h] at hv
  exact Except.ok.inj hv ▸ heff

end MonitoringRobot.Relay
