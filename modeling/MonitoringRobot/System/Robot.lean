import MonitoringRobot.Base.Machine
import MonitoringRobot.Follower.Node
import MonitoringRobot.Relay.Node

/-!
# The follower, the topic and the relay together

`HumanFollower` publishes on `cmd_vel`, `CmdVelToSerial` takes the twists from there in
order, and its watchdog writes on its own
(`fog_packages/src/rssi/rssi/human_follower.py:82-212`,
`edge_packages/src/rssi/rssi/velocity_relay.py:45-92`). The follower is the only publisher,
the port is open and every serial write succeeds. The result is that disabling the follower
stops the robot: once the queue has drained the wire ends with `0,0`, and nothing else is
written until following is enabled again.
-/

namespace MonitoringRobot.System
open MonitoringRobot.Base MonitoringRobot.Ros MonitoringRobot.Follower MonitoringRobot.Relay

/-- Both nodes and the twists not yet taken by the relay. -/
structure Robot where
  follower : HumanFollower
  queue : CmdVelQueue
  relay : World

/-- Both nodes as constructed, with the port open. -/
def Robot.init (g : Gains) (p : Params) (t₀ : ℚ) : Robot :=
  ⟨HumanFollower.init g t₀, BoundedQueue.empty, World.init p true⟩

/-- A callback of the follower, the delivery of the oldest twist, or a watchdog tick. -/
inductive Event where
  | follower (e : Follower.Event)
  | deliver (now : ℚ)
  | tick (now : ℚ)

/-- Append the published twists in order. -/
def publish (queue : CmdVelQueue) (sent : List (Twist ℚ)) : CmdVelQueue :=
  sent.foldl BoundedQueue.push queue

/-- One callback of either node. -/
def step (p : Params) (s : Robot) : Event → Except PyError Robot
  | .follower e =>
    .ok { s with follower := (s.follower.step e).1, queue := publish s.queue (s.follower.step e).2 }
  | .deliver now =>
    match s.queue.pop? with
    | none => .ok s
    | some (msg, rest) =>
      (Relay.step p s.relay (.twist msg.toFloat (.ok ()) now)).map fun w ↦
        { s with queue := rest, relay := w }
  | .tick now =>
    (Relay.step p s.relay (.tick (.ok ()) now)).map fun w ↦ { s with relay := w }

/-- A run of callbacks in any order. -/
abbrev run (p : Params) : Robot → List Event → Except PyError Robot := Machine.run (step p)

/-- The system after the oldest twist reached the wire. -/
def Robot.delivered (s : Robot) (p : Params) (msg : Twist ℚ) (rest : CmdVelQueue) (now : ℚ) :
    Robot :=
  { s with queue := rest, relay := s.relay.command (finitePacket p msg) now }

/-- Everything a callback can do while the port is open. -/
inductive Effect (p : Params) (s : Robot) : Event → Robot → Prop where
  | follower (e : Follower.Event) : Effect p s (.follower e)
      { s with follower := (s.follower.step e).1, queue := publish s.queue (s.follower.step e).2 }
  | drained {now} (hq : s.queue.entries = []) : Effect p s (.deliver now) s
  | delivered {now msg rest} (hq : s.queue.entries = msg :: rest.entries) :
      Effect p s (.deliver now) (s.delivered p msg rest now)
  | stopped {now} : Effect p s (.tick now) { s with relay := s.relay.stop now }
  | idle {now} : Effect p s (.tick now) s

theorem step_effect (p : Params) {s : Robot} (h : s.relay.node.ser = true) (e : Event) :
    ∃ t, step p s e = .ok t ∧ Effect p s e t := by
  have hw := CmdVelToSerial.serWrite_of_ser h (.ok ())
  cases e with
  | follower e => exact ⟨_, rfl, .follower e⟩
  | deliver now =>
    cases hq : s.queue.pop? with
    | none =>
      refine ⟨s, ?_, .drained (BoundedQueue.pop?_eq_none.mp hq)⟩
      simp only [step, hq]
    | some next =>
      obtain ⟨msg, rest⟩ := next
      refine ⟨_, ?_, .delivered (BoundedQueue.entries_of_pop? hq)⟩
      simp only [step, hq, step_twist_ok (listenerPacket_toFloat p msg) hw now]
      rfl
  | tick now =>
    by_cases hd : s.relay.node.Due now
    · refine ⟨_, ?_, .stopped⟩
      simp only [step, step_tick_due hd hw]
      rfl
    · refine ⟨s, ?_, .idle⟩
      simp only [step, step_tick_idle hd]
      rfl

theorem Effect.port {p : Params} {s t : Robot} {e : Event} (he : Effect p s e t)
    (h : s.relay.node.ser = true) : t.relay.node.ser = true := by
  cases he <;> exact h

/-- While following is off, a stop is on its way behind everything queued, and once it has
been delivered nothing follows it. -/
structure Settled (s : Robot) : Prop where
  port : s.relay.node.ser = true
  queued : s.follower.isFollowing = false →
    ∀ m, s.queue.entries.getLast? = some m → m = Twist.zero
  drained : s.follower.isFollowing = false → s.queue.entries = [] →
    ∀ x, s.relay.wire.getLast? = some x → x.packet = stopPacket

/-- Nothing has been published or written by the nodes as constructed. -/
theorem settled_init (g : Gains) (p : Params) (t₀ : ℚ) : Settled (Robot.init g p t₀) where
  port := rfl
  queued := by simp [Robot.init]
  drained := by simp [Robot.init, World.init]

private theorem getLast?_publish_zero (queue : CmdVelQueue) :
    (publish queue [Twist.zero]).entries.getLast? = some Twist.zero :=
  BoundedQueue.getLast?_push (by omega) queue Twist.zero

private theorem publish_nil (queue : CmdVelQueue) : publish queue [] = queue := rfl

theorem Settled.effect {p : Params} {s t : Robot} {e : Event} (h : Settled s)
    (he : Effect p s e t) : Settled t := by
  have hport := he.port h.port
  cases he with
  | follower e =>
    have hlast := getLast?_publish_zero s.queue
    constructor
    · exact hport
    · intro hoff m hm
      rcases HumanFollower.step_off hoff with hsent | ⟨hbefore, hsent⟩
      · rw [hsent, hlast, Option.some.injEq] at hm
        exact hm.symm
      · rw [hsent, publish_nil] at hm
        exact h.queued hbefore m hm
    · intro hoff hq
      rcases HumanFollower.step_off hoff with hsent | ⟨hbefore, hsent⟩
      · rw [hsent] at hq
        rw [hq] at hlast
        cases hlast
      · rw [hsent, publish_nil] at hq
        exact h.drained hbefore hq
  | drained hq => exact h
  | @delivered now msg rest hq =>
    refine ⟨hport, ?_, ?_⟩
    · intro hoff m hm
      apply h.queued hoff m
      change rest.entries.getLast? = some m at hm
      rw [hq, List.getLast?_cons, hm]
      rfl
    · intro hoff hrest x hx
      change rest.entries = [] at hrest
      -- the twist taken was the last one queued
      have hmsg : msg = Twist.zero := by
        apply h.queued hoff msg
        rw [hq, hrest]
        rfl
      change (s.relay.wire ++ [_]).getLast? = some x at hx
      rw [List.getLast?_concat, Option.some.injEq] at hx
      rw [← hx, hmsg]
      exact finitePacket_zero p
  | stopped =>
    refine ⟨hport, h.queued, ?_⟩
    intro _ _ x hx
    change (s.relay.wire ++ [_]).getLast? = some x at hx
    rw [List.getLast?_concat, Option.some.injEq] at hx
    rw [← hx]
  | idle => exact h

/-- Following is off and only zero twists are queued. -/
structure Halted (s : Robot) : Prop where
  port : s.relay.node.ser = true
  off : s.follower.isFollowing = false
  zeros : ∀ m ∈ s.queue.entries, m = Twist.zero

private theorem mem_publish {queue : CmdVelQueue} {sent : List (Twist ℚ)} {m : Twist ℚ}
    (h : m ∈ (publish queue sent).entries) : m ∈ queue.entries ∨ m ∈ sent := by
  induction sent generalizing queue with
  | nil => exact .inl h
  | cons x sent ih =>
    rcases ih h with h | h
    · rcases BoundedQueue.mem_push h with h | h
      · exact .inl h
      · exact .inr (h ▸ List.mem_cons_self)
    · exact .inr (List.mem_cons_of_mem _ h)

/-- Short of an enabling request a halted system stays halted, and whatever it adds to the
wire is a stop. -/
theorem Halted.effect {p : Params} {s t : Robot} {e : Event} (h : Halted s)
    (he : Effect p s e t) (hne : e ≠ .follower (.request true)) :
    Halted t ∧ ∃ new, t.relay.wire = s.relay.wire ++ new ∧ ∀ x ∈ new, x.packet = stopPacket := by
  have hport := he.port h.port
  cases he with
  | follower e =>
    have hoff := HumanFollower.step_stays_off h.off fun hc ↦ hne (hc ▸ rfl)
    refine ⟨⟨hport, hoff, ?_⟩, [], by simp, by simp⟩
    intro m hm
    rcases mem_publish hm with hm | hm
    · exact h.zeros m hm
    · rcases HumanFollower.step_off hoff with hsent | ⟨-, hsent⟩
      · rw [hsent] at hm
        exact List.mem_singleton.mp hm
      · rw [hsent] at hm
        cases hm
  | drained hq => exact ⟨h, [], by simp, by simp⟩
  | @delivered now msg rest hq =>
    refine ⟨⟨hport, h.off, ?_⟩, _, rfl, ?_⟩
    · intro m hm
      apply h.zeros m
      rw [hq]
      exact List.mem_cons_of_mem _ hm
    · intro x hx
      have hmsg := h.zeros msg (by simp [hq])
      rw [List.mem_singleton.mp hx, hmsg]
      exact finitePacket_zero p
  | stopped =>
    refine ⟨⟨hport, h.off, h.zeros⟩, _, rfl, ?_⟩
    intro x hx
    rw [List.mem_singleton.mp hx]
  | idle => exact ⟨h, [], by simp, by simp⟩

/-- A run without an enabling request adds only stops to the wire of a halted system. -/
theorem Halted.run {p : Params} {s : Robot} (h : Halted s) {evs : List Event}
    (hne : ∀ e ∈ evs, e ≠ .follower (.request true)) :
    ∃ t, System.run p s evs = .ok t ∧
      ∃ new, t.relay.wire = s.relay.wire ++ new ∧ ∀ x ∈ new, x.packet = stopPacket := by
  have hrun : ∃ t, System.run p s evs = .ok t ∧ Halted t ∧
      ∃ new, t.relay.wire = s.relay.wire ++ new ∧ ∀ x ∈ new, x.packet = stopPacket := by
    apply Machine.run_history (P := fun _ t ↦ Halted t ∧
      ∃ new, t.relay.wire = s.relay.wire ++ new ∧ ∀ x ∈ new, x.packet = stopPacket)
    · exact ⟨h, [], by simp, by simp⟩
    · intro pre e t hp ht
      obtain ⟨hh, old, hold, hstops⟩ := ht
      obtain ⟨u, hu, he⟩ := step_effect p hh.port e
      obtain ⟨hhu, new, hnew, hstop⟩ := hh.effect he (hne e (hp.subset (by simp)))
      refine ⟨u, hu, hhu, old ++ new, ?_, ?_⟩
      · rw [hnew, hold, List.append_assoc]
      · intro x hx
        rcases List.mem_append.mp hx with hx | hx
        · exact hstops x hx
        · exact hstop x hx
  obtain ⟨t, ht, -, hwire⟩ := hrun
  exact ⟨t, ht, hwire⟩

/-- **Disabling stops the robot.** After any callbacks in any order, in a state where
following is off and the queue is empty, the wire is silent or ends with `0,0`; and whatever
happens next, short of an enabling request, everything further written is `0,0`. -/
theorem disable_stops (g : Gains) (p : Params) (t₀ : ℚ) (evs : List Event) :
    ∃ s, run p (Robot.init g p t₀) evs = .ok s ∧
      (s.follower.isFollowing = false → s.queue.entries = [] →
        (s.relay.wire = [] ∨ ∃ x, s.relay.wire.getLast? = some x ∧ x.packet = stopPacket) ∧
        ∀ later, (∀ e ∈ later, e ≠ .follower (.request true)) →
          ∃ u, run p s later = .ok u ∧ ∃ new, u.relay.wire = s.relay.wire ++ new ∧
            ∀ x ∈ new, x.packet = stopPacket) := by
  obtain ⟨s, hs, h⟩ : ∃ s, run p (Robot.init g p t₀) evs = .ok s ∧ Settled s := by
    apply Machine.run_history (P := fun _ s ↦ Settled s) (settled_init g p t₀)
    intro pre e s _ h
    obtain ⟨t, ht, he⟩ := step_effect p h.port e
    exact ⟨t, ht, h.effect he⟩
  refine ⟨s, hs, fun hoff hq ↦ ⟨?_, fun later hne ↦ ?_⟩⟩
  · cases hl : s.relay.wire.getLast? with
    | none => exact .inl (List.getLast?_eq_none_iff.mp hl)
    | some x => exact .inr ⟨x, rfl, h.drained hoff hq x hl⟩
  · have hhalted : Halted s := ⟨h.port, hoff, by simp [hq]⟩
    exact hhalted.run hne

end MonitoringRobot.System
