import Mathlib.Data.List.Chain
import MonitoringRobot.Relay.Node

/-!
# Safety of the watchdog

The flag `sent_vel_cmd` and the reading `time_sent` are kept in step with the wire: the
flag is up exactly while the last packet is a command, and then `time_sent` is the reading
of that command. From this link, and from a timer that keeps its cadence, every command on
the wire is answered in time (`edge_packages/src/rssi/rssi/velocity_relay.py:27-53,67-92`).
-/

namespace MonitoringRobot.Relay
open MonitoringRobot.Base MonitoringRobot.Ros

/-- Flag and reading agree with the last packet on the wire. -/
structure Linked (w : World) : Prop where
  armed : w.node.sentVelCmd = true →
    ∃ x, w.wire.getLast? = some x ∧ x.source = .listener ∧ w.node.timeSent = some x.time
  disarmed : w.node.sentVelCmd = false →
    ∀ x, w.wire.getLast? = some x → x.source = .watchdog ∧ x.packet = stopPacket

theorem linked_init (p : Params) (opened : Bool) : Linked (World.init p opened) := by
  constructor
  · intro h
    cases h
  · intro _ x hx
    cases hx

/-- Every callback keeps the link, raising writes included. -/
theorem Linked.effect {p : Params} {w u : World} {e : Event} (h : Linked w)
    (he : Effect p w e u) : Linked u := by
  cases he with
  | command hp hw =>
    constructor
    · intro _
      exact ⟨_, List.getLast?_concat, rfl, rfl⟩
    · intro hs
      cases hs
  | stop hd hw =>
    constructor
    · intro hs
      cases hs
    · intro _ x hx
      rw [World.stop, List.getLast?_concat] at hx
      cases hx
      exact ⟨rfl, rfl⟩
  | lost hw => exact h
  | idle hd => exact h

/-- A linked watchdog is due exactly when the last packet is a command past the timeout. -/
theorem Linked.due_iff {w : World} (h : Linked w) (now : ℚ) :
    w.node.Due now ↔ ∃ x, w.wire.getLast? = some x ∧ x.source = .listener ∧
      w.node.timeoutDuration < now - x.time := by
  constructor
  · intro hd
    obtain ⟨hs, t, ht, hlt⟩ := hd
    obtain ⟨x, hx, hsrc, htx⟩ := h.armed hs
    rw [ht, Option.some.injEq] at htx
    exact ⟨x, hx, hsrc, htx ▸ hlt⟩
  · intro hx
    obtain ⟨x, hx, hsrc, hlt⟩ := hx
    cases hs : w.node.sentVelCmd with
    | true =>
      obtain ⟨y, hy, -, hty⟩ := h.armed hs
      rw [hx, Option.some.injEq] at hy
      exact ⟨hs, x.time, hy ▸ hty, hlt⟩
    | false =>
      have hwd := (h.disarmed hs x hx).1
      rw [hsrc] at hwd
      cases hwd

/-- When the last packet came from the watchdog it is a stop. -/
theorem Linked.stop_of_watchdog {w : World} (h : Linked w) {x : Written}
    (hx : w.wire.getLast? = some x) (hs : x.source = .watchdog) : x.packet = stopPacket := by
  cases hsent : w.node.sentVelCmd with
  | true =>
    obtain ⟨y, hy, hsrc, -⟩ := h.armed hsent
    rw [hx, Option.some.injEq] at hy
    rw [hy, hsrc] at hs
    cases hs
  | false => exact (h.disarmed hsent x hx).2

theorem Effect.frame {p : Params} {w u : World} {e : Event} (he : Effect p w e u) :
    u.node.timeoutDuration = w.node.timeoutDuration ∧ u.node.ser = w.node.ser := by
  cases he <;> exact ⟨rfl, rfl⟩

/-- What every callback that returns keeps: the link to the wire, the timeout, and a port behind
everything written. -/
structure RelayInv (p : Params) (w : World) : Prop where
  linked : Linked w
  timeout : w.node.timeoutDuration = p.timeoutDuration
  port : w.wire ≠ [] → w.node.ser = true

theorem relayInv_init (p : Params) (opened : Bool) : RelayInv p (World.init p opened) where
  linked := linked_init p opened
  timeout := rfl
  port := fun h ↦ absurd rfl h

theorem RelayInv.effect {p : Params} {w u : World} {e : Event} (h : RelayInv p w)
    (he : Effect p w e u) : RelayInv p u := by
  refine ⟨h.linked.effect he, he.frame.1.trans h.timeout, ?_⟩
  intro hne
  cases he with
  | command hp hw => exact CmdVelToSerial.ser_of_serWrite hw
  | stop hd hw => exact CmdVelToSerial.ser_of_serWrite hw
  | lost hw => exact h.port hne
  | idle hd => exact h.port hne

/-- The watchdog is due exactly when the last packet is a command past the timeout. -/
theorem RelayInv.due_iff {p : Params} {w : World} (h : RelayInv p w) (now : ℚ) :
    w.node.Due now ↔ ∃ x, w.wire.getLast? = some x ∧ x.source = .listener ∧
      p.timeoutDuration < now - x.time := by
  rw [h.linked.due_iff, h.timeout]

theorem RelayInv.ser_of_due {p : Params} {w : World} (h : RelayInv p w) {now : ℚ}
    (hd : w.node.Due now) : w.node.ser = true := by
  obtain ⟨x, hx, -, -⟩ := (h.due_iff now).mp hd
  apply h.port
  intro hnil
  rw [hnil] at hx
  cases hx

/-- Every stop on the wire directly follows a command that was past the timeout. -/
def StopsAnswer (timeout : ℚ) (wire : List Written) : Prop :=
  ∀ pre x post, wire = pre ++ x :: post → x.source = .watchdog →
    ∃ c, pre.getLast? = some c ∧ c.source = .listener ∧ timeout < x.time - c.time

/-- A packet appended to such a wire keeps the property if it is itself in order. -/
theorem StopsAnswer.snoc {timeout : ℚ} {wire : List Written} (h : StopsAnswer timeout wire)
    (y : Written) (hy : y.source = .watchdog →
      ∃ c, wire.getLast? = some c ∧ c.source = .listener ∧ timeout < y.time - c.time) :
    StopsAnswer timeout (wire ++ [y]) := by
  intro pre x post he hx
  rcases List.eq_nil_or_concat post with hp | ⟨post', z, hp⟩
  · rw [hp] at he
    obtain ⟨rfl, hyx⟩ := List.append_inj' he rfl
    obtain rfl := List.singleton_inj.mp hyx
    exact hy hx
  · rw [hp, List.concat_eq_append, ← List.cons_append, ← List.append_assoc] at he
    obtain ⟨hw, -⟩ := List.append_inj' he rfl
    exact h pre x post' hw hx

theorem StopsAnswer.command_between {timeout : ℚ} {wire pre mid post : List Written}
    {x y : Written} (h : StopsAnswer timeout wire)
    (hw : wire = pre ++ x :: (mid ++ y :: post)) (hx : x.source = .watchdog)
    (hy : y.source = .watchdog) : ∃ c ∈ mid, c.source = .listener := by
  have he : wire = (pre ++ x :: mid) ++ y :: post := by
    rw [hw, List.append_assoc, List.cons_append]
  obtain ⟨c, hc, hsrc, -⟩ := h _ y post he hy
  rcases List.eq_nil_or_concat mid with hm | ⟨mid', z, hm⟩
  · -- with nothing between them the first stop would itself be a command
    rw [hm, List.getLast?_concat, Option.some.injEq] at hc
    rw [hc, hsrc] at hx
    cases hx
  · rw [hm, List.concat_eq_append, ← List.cons_append, ← List.append_assoc,
      List.getLast?_concat, Option.some.injEq] at hc
    exact ⟨c, by simp [hm, hc], hsrc⟩

/-- The reading of a tick. -/
def Event.tick? : Event → Option ℚ
  | .tick _ now => some now
  | .twist .. => none

/-- Readings never go back, from the construction at `t₀` to the instant `now`. -/
def Clocked (t₀ now : ℚ) (evs : List Event) : Prop :=
  (t₀ :: (evs.map Event.now ++ [now])).Pairwise (· ≤ ·)

/-- Successive ticks are at most `d` apart. The timer is created at `t₀`, and the instant
`now` comes before the tick that is still to come. -/
def Cadence (d t₀ now : ℚ) (evs : List Event) : Prop :=
  (t₀ :: (evs.filterMap Event.tick? ++ [now])).IsChain fun s t ↦ t - s ≤ d

/-- A finite twist, or a tick whose write succeeds when it is attempted. -/
def Event.Benign : Event → Prop
  | .twist msg _ _ => msg.IsFinite
  | .tick write _ => write = .ok ()

/-- The reading of the last tick; the construction stands for a tick before the first. -/
def lastTick (t₀ : ℚ) (evs : List Event) : ℚ := (evs.filterMap Event.tick?).getLast?.getD t₀

private theorem lastTick_concat_twist (t₀ : ℚ) (evs : List Event) (msg : Twist ExtRat)
    (write : Except PyError Unit) (now : ℚ) :
    lastTick t₀ (evs ++ [.twist msg write now]) = lastTick t₀ evs := by
  simp [lastTick, Event.tick?]

private theorem lastTick_concat_tick (t₀ : ℚ) (evs : List Event)
    (write : Except PyError Unit) (now : ℚ) :
    lastTick t₀ (evs ++ [.tick write now]) = now := by
  simp [lastTick, Event.tick?]

private theorem lastTick_mem (t₀ : ℚ) (evs : List Event) :
    lastTick t₀ evs ∈ t₀ :: evs.map Event.now := by
  unfold lastTick
  cases h : (evs.filterMap Event.tick?).getLast? with
  | none => simp
  | some t =>
    obtain ⟨e, he, ht⟩ := List.mem_filterMap.mp (List.mem_of_getLast? h)
    cases e with
    | twist msg write now => cases ht
    | tick write now =>
      rw [Event.tick?, Option.some.injEq] at ht
      exact List.mem_cons_of_mem _ (List.mem_map.mpr ⟨_, he, ht⟩)

private theorem lastTick_le {t₀ now : ℚ} {evs pre : List Event} {e : Event}
    (hc : Clocked t₀ now evs) (hp : pre ++ [e] <+: evs) : lastTick t₀ pre ≤ e.now := by
  obtain ⟨rest, rfl⟩ := hp
  rw [Clocked, List.map_append, List.map_append, List.append_assoc, List.append_assoc,
    ← List.cons_append, List.pairwise_append] at hc
  exact hc.2.2 _ (lastTick_mem t₀ pre) e.now (by simp)

private theorem now_sub_lastTick_le {d t₀ now : ℚ} {evs : List Event}
    (hc : Cadence d t₀ now evs) : now - lastTick t₀ evs ≤ d := by
  unfold Cadence at hc
  unfold lastTick
  rcases List.eq_nil_or_concat (evs.filterMap Event.tick?) with h | ⟨ts, t, h⟩
  · rw [h] at hc ⊢
    simpa using hc
  · rw [h, List.concat_eq_append] at hc ⊢
    rw [List.append_assoc, ← List.cons_append, List.isChain_append] at hc
    rw [List.getLast?_concat, Option.getD_some]
    have hl := hc.2.1
    simpa using hl

private theorem clocked_restrict {t₀ now : ℚ} {pre evs : List Event}
    (hc : Clocked t₀ now evs) (hp : pre <+: evs) : Clocked t₀ now pre := by
  apply List.Pairwise.sublist _ hc
  exact ((hp.sublist.map _).append (List.Sublist.refl _)).cons_cons t₀

/-- What holds after the callbacks `evs` of a run with increasing readings. -/
structure WatchdogInv (p : Params) (opened : Bool) (t₀ : ℚ) (evs : List Event) (w : World) : Prop
    extends RelayInv p w where
  ser : w.node.ser = opened
  stops : StopsAnswer p.timeoutDuration w.wire
  ticked : ∀ x ∈ w.wire, x.source = .watchdog → ∃ write, .tick write x.time ∈ evs
  fresh : ∀ x, w.wire.getLast? = some x → x.source = .listener →
    lastTick t₀ evs - x.time ≤ max p.timeoutDuration 0
  afterTick : ∀ pre write t, evs = pre ++ [.tick write t] →
    ∀ x, w.wire.getLast? = some x → x.source = .listener → t - x.time ≤ p.timeoutDuration

theorem watchdogInv_init (p : Params) (opened : Bool) (t₀ : ℚ) :
    WatchdogInv p opened t₀ [] (World.init p opened) where
  toRelayInv := relayInv_init p opened
  ser := rfl
  stops := by
    intro pre x post h
    simp [World.init] at h
  ticked := by simp [World.init]
  fresh := by simp [World.init]
  afterTick := by simp

/-- Benign callbacks are absorbed: what is due finds an open port. -/
theorem RelayInv.absorbed {p : Params} {w : World} {e : Event} (h : RelayInv p w)
    (hb : e.Benign) : Absorbed w e := by
  cases e with
  | twist msg write now => exact hb
  | tick write now =>
    intro hd
    rw [CmdVelToSerial.serWrite_of_ser (h.ser_of_due hd)]
    exact hb

/-- Every callback keeps the invariant: a tick that finds nothing due has just measured the age
of the last command, a command is no older than the tick before it. -/
theorem WatchdogInv.effect {p : Params} {opened : Bool} {t₀ : ℚ} {pre : List Event}
    {e : Event} {w u : World} (h : WatchdogInv p opened t₀ pre w) (he : Effect p w e u)
    (hle : lastTick t₀ pre ≤ e.now) : WatchdogInv p opened t₀ (pre ++ [e]) u := by
  have hrelay := h.toRelayInv.effect he
  have hser := he.frame.2.trans h.ser
  have hticked : ∀ x ∈ w.wire, x.source = .watchdog →
      ∃ write, .tick write x.time ∈ pre ++ [e] := by
    intro x hx hs
    obtain ⟨write, hw⟩ := h.ticked x hx hs
    exact ⟨write, List.mem_append_left _ hw⟩
  cases he with
  | @command msg write now packet hp hw =>
    refine ⟨hrelay, hser, ?_, ?_, ?_, ?_⟩
    · exact h.stops.snoc _ (fun hs ↦ by cases hs)
    · intro x hx hs
      rcases List.mem_append.mp hx with hx | hx
      · exact hticked x hx hs
      · rw [List.mem_singleton.mp hx] at hs
        cases hs
    · intro x hx _
      rw [World.command, List.getLast?_concat, Option.some.injEq] at hx
      rw [lastTick_concat_twist, ← hx]
      exact (sub_nonpos.mpr hle).trans (le_max_right _ _)
    · intro pre' write' t ht
      cases (List.append_inj' ht rfl).2
  | @lost msg write now err hw =>
    refine ⟨hrelay, hser, h.stops, hticked, ?_, ?_⟩
    · rw [lastTick_concat_twist]
      exact h.fresh
    · intro pre' write' t ht
      cases (List.append_inj' ht rfl).2
  | @stop write now hd hw =>
    -- the last packet is a stop now, so that no command is left to age
    have hlast : ∀ x, (w.stop now).wire.getLast? = some x → x.source ≠ .listener := by
      intro x hx hs
      rw [World.stop, List.getLast?_concat, Option.some.injEq] at hx
      rw [← hx] at hs
      cases hs
    refine ⟨hrelay, hser, ?_, ?_, ?_, ?_⟩
    · apply h.stops.snoc
      intro _
      exact (h.due_iff now).mp hd
    · intro x hx hs
      rcases List.mem_append.mp hx with hx | hx
      · exact hticked x hx hs
      · rw [List.mem_singleton.mp hx]
        exact ⟨write, by simp⟩
    · intro x hx hs
      exact absurd hs (hlast x hx)
    · intro pre' write' t _ x hx hs
      exact absurd hs (hlast x hx)
  | @idle write now hd =>
    have hage : ∀ x, w.wire.getLast? = some x → x.source = .listener →
        now - x.time ≤ p.timeoutDuration := by
      intro x hx hs
      apply not_lt.mp
      intro hlt
      exact hd ((h.due_iff now).mpr ⟨x, hx, hs, hlt⟩)
    refine ⟨hrelay, hser, h.stops, hticked, ?_, ?_⟩
    · intro x hx hs
      rw [lastTick_concat_tick]
      exact (hage x hx hs).trans (le_max_left _ _)
    · intro pre' write' t ht x hx hs
      obtain ⟨rfl, rfl⟩ := Event.tick.inj (List.singleton_inj.mp (List.append_inj' ht rfl).2)
      exact hage x hx hs

/-- A run of benign callbacks with increasing readings returns, with the invariant. -/
theorem watchdogInv_run (p : Params) (opened : Bool) {t₀ now : ℚ} {evs : List Event}
    (hc : Clocked t₀ now evs) (hb : ∀ e ∈ evs, e.Benign) :
    ∃ w, run p (World.init p opened) evs = .ok w ∧ WatchdogInv p opened t₀ evs w := by
  apply Machine.run_history (watchdogInv_init p opened t₀)
  intro pre e w hp h
  obtain ⟨u, hu, he⟩ := step_of_absorbed p (h.absorbed (hb e (hp.subset (by simp))))
  exact ⟨u, hu, h.effect he (lastTick_le hc hp)⟩

/-- **Watchdog safety.** Run a node, its port opened or not, through finite twists whose
writes succeed or raise and ticks whose writes succeed, with increasing readings and a
cadence of `d`. The run returns, and at its end, which is any instant of any run:
the wire is silent, or ends with the watchdog's stop, or ends with a command at most
`timeout_duration + d` old (a negative timeout counts as zero in this bound), and at most
`timeout_duration` right after a tick; every stop was written at a tick and directly follows a
command then more than `timeout_duration` old, and two stops have a command between them;
without a port no tick touches it: the callback answers the same whatever a write would do. -/
theorem watchdog_safety (p : Params) (opened : Bool) (t₀ d now : ℚ) (evs : List Event)
    (hclock : Clocked t₀ now evs) (hcadence : Cadence d t₀ now evs)
    (hbenign : ∀ e ∈ evs, e.Benign) :
    ∃ w, run p (World.init p opened) evs = .ok w ∧
      (w.wire = [] ∨ ∃ x, w.wire.getLast? = some x ∧
        (x.source = .watchdog ∧ x.packet = stopPacket ∨
          x.source = .listener ∧ now - x.time ≤ max p.timeoutDuration 0 + d ∧
            (0 ≤ p.timeoutDuration → now - x.time ≤ p.timeoutDuration + d))) ∧
      (∀ pre write t, evs = pre ++ [.tick write t] → ∀ x, w.wire.getLast? = some x →
        x.source = .listener → t - x.time ≤ p.timeoutDuration) ∧
      (∀ x ∈ w.wire, x.source = .watchdog → ∃ write, .tick write x.time ∈ evs) ∧
      StopsAnswer p.timeoutDuration w.wire ∧
      (∀ pre x mid y post, w.wire = pre ++ x :: (mid ++ y :: post) → x.source = .watchdog →
        y.source = .watchdog → ∃ c ∈ mid, c.source = .listener) ∧
      (opened = false → ∀ pre write t post, evs = pre ++ .tick write t :: post →
        ∃ u, run p (World.init p opened) pre = .ok u ∧
          ∀ write', timerCallback u.node write' t = .ok (u.node, none)) := by
  obtain ⟨w, hw, h⟩ := watchdogInv_run p opened hclock hbenign
  refine ⟨w, hw, ?_, h.afterTick, h.ticked, h.stops, ?_, ?_⟩
  · cases hl : w.wire.getLast? with
    | none => exact .inl (List.getLast?_eq_none_iff.mp hl)
    | some x =>
      refine .inr ⟨x, rfl, ?_⟩
      cases hs : x.source with
      | listener =>
        have hf := h.fresh x hl hs
        have hd := now_sub_lastTick_le hcadence
        have hage : now - x.time ≤ max p.timeoutDuration 0 + d := by linarith
        refine .inr ⟨rfl, hage, ?_⟩
        intro htimeout
        rwa [max_eq_left htimeout] at hage
      | watchdog => exact .inl ⟨rfl, h.linked.stop_of_watchdog hl hs⟩
  · intro pre x mid y post he hx hy
    exact h.stops.command_between he hx hy
  · intro ho pre write t post he
    have hp : pre <+: evs := he ▸ List.prefix_append _ _
    obtain ⟨u, hu, hi⟩ := watchdogInv_run p opened (clocked_restrict hclock hp)
      fun e hm ↦ hbenign e (hp.subset hm)
    refine ⟨u, hu, timerCallback_of_not_due ?_⟩
    intro hd
    have hser := hi.ser_of_due hd
    rw [hi.ser, ho] at hser
    cases hser

/-- A command answered by a stop: written at 0.01 s, still fresh at the tick of 0.1 s, past
the timeout at the tick of 0.2 s. -/
theorem watchdog_safety_answered :
    ∃ w, run Params.default (World.init Params.default true)
        [.twist ⟨.fin (1 / 2), .fin 0⟩ (.ok ()) (1 / 100), .tick (.ok ()) (1 / 10),
          .tick (.ok ()) (1 / 5)] = .ok w ∧
      w.wire.map (fun x ↦ (x.source, x.packet)) =
        [(.listener, "227,227\n".toList), (.watchdog, stopPacket)] ∧
      (∃ x, w.wire.getLast? = some x ∧ x.source = .watchdog ∧ x.packet = stopPacket) ∧
      StopsAnswer (1 / 10) w.wire := by
  obtain ⟨w, hw, hlast, -, -, hstops, -⟩ := watchdog_safety Params.default true 0 (1 / 10) (1 / 5)
    [.twist ⟨.fin (1 / 2), .fin 0⟩ (.ok ()) (1 / 100), .tick (.ok ()) (1 / 10),
      .tick (.ok ()) (1 / 5)]
    (by simp only [Clocked, List.map, Event.now]; decide +kernel)
    (by simp only [Cadence, List.filterMap, Event.tick?]; decide +kernel)
    (by simp [Event.Benign, Twist.IsFinite])
  have hwire : (run Params.default (World.init Params.default true)
      [.twist ⟨.fin (1 / 2), .fin 0⟩ (.ok ()) (1 / 100), .tick (.ok ()) (1 / 10),
        .tick (.ok ()) (1 / 5)]).toOption.map
        (fun w ↦ w.wire.map fun x ↦ (x.source, x.packet)) =
      some [(.listener, "227,227\n".toList), (.watchdog, stopPacket)] := by
    decide +kernel
  rw [hw, Except.toOption, Option.map_some, Option.some.injEq] at hwire
  refine ⟨w, hw, hwire, ?_, hstops⟩
  rcases hlast with hnil | ⟨x, hx, hstop | ⟨hcommand, -⟩⟩
  · rw [hnil] at hwire
    cases hwire
  · exact ⟨x, hx, hstop⟩
  · have hlast := congrArg List.getLast? hwire
    rw [List.getLast?_map, hx, Option.map_some, hcommand] at hlast
    cases hlast

end MonitoringRobot.Relay
