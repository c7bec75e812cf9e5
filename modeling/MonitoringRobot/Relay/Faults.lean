import MonitoringRobot.Relay.Watchdog

/-!
# The relay under bad input and serial faults

A run outlives its inputs when no callback lets an exception escape and a pending stop is
written by the first tick that can write it. `listener_callback` catches what its write
raises, but builds the packet before the `try`; `timer_callback` has no `try` at all
(`edge_packages/src/rssi/rssi/velocity_relay.py:45-92`). The runs that survive are exactly
those whose twists are finite and whose due ticks write without raising.
-/

namespace MonitoringRobot.Relay
open MonitoringRobot.Base MonitoringRobot.Ros

/-- The last command on the wire, with the stops written after it. -/
def LastCommand (wire : List Written) (c : Written) (after : List Written) : Prop :=
  ∃ before, wire = before ++ c :: after ∧ c.source = .listener ∧
    ∀ x ∈ after, x.source = .watchdog

/-- The node survives the run and loses no stop. A tick whose write succeeds and which finds
the last command past the timeout leaves `0,0` as the last packet on the wire, and writes it
itself when no stop has answered that command yet. -/
structure Outlives (p : Params) (opened : Bool) (evs : List Event) : Prop where
  alive : ∃ w, run p (World.init p opened) evs = .ok w
  stops : ∀ pre t post, evs = pre ++ .tick (.ok ()) t :: post →
    ∃ w u, run p (World.init p opened) pre = .ok w ∧ step p w (.tick (.ok ()) t) = .ok u ∧
      ∀ c after, LastCommand w.wire c after → p.timeoutDuration < t - c.time →
        (∃ x, u.wire.getLast? = some x ∧ x.packet = stopPacket) ∧
        (after = [] → u.wire = w.wire ++ [⟨.watchdog, stopPacket, t⟩])

private theorem relayInv_run {p : Params} {opened : Bool} {evs : List Event} {w : World}
    (hw : run p (World.init p opened) evs = .ok w) : RelayInv p w :=
  Machine.run_invariant (P := RelayInv p) (fun _ _ _ h hs ↦ h.effect (effect_of_step hs))
    (relayInv_init p opened) hw

private theorem getLast?_of_lastCommand {wire after : List Written} {c : Written}
    (h : LastCommand wire c after) :
    (after = [] ∧ wire.getLast? = some c) ∨
      ∃ x, after ≠ [] ∧ wire.getLast? = some x ∧ x.source = .watchdog := by
  obtain ⟨before, rfl, -, hafter⟩ := h
  rcases List.eq_nil_or_concat after with ha | ⟨rest, x, ha⟩
  · rw [ha]
    exact .inl ⟨rfl, List.getLast?_concat⟩
  · rw [List.concat_eq_append] at ha
    refine .inr ⟨x, by simp [ha], ?_, hafter x (by simp [ha])⟩
    rw [ha, ← List.cons_append, ← List.append_assoc, List.getLast?_concat]

/-- A tick that can write answers the last command once it is past the timeout. -/
theorem RelayInv.tick {p : Params} {w : World} (h : RelayInv p w) (t : ℚ) :
    ∃ u, Relay.step p w (.tick (.ok ()) t) = .ok u ∧
      ∀ c after, LastCommand w.wire c after → p.timeoutDuration < t - c.time →
        (∃ x, u.wire.getLast? = some x ∧ x.packet = stopPacket) ∧
        (after = [] → u.wire = w.wire ++ [⟨.watchdog, stopPacket, t⟩]) := by
  by_cases hd : w.node.Due t
  · have hwrite := CmdVelToSerial.serWrite_of_ser (h.ser_of_due hd) (.ok ())
    refine ⟨w.stop t, step_tick_due hd hwrite, ?_⟩
    intro c after _ _
    exact ⟨⟨_, List.getLast?_concat, rfl⟩, fun _ ↦ rfl⟩
  · refine ⟨w, step_tick_idle hd _, ?_⟩
    intro c after hc hlt
    rcases getLast?_of_lastCommand hc with ⟨ha, hl⟩ | ⟨x, ha, hl, hs⟩
    · -- an unanswered command past the timeout would make this tick due
      obtain ⟨before, -, hsrc, -⟩ := hc
      exact absurd ((h.due_iff t).mpr ⟨c, hl, hsrc, hlt⟩) hd
    · exact ⟨⟨x, hl, h.linked.stop_of_watchdog hl hs⟩, fun he ↦ absurd he ha⟩

/-- **When the relay outlives its inputs.** From a node whose port did or did not open,
through any twists, any ticks and any choice of raising writes, a run lets no exception
escape and loses no pending stop if and only if each of its twists is finite and each tick
that finds the watchdog due writes without raising. -/
theorem outlives_iff (p : Params) (opened : Bool) (evs : List Event) :
    Outlives p opened evs ↔ Machine.Along (step p) Absorbed (World.init p opened) evs := by
  have hrun := Machine.run_ok_iff_along (P := fun _ ↦ True)
    (fun w e _ ↦ step_ok_iff p w e) (fun _ _ _ _ _ ↦ trivial)
    (s := World.init p opened) trivial evs
  constructor
  · intro h
    exact hrun.mp h.alive
  · intro h
    obtain ⟨w, hw⟩ := hrun.mpr h
    refine ⟨⟨w, hw⟩, ?_⟩
    intro pre t post he
    rw [he] at hw
    obtain ⟨v, hv, -⟩ := Machine.run_append_ok pre _ hw
    obtain ⟨u, hu, hstop⟩ := (relayInv_run hv).tick t
    exact ⟨v, u, hv, hu, hstop⟩

private theorem not_outlives_of_error {p : Params} {opened : Bool} {evs : List Event}
    {e : PyError} (h : run p (World.init p opened) evs = .error e) :
    ¬ Outlives p opened evs := by
  intro ho
  obtain ⟨w, hw⟩ := ho.alive
  rw [h] at hw
  cases hw

/-- Two ways to end the node with its port open: a NaN velocity leaves `int()` raising in
`listener_callback`, and a write that fails while a stop is due leaves `timer_callback`. -/
theorem relay_does_not_outlive :
    ¬ Outlives Params.default true [.twist ⟨.nan, .fin 0⟩ (.ok ()) 0] ∧
    ¬ Outlives Params.default true
      [.twist ⟨.fin (1 / 2), .fin 0⟩ (.ok ()) 0, .tick (.error .serialException) (1 / 5)] := by
  constructor
  · exact not_outlives_of_error (e := .valueError) rfl
  · apply not_outlives_of_error (e := .serialException)
    have hp := listenerPacket_toFloat Params.default ⟨1 / 2, 0⟩
    have harm : step Params.default (World.init Params.default true)
        (.twist ⟨.fin (1 / 2), .fin 0⟩ (.ok ()) 0) = .ok _ := step_twist_ok hp rfl 0
    rw [run, Machine.run_cons_ok _ harm, Machine.run_singleton]
    have hdue : ((World.init Params.default true).command
        (finitePacket Params.default ⟨1 / 2, 0⟩) 0).node.Due (1 / 5) :=
      ⟨rfl, 0, rfl, by decide +kernel⟩
    simp only [step, timerCallback_of_due hdue]
    rfl

end MonitoringRobot.Relay
