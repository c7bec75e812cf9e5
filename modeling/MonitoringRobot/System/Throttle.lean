import Mathlib.Data.List.Chain
import MonitoringRobot.Base.Machine
import MonitoringRobot.Follower.Node
import MonitoringRobot.Relay.Node

/-!
# The frame throttle against the watchdog

The follower accepts a frame `1/15` s after the last accepted one at the earliest
(`fog_packages/src/rssi/rssi/human_follower.py:104-111`); the relay stops the robot when a
command is more than `timeout_duration` old
(`edge_packages/src/rssi/rssi/velocity_relay.py:45-53`). With frames at most `1/30` s apart
the frame before an accepted one was still inside the throttle, so that two twists are less
than `1/15 + 1/30 = 1/10` s apart.
-/

namespace MonitoringRobot.System
open MonitoringRobot.Base MonitoringRobot.Ros MonitoringRobot.Follower MonitoringRobot.Relay

/-- The twists a follower publishes for frames processed at their arrival, each with the
arrival of its frame. -/
def published (n : HumanFollower) : List (ℚ × CameraFrame) → List (ℚ × Twist ℚ)
  | [] => []
  | (now, frame) :: rest =>
    (imageCallback n now frame).2.map (fun msg ↦ (now, msg)) ++
      published (imageCallback n now frame).1 rest

/-- Following is on, no frame is being processed, and the rate is the declared one. -/
structure Tracking (n : HumanFollower) : Prop where
  following : n.isFollowing = true
  idle : n.isProcessing = false
  rate : n.targetFps = 15

/-- While tracking a frame is accepted after the throttle period. -/
theorem Tracking.accepts {n : HumanFollower} (h : Tracking n) (now : ℚ) :
    n.Accepts now ↔ 1 / 15 ≤ now - n.lastPubTime :=
  HumanFollower.accepts_iff h.idle h.rate now

/-- A dropped frame publishes nothing and leaves the node alone. -/
theorem published_dropped {n : HumanFollower} {now : ℚ} {frame : CameraFrame}
    (rest : List (ℚ × CameraFrame)) (h : ¬ n.Accepts now) :
    published n ((now, frame) :: rest) = published n rest := by
  simp only [published, imageCallback_dropped h, List.map_nil, List.nil_append]

/-- An accepted frame publishes one twist and restarts the throttle. -/
theorem published_accepted {n : HumanFollower} {now : ℚ} {frame : CameraFrame}
    (rest : List (ℚ × CameraFrame)) (hf : n.isFollowing = true) (h : n.Accepts now)
    (hd : ∃ size boxes, frame.Detects size boxes) :
    ∃ msg, published n ((now, frame) :: rest) =
      (now, msg) :: published { n with lastPubTime := now } rest := by
  obtain ⟨size, boxes, hd⟩ := hd
  refine ⟨frameTwist n.gains size boxes, ?_⟩
  rw [published, imageCallback_detects hf h hd, imageCallback_accepted h]
  rfl

/-- Twists less than a tenth of a second apart. -/
def Gapless (times : List ℚ) : Prop := times.IsChain fun s t ↦ t - s < 1 / 10

/-- Frames at most a thirtieth of a second apart. -/
def Schedule (times : List ℚ) : Prop := times.IsChain fun s t ↦ t - s ≤ 1 / 30

/-- After an accepted frame, while the frame seen last was still inside the throttle, the next
twist comes in time. -/
theorem gapless_from {n : HumanFollower} (h : Tracking n) {seen : ℚ}
    (hseen : seen - n.lastPubTime < 1 / 15) {frames : List (ℚ × CameraFrame)}
    (hschedule : Schedule (seen :: frames.map Prod.fst))
    (hdetects : ∀ x ∈ frames, ∃ size boxes, x.2.Detects size boxes) :
    Gapless (n.lastPubTime :: (published n frames).map Prod.fst) := by
  induction frames generalizing n seen with
  | nil => exact List.isChain_singleton _
  | cons x rest ih =>
    obtain ⟨now, frame⟩ := x
    have hrest : ∀ y ∈ rest, ∃ size boxes, y.2.Detects size boxes :=
      fun y hy ↦ hdetects y (List.mem_cons_of_mem _ hy)
    rw [Schedule, List.map_cons, List.isChain_cons_cons] at hschedule
    by_cases ha : n.Accepts now
    · obtain ⟨msg, hpub⟩ := published_accepted rest h.following ha (hdetects _ List.mem_cons_self)
      rw [hpub, Gapless, List.map_cons, List.isChain_cons_cons]
      constructor
      · linarith [hschedule.1]
      · have hself : now - now < 1 / 15 := by norm_num
        exact ih (n := { n with lastPubTime := now }) ⟨h.following, h.idle, h.rate⟩ hself
          hschedule.2 hrest
    · rw [published_dropped rest ha]
      have hnow : now - n.lastPubTime < 1 / 15 := not_le.mp (mt (h.accepts now).mpr ha)
      exact ih h hnow hschedule.2 hrest

/-- Whatever came before the schedule, its twists are less than a tenth of a second apart. -/
theorem gapless_published {n : HumanFollower} (h : Tracking n)
    {frames : List (ℚ × CameraFrame)} (hschedule : Schedule (frames.map Prod.fst))
    (hdetects : ∀ x ∈ frames, ∃ size boxes, x.2.Detects size boxes) :
    Gapless ((published n frames).map Prod.fst) := by
  induction frames with
  | nil => exact List.isChain_nil
  | cons x rest ih =>
    obtain ⟨now, frame⟩ := x
    have hrest : ∀ y ∈ rest, ∃ size boxes, y.2.Detects size boxes :=
      fun y hy ↦ hdetects y (List.mem_cons_of_mem _ hy)
    by_cases ha : n.Accepts now
    · obtain ⟨msg, hpub⟩ := published_accepted rest h.following ha (hdetects _ List.mem_cons_self)
      rw [hpub, List.map_cons]
      have hself : now - now < 1 / 15 := by norm_num
      exact gapless_from (n := { n with lastPubTime := now })
        ⟨h.following, h.idle, h.rate⟩ hself hschedule hrest
    · rw [published_dropped rest ha]
      exact ih hschedule.of_cons hrest

/-- The twist a relay callback takes, with its reading. -/
def arrival? : Relay.Event → Option (ℚ × Twist ExtRat)
  | .twist msg _ now => some (now, msg)
  | .tick .. => none

/-- The serial write of a callback, if it comes to one, succeeds. -/
def Writes : Relay.Event → Prop
  | .twist _ write _ => write = .ok ()
  | .tick write _ => write = .ok ()

/-- The watchdog measures from the last twist that arrived. -/
structure Measures (timeout : ℚ) (seen : List Relay.Event) (w : World) : Prop where
  port : w.node.ser = true
  timeout : w.node.timeoutDuration = timeout
  last : ∀ x, (seen.filterMap arrival?).getLast? = some x → w.node.timeSent = some x.1

/-- A callback whose twist is finite and whose write succeeds returns, and the watchdog
measures from its twist if it took one. -/
theorem Measures.step {p : Params} {timeout : ℚ} {seen : List Relay.Event} {w : World}
    {e : Relay.Event} (h : Measures timeout seen w) (hw : Writes e)
    (hfin : ∀ x, arrival? e = some x → x.2.IsFinite) :
    ∃ u, Relay.step p w e = .ok u ∧ Measures timeout (seen ++ [e]) u := by
  have hport := CmdVelToSerial.serWrite_of_ser h.port (.ok ())
  cases e with
  | twist msg write now =>
    change write = .ok () at hw
    subst hw
    obtain ⟨t, ht⟩ := (listenerPacket_ok_iff p msg).mpr (hfin _ rfl)
    refine ⟨_, step_twist_ok ht hport now, h.port, h.timeout, ?_⟩
    intro x hx
    rw [List.filterMap_append] at hx
    simp only [arrival?, List.filterMap_cons, List.filterMap_nil, List.getLast?_concat,
      Option.some.injEq] at hx
    rw [← hx]
    rfl
  | tick write now =>
    change write = .ok () at hw
    subst hw
    have hseen : (seen ++ [Relay.Event.tick (.ok ()) now]).filterMap arrival? =
        seen.filterMap arrival? := by
      simp [arrival?]
    by_cases hd : w.node.Due now
    · refine ⟨_, step_tick_due hd hport, h.port, h.timeout, ?_⟩
      rw [hseen]
      exact h.last
    · refine ⟨_, step_tick_idle hd _, h.port, h.timeout, ?_⟩
      rw [hseen]
      exact h.last

/-- A relay taking finite twists with working writes keeps measuring from the last one. -/
theorem measures_run {p : Params} {w : World} (hport : w.node.ser = true)
    {evs : List Relay.Event} (hw : ∀ e ∈ evs, Writes e)
    (hfin : ∀ x ∈ evs.filterMap arrival?, x.2.IsFinite) :
    ∃ u, Relay.run p w evs = .ok u ∧ Measures w.node.timeoutDuration evs u := by
  apply Machine.run_history (P := Measures w.node.timeoutDuration)
  · exact ⟨hport, rfl, by simp⟩
  · intro pre e u hp h
    have hmem : e ∈ evs := hp.subset (by simp)
    apply h.step (hw e hmem)
    intro x hx
    exact hfin x (List.mem_filterMap.mpr ⟨e, hmem, hx⟩)

/-- Where the twists that reach a relay are less than its timeout apart, a tick between two of
them finds nothing due. -/
theorem idle_between {p : Params} {w : World} {evs pre post : List Relay.Event}
    {write : Except PyError Unit} {now : ℚ} (hport : w.node.ser = true)
    (hclock : (evs.map Event.now).Pairwise (· ≤ ·)) (hwrites : ∀ e ∈ evs, Writes e)
    (hfin : ∀ x ∈ evs.filterMap arrival?, x.2.IsFinite)
    (hchain : ((evs.filterMap arrival?).map Prod.fst).IsChain
      fun s t ↦ t - s < w.node.timeoutDuration)
    (he : evs = pre ++ .tick write now :: post) (hpre : pre.filterMap arrival? ≠ [])
    (hpost : post.filterMap arrival? ≠ []) :
    ∃ u, Relay.run p w pre = .ok u ∧ Relay.step p u (.tick write now) = .ok u := by
  have hbefore : ∀ x ∈ pre.filterMap arrival?, x.2.IsFinite := by
    intro x hx
    apply hfin
    rw [he, List.filterMap_append]
    exact List.mem_append_left _ hx
  obtain ⟨u, hu, h⟩ := measures_run (p := p) hport
    (fun e hm ↦ hwrites e (he ▸ List.mem_append_left _ hm)) hbefore
  refine ⟨u, hu, step_tick_idle ?_ write⟩
  intro hdue
  obtain ⟨-, sent, hsent, hlt⟩ := hdue
  -- the twists on either side of the tick are consecutive, and the tick is not after the second
  obtain ⟨a, ha⟩ := Option.ne_none_iff_exists'.mp (mt List.getLast?_eq_none_iff.mp hpre)
  obtain ⟨b, hb⟩ := Option.ne_none_iff_exists'.mp (mt List.head?_eq_none_iff.mp hpost)
  have hab : b.1 - a.1 < w.node.timeoutDuration := by
    rw [he, List.filterMap_append, List.filterMap_cons_none rfl, List.map_append,
      List.isChain_append] at hchain
    apply hchain.2.2
    · rw [List.getLast?_map, ha]
      rfl
    · rw [List.head?_map, hb]
      rfl
  have hnow : now ≤ b.1 := by
    obtain ⟨e, hmem, hbe⟩ := List.mem_filterMap.mp (List.mem_of_head? hb)
    rw [he, List.map_append, List.map_cons, List.pairwise_append] at hclock
    cases e with
    | tick write' t => cases hbe
    | twist msg write' t =>
      rw [arrival?, Option.some.injEq] at hbe
      rw [← hbe]
      exact (List.pairwise_cons.mp hclock.2.1).1 t (List.mem_map.mpr ⟨_, hmem, rfl⟩)
  rw [h.last a ha, Option.some.injEq] at hsent
  rw [h.timeout, ← hsent] at hlt
  linarith

/-- **The throttle and the watchdog fit together.** A follower, whatever it did before, is
following and processes frames that decode and detect at their arrival, at most `1/30` s
apart. Its twists reach the relay a constant delay later. Then two consecutive twists arrive
less than the relay's timeout of `1/10` s apart, and a relay tick anywhere between two of them
changes nothing: it writes no stop. -/
theorem watchdog_never_interrupts (g : Gains) (t₀ : ℚ) (before : List Follower.Event)
    (frames : List (ℚ × CameraFrame)) (delay : ℚ) (p : Params) (w : World)
    (evs : List Relay.Event)
    (hfollowing : ((HumanFollower.init g t₀).run before).1.isFollowing = true)
    (hschedule : Schedule (frames.map Prod.fst))
    (hdetects : ∀ x ∈ frames, ∃ size boxes, x.2.Detects size boxes)
    (hport : w.node.ser = true) (htimeout : w.node.timeoutDuration = 1 / 10)
    (hclock : (evs.map Event.now).Pairwise (· ≤ ·)) (hwrites : ∀ e ∈ evs, Writes e)
    (harrivals : evs.filterMap arrival? =
      (published ((HumanFollower.init g t₀).run before).1 frames).map fun x ↦
        (x.1 + delay, x.2.toFloat)) :
    ((evs.filterMap arrival?).map Prod.fst).IsChain
        (fun s t ↦ t - s < w.node.timeoutDuration) ∧
      ∀ pre write now post, evs = pre ++ .tick write now :: post →
        pre.filterMap arrival? ≠ [] → post.filterMap arrival? ≠ [] →
        ∃ u, Relay.run p w pre = .ok u ∧ Relay.step p u (.tick write now) = .ok u := by
  have hready := HumanFollower.ready_run g t₀ before
  have hgap := gapless_published ⟨hfollowing, hready.idle, hready.rate⟩ hschedule hdetects
  have hchain : ((evs.filterMap arrival?).map Prod.fst).IsChain
      (fun s t ↦ t - s < w.node.timeoutDuration) := by
    rw [harrivals, htimeout, List.map_map]
    rw [Gapless, List.isChain_map] at hgap
    rw [List.isChain_map]
    apply hgap.imp
    intro a b hab
    change b.1 + delay - (a.1 + delay) < 1 / 10
    linarith
  have hfin : ∀ x ∈ evs.filterMap arrival?, x.2.IsFinite := by
    intro x hx
    rw [harrivals] at hx
    obtain ⟨y, -, rfl⟩ := List.mem_map.mp hx
    exact Twist.isFinite_toFloat y.2
  refine ⟨hchain, ?_⟩
  intro pre write now post he hpre hpost
  exact idle_between hport hclock hwrites hfin hchain he hpre hpost

/-- Three empty frames a thirtieth of a second apart: the second is dropped, and a tick just
before the second twist arrives finds nothing due. -/
theorem watchdog_never_interrupts_thirty :
    ∃ u, Relay.run Params.default (World.init Params.default true)
        [.twist Twist.zero.toFloat (.ok ()) (11 / 10)] = .ok u ∧
      Relay.step Params.default u (.tick (.ok ()) (7 / 6)) = .ok u := by
  have h := watchdog_never_interrupts Gains.default 0 [.request true]
    [(1, ⟨.ok (some ⟨100, 100, by decide, by decide⟩), .ok (), .ok [], .ok (), .ok (), .ok ()⟩),
      (31 / 30,
        ⟨.ok (some ⟨100, 100, by decide, by decide⟩), .ok (), .ok [], .ok (), .ok (), .ok ()⟩),
      (32 / 30,
        ⟨.ok (some ⟨100, 100, by decide, by decide⟩), .ok (), .ok [], .ok (), .ok (), .ok ()⟩)]
    (1 / 10) Params.default (World.init Params.default true)
    [.twist Twist.zero.toFloat (.ok ()) (11 / 10), .tick (.ok ()) (7 / 6),
      .twist Twist.zero.toFloat (.ok ()) (7 / 6)]
    rfl (by unfold Schedule; decide +kernel)
    (by
      intro x hx
      simp only [List.mem_cons, List.not_mem_nil, or_false] at hx
      rcases hx with rfl | rfl | rfl <;> exact ⟨_, _, rfl, rfl, rfl, rfl⟩)
    rfl rfl (by decide +kernel)
    (by simp [Writes]) (by decide +kernel)
  exact h.2 [.twist Twist.zero.toFloat (.ok ()) (11 / 10)] (.ok ()) (7 / 6)
    [.twist Twist.zero.toFloat (.ok ()) (7 / 6)] rfl (by simp [arrival?]) (by simp [arrival?])

end MonitoringRobot.System
