import Mathlib.Data.List.Chain
import MonitoringRobot.Follower.Node

/-!
# Every frame ends

However the `try` block of `HumanFollower.image_callback` ends, the flag is lowered and the
throttle reading is that of the last accepted frame
(`fog_packages/src/rssi/rssi/human_follower.py:100-212`). A frame is therefore judged by that
one reading, whatever happened before, and publishes one twist at most.
-/

namespace MonitoringRobot.Follower
open MonitoringRobot.Base MonitoringRobot.Ros

/-- The reading of an accepted frame. -/
def HumanFollower.accepted (n : HumanFollower) : Event → List ℚ
  | .request _ => []
  | .frame now _ => if n.Accepts now then [now] else []

/-- The readings of the accepted frames of a run, in order. -/
def acceptedFrames : HumanFollower → List Event → List ℚ :=
  Machine.observe HumanFollower.step HumanFollower.accepted

/-- Between callbacks no frame is being processed, the accepted frames have been a period
apart, and the throttle starts at the last of them. -/
structure Throttled (t₀ : ℚ) (accepted : List ℚ) (n : HumanFollower) : Prop where
  idle : n.isProcessing = false
  rate : n.targetFps = 15
  apart : accepted.IsChain fun s t ↦ 1 / 15 ≤ t - s
  last : n.lastPubTime = accepted.getLast?.getD t₀

/-- A frame is accepted exactly when a period has passed since the last accepted one. -/
theorem Throttled.accepts_iff {t₀ : ℚ} {accepted : List ℚ} {n : HumanFollower}
    (h : Throttled t₀ accepted n) (now : ℚ) :
    n.Accepts now ↔ 1 / 15 ≤ now - accepted.getLast?.getD t₀ := by
  rw [HumanFollower.accepts_iff h.idle h.rate, h.last]

/-- Every callback keeps the throttle at the last accepted frame. -/
theorem Throttled.step {t₀ : ℚ} {accepted : List ℚ} {n : HumanFollower}
    (h : Throttled t₀ accepted n) (e : Event) :
    Throttled t₀ (accepted ++ n.accepted e) (n.step e).1 := by
  cases e with
  | request data =>
    rw [HumanFollower.accepted, List.append_nil]
    exact ⟨h.idle, h.rate, h.apart, h.last⟩
  | frame now frame =>
    change Throttled t₀ (accepted ++ if n.Accepts now then [now] else [])
      (imageCallback n now frame).1
    by_cases ha : n.Accepts now
    · rw [if_pos ha, imageCallback_accepted ha]
      refine ⟨h.idle, h.rate, ?_, ?_⟩
      · -- the new reading is judged against the last one of the chain
        rw [List.isChain_append]
        refine ⟨h.apart, List.isChain_singleton now, ?_⟩
        intro s hs t ht
        have hle := (h.accepts_iff now).mp ha
        rw [hs, Option.getD_some] at hle
        rw [List.head?_cons, Option.mem_def, Option.some.injEq] at ht
        rw [← ht]
        exact hle
      · rw [List.getLast?_concat, Option.getD_some]
    · rw [if_neg ha, imageCallback_dropped ha, List.append_nil]
      exact h

/-- After every run the throttle is at the last accepted frame. -/
theorem throttled_run (g : Gains) (t₀ : ℚ) (evs : List Event) :
    Throttled t₀ (acceptedFrames (HumanFollower.init g t₀) evs)
      ((HumanFollower.init g t₀).run evs).1 :=
  Machine.observe_history (P := fun n accepted ↦ Throttled t₀ accepted n)
    ⟨rfl, rfl, List.isChain_nil, rfl⟩ (fun _ _ e h ↦ h.step e) evs

theorem visualServoing_length (n : HumanFollower) (size : ImageSize) (frame : CameraFrame) :
    (visualServoing n size frame).1.length ≤ 1 := by
  unfold visualServoing
  split
  · split
    · exact Nat.zero_le 1
    · split
      · split
        · exact Nat.zero_le 1
        · split
          · exact Nat.zero_le 1
          · exact Nat.le_refl 1
      · split
        · exact Nat.zero_le 1
        · exact Nat.le_refl 1
  · exact Nat.zero_le 1

theorem tryBlock_length (n : HumanFollower) (frame : CameraFrame) :
    (tryBlock n frame).1.length ≤ 1 := by
  unfold tryBlock
  split
  · exact Nat.zero_le 1
  · exact Nat.zero_le 1
  · next size _ =>
    have hservo := visualServoing_length n size frame
    split
    · exact Nat.zero_le 1
    · split
      · next h =>
        rw [h] at hservo
        exact hservo
      · next h =>
        rw [h] at hservo
        exact hservo

theorem imageCallback_length (n : HumanFollower) (now : ℚ) (frame : CameraFrame) :
    (imageCallback n now frame).2.length ≤ 1 := by
  by_cases ha : n.Accepts now
  · rw [imageCallback_accepted ha]
    exact tryBlock_length _ frame
  · rw [imageCallback_dropped ha]
    exact Nat.zero_le 1

/-- **No frame wedges or floods the follower.** After every run no frame is being processed
and the accepted frames are a period apart. The next frame is accepted exactly when a period
has passed since the last accepted one: then the throttle restarts and its `try` block runs,
and otherwise it does nothing. It publishes one twist at most, and none with following off. -/
theorem frames_never_wedge (g : Gains) (t₀ : ℚ) (evs : List Event) :
    Throttled t₀ (acceptedFrames (HumanFollower.init g t₀) evs)
      ((HumanFollower.init g t₀).run evs).1 ∧
    ∀ (now : ℚ) (frame : CameraFrame) (n : HumanFollower),
      n = ((HumanFollower.init g t₀).run evs).1 →
        (n.Accepts now ↔
          1 / 15 ≤ now - (acceptedFrames (HumanFollower.init g t₀) evs).getLast?.getD t₀) ∧
        (n.Accepts now → imageCallback n now frame = ({ n with lastPubTime := now },
          (tryBlock { n with isProcessing := true, lastPubTime := now } frame).1)) ∧
        (¬ n.Accepts now → imageCallback n now frame = (n, [])) ∧
        (imageCallback n now frame).2.length ≤ 1 ∧
        (n.isFollowing = false → (imageCallback n now frame).2 = []) := by
  have h := throttled_run g t₀ evs
  refine ⟨h, ?_⟩
  rintro now frame n rfl
  refine ⟨h.accepts_iff now, ?_, ?_, imageCallback_length _ now frame, ?_⟩
  · intro ha
    exact imageCallback_accepted ha frame
  · intro ha
    exact imageCallback_dropped ha frame
  · intro hoff
    exact imageCallback_off hoff now frame

/-- A frame that raises in inference holds the next one off for a period, and no longer. -/
example : acceptedFrames (HumanFollower.init Gains.default 0)
    [.request true,
      .frame 1 ⟨.ok (some ⟨640, 480, by decide, by decide⟩), .error .valueError, .ok [], .ok (),
        .ok (), .ok ()⟩,
      .frame (31 / 30) ⟨.ok none, .ok (), .ok [], .ok (), .ok (), .ok ()⟩,
      .frame (16 / 15) ⟨.ok none, .ok (), .ok [], .ok (), .ok (), .ok ()⟩] = [1, 16 / 15] := by
  decide +kernel

end MonitoringRobot.Follower
