import MonitoringRobot.Follower.Node
import MonitoringRobot.Relay.Node

/-!
# The two deadbands in series

The follower cuts its image errors, scales and clips them
(`fog_packages/src/rssi/rssi/human_follower.py:162-190`); the relay cuts the wheel speeds
made of them at `0.01` (`edge_packages/src/rssi/rssi/velocity_relay.py:55-85`). With the
shipped numbers a wheel moves exactly when `|v| + 0.0675 |w|` reaches the relay's cut. A turn
alone contributes at most `0.0675 * 0.5 * (|e| - 0.15)`, so that the relay swallows every
correction of a target at the right distance up to `|e|` about `0.446`, not `0.10`.
-/

namespace MonitoringRobot.System
open MonitoringRobot.Base MonitoringRobot.Ros MonitoringRobot.Follower MonitoringRobot.Relay

/-- The default packet of a finite twist reads `0,0` exactly when the speed and the turn
together stay below the relay's cut. -/
theorem finitePacket_default_eq_stop (msg : Twist ℚ) :
    finitePacket Params.default msg = stopPacket ↔
      |msg.linearX| + 27 / 400 * |msg.angularZ| < 1 / 100 := by
  have htrim : ∀ val, truncate (pwm Params.default val * 1) = 0 ↔ |val| < 1 / 100 := by
    intro val
    rw [mul_one, truncate_intCast]
    exact pwm_eq_zero (by decide) (by decide)
  have hturn : msg.angularZ * (135 / 1000) * (1 / 2) = 27 / 400 * msg.angularZ := by ring
  have hmag : |27 / 400 * msg.angularZ| = 27 / 400 * |msg.angularZ| := by
    rw [abs_mul, abs_of_pos (by norm_num)]
  rw [finitePacket, packet_eq_stopPacket, ← hmag, abs_add_abs_lt, ← hturn]
  apply and_congr
  · exact htrim _
  · exact htrim _

/-- More than a tenth of the image outside the rotation deadband or the height deadband. -/
def FarOut (e h : ℚ) : Prop := 1 / 5 < |e| ∨ h < 55 / 100 ∨ 90 / 100 < h

/-- The drive toward the height deadband and the turn beyond the offset together reach the
relay's cut. -/
def Reaches (e h : ℚ) : Prop :=
  1 / 100 ≤ 12 / 10 * max (max (65 / 100 - h) (h - 80 / 100)) 0 + 27 / 800 * (|e| - 15 / 100)

instance (e h : ℚ) : Decidable (FarOut e h) := inferInstanceAs (Decidable (_ ∨ _ ∨ _))

theorem abs_command (imgW imgH : ℚ) (box : Box) :
    |(command Gains.default imgW imgH box).linearX| =
        min (12 / 10 * |errV (boxHNorm imgH box)|) (2 / 10) ∧
      |(command Gains.default imgW imgH box).angularZ| =
        min (5 / 10 * |errW (eWRaw imgW box)|) (5 / 10) := by
  have hv := abs_clip (show (0 : ℚ) ≤ 2 / 10 by norm_num) (12 / 10 * errV (boxHNorm imgH box))
  have hw := abs_clip (show (0 : ℚ) ≤ 5 / 10 by norm_num) (5 / 10 * errW (eWRaw imgW box))
  rw [abs_mul, abs_of_pos (show (0 : ℚ) < 12 / 10 by norm_num)] at hv
  rw [abs_mul, abs_of_pos (show (0 : ℚ) < 5 / 10 by norm_num)] at hw
  simp only [command, Gains.default, neg_div]
  exact ⟨hv, hw⟩

/-- Far outside a deadband neither clip decides whether the cut is reached. -/
theorem cut_reached_iff {e h : ℚ} (hfar : FarOut e h) :
    1 / 100 ≤ min (12 / 10 * |errV h|) (2 / 10) + 27 / 400 * min (5 / 10 * |errW e|) (5 / 10) ↔
      Reaches e h := by
  have hturn : 0 ≤ min (5 / 10 * |errW e|) (5 / 10) :=
    le_min (mul_nonneg (by norm_num) (abs_nonneg _)) (by norm_num)
  unfold Reaches
  rw [← abs_errV]
  by_cases hdrive : 1 / 10 ≤ |errV h|
  · -- the drive alone reaches the cut
    have hmin : 12 / 100 ≤ min (12 / 10 * |errV h|) (2 / 10) :=
      le_min (by linarith) (by norm_num)
    have he := abs_nonneg e
    constructor
    · intro _
      linarith
    · intro _
      linarith
  · have hnear : 1 / 5 < |e| := by
      rcases hfar with he | hl | hu
      · exact he
      · rw [errV_of_lt (by linarith), abs_of_pos (by linarith)] at hdrive
        linarith
      · rw [errV_of_gt (by linarith), abs_of_neg (by linarith)] at hdrive
        linarith
    have hnonneg := abs_nonneg (errV h)
    rw [abs_errW (by linarith), min_eq_left (show 12 / 10 * |errV h| ≤ 2 / 10 by linarith)]
    rcases le_total (5 / 10 * (|e| - 15 / 100)) (5 / 10) with hclip | hclip
    · rw [min_eq_left hclip]
      constructor
      · intro hcut
        linarith
      · intro hcut
        linarith
    · rw [min_eq_right hclip]
      constructor
      · intro _
        linarith
      · intro _
        linarith

/-- A follower that has been enabled. -/
def enabledFollower : HumanFollower := (followerToggleCb (HumanFollower.init Gains.default 0) true).1

/-- A frame of 100 by 100 pixels showing one person, with nothing raising. -/
def personFrame (box : Box) : CameraFrame :=
  ⟨.ok (some ⟨100, 100, by decide, by decide⟩), .ok (), .ok [box], .ok (), .ok (), .ok ()⟩

end MonitoringRobot.System
