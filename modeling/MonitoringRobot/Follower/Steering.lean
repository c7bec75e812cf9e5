import MonitoringRobot.Follower.Control

/-!
# Which way the servo law steers

The law of `fog_packages/src/rssi/rssi/human_follower.py:162-190` takes the sign of each
error from the picture and keeps it through gain and clip. The linear axis does so for every
box. On the angular axis the offset of `0.15` exceeds the deadband edge of `0.10`, and the
boxes whose horizontal error lies between the two are steered away from.
-/

namespace MonitoringRobot.Follower
open MonitoringRobot.Base MonitoringRobot.Ros

/-- The command for a box of an image. -/
def servo (g : Gains) (x : ImageSize × Box) : Twist ℚ := command g x.1.width x.1.height x.2

/-- The normalised horizontal error of a box of an image. -/
def horizontalError (x : ImageSize × Box) : ℚ := eWRaw x.1.width x.2

/-- The normalised height of a box of an image. -/
def normalHeight (x : ImageSize × Box) : ℚ := boxHNorm x.1.height x.2

/-- On the boxes of `S` the law steers toward the target: it turns left only for a box left
of the centre line and right only for one right of it, drives forward only below the height
deadband and backward only above it, and is monotone on both axes. -/
structure Steers (g : Gains) (S : Set (ImageSize × Box)) : Prop where
  left : ∀ x ∈ S, 0 < (servo g x).angularZ → boxCx x.2 < x.1.width / 2
  right : ∀ x ∈ S, (servo g x).angularZ < 0 → (x.1.width / 2 : ℚ) < boxCx x.2
  angularMono : ∀ x ∈ S, ∀ y ∈ S, horizontalError x ≤ horizontalError y →
    (servo g x).angularZ ≤ (servo g y).angularZ
  forward : ∀ x ∈ S, 0 < (servo g x).linearX → normalHeight x < 65 / 100
  backward : ∀ x ∈ S, (servo g x).linearX < 0 → 80 / 100 < normalHeight x
  linearAnti : ∀ x ∈ S, ∀ y ∈ S, normalHeight x ≤ normalHeight y →
    (servo g y).linearX ≤ (servo g x).linearX

private theorem width_pos' (x : ImageSize × Box) : (0 : ℚ) < x.1.width :=
  Nat.cast_pos.mpr x.1.width_pos

/-- The angular command is positive exactly with the angular error. -/
theorem angularZ_pos {g : Gains} (hw : 0 < g.kpW) (x : ImageSize × Box) :
    0 < (servo g x).angularZ ↔ 0 < errW (horizontalError x) := by
  change 0 < clip (g.kpW * errW (horizontalError x)) (-5 / 10) (5 / 10) ↔ _
  rw [clip_pos (by norm_num) (by norm_num), mul_pos_iff_of_pos_left hw]

/-- The angular command is negative exactly with the angular error. -/
theorem angularZ_neg {g : Gains} (hw : 0 < g.kpW) (x : ImageSize × Box) :
    (servo g x).angularZ < 0 ↔ errW (horizontalError x) < 0 := by
  change clip (g.kpW * errW (horizontalError x)) (-5 / 10) (5 / 10) < 0 ↔ _
  rw [clip_neg (by norm_num) (by norm_num), ← neg_pos, ← mul_neg,
    mul_pos_iff_of_pos_left hw, neg_pos]

/-- The linear command is positive exactly below the height deadband. -/
theorem linearX_pos {g : Gains} (hv : 0 < g.kpV) (x : ImageSize × Box) :
    0 < (servo g x).linearX ↔ normalHeight x < 65 / 100 := by
  change 0 < clip (g.kpV * errV (normalHeight x)) (-2 / 10) (2 / 10) ↔ _
  rw [clip_pos (by norm_num) (by norm_num), mul_pos_iff_of_pos_left hv, errV_pos]

/-- The linear command is negative exactly above the height deadband. -/
theorem linearX_neg {g : Gains} (hv : 0 < g.kpV) (x : ImageSize × Box) :
    (servo g x).linearX < 0 ↔ 80 / 100 < normalHeight x := by
  change clip (g.kpV * errV (normalHeight x)) (-2 / 10) (2 / 10) < 0 ↔ _
  rw [clip_neg (by norm_num) (by norm_num), ← neg_pos, ← mul_neg,
    mul_pos_iff_of_pos_left hv, neg_pos, errV_neg]

theorem linearX_anti {g : Gains} (hv : 0 < g.kpV) {x y : ImageSize × Box}
    (h : normalHeight x ≤ normalHeight y) : (servo g y).linearX ≤ (servo g x).linearX := by
  apply clip_mono
  exact mul_le_mul_of_nonneg_left (errV_anti h) hv.le

/-- A box further left never gives a smaller angular command, outside the gap. -/
theorem angularZ_mono {g : Gains} (hw : 0 < g.kpW) {x y : ImageSize × Box}
    (hx : ¬ InGap (horizontalError x)) (hy : ¬ InGap (horizontalError y))
    (h : horizontalError x ≤ horizontalError y) :
    (servo g x).angularZ ≤ (servo g y).angularZ := by
  apply clip_mono
  exact mul_le_mul_of_nonneg_left (errW_mono hx hy h) hw.le

/-- **When the law steers toward the target.** For all positive gains, on any set of boxes
in images of any size, the law steers toward the target if and only if no box of the set has
a horizontal error of at least `0.10` and below `0.15` in magnitude. -/
theorem steers_iff (g : Gains) (hv : 0 < g.kpV) (hw : 0 < g.kpW)
    (S : Set (ImageSize × Box)) : Steers g S ↔ ∀ x ∈ S, ¬ InGap (horizontalError x) := by
  constructor
  · intro h x hx hgap
    rcases errW_wrong_sign hgap with ⟨he, hn⟩ | ⟨he, hp⟩
    · have hcx := h.right x hx ((angularZ_neg hw x).mpr hn)
      have hleft := (eWRaw_pos (width_pos' x) x.2).mp he
      exact absurd hcx hleft.not_gt
    · have hcx := h.left x hx ((angularZ_pos hw x).mpr hp)
      have hright := (eWRaw_neg (width_pos' x) x.2).mp he
      exact absurd hcx hright.not_gt
  · intro h
    constructor
    · intro x hx hp
      apply (eWRaw_pos (width_pos' x) x.2).mp
      exact pos_of_errW_pos (h x hx) ((angularZ_pos hw x).mp hp)
    · intro x hx hn
      apply (eWRaw_neg (width_pos' x) x.2).mp
      exact neg_of_errW_neg (h x hx) ((angularZ_neg hw x).mp hn)
    · intro x hx y hy hxy
      exact angularZ_mono hw (h x hx) (h y hy) hxy
    · intro x _ hp
      exact (linearX_pos hv x).mp hp
    · intro x _ hn
      exact (linearX_neg hv x).mp hn
    · intro x _ y _ hxy
      exact linearX_anti hv hxy

/-- A VGA frame with a person far left of the centre line: the law steers toward it. -/
theorem steers_iff_vga : (0 : ℚ) < Gains.default.kpV ∧ (0 : ℚ) < Gains.default.kpW ∧
    Steers Gains.default {(⟨640, 480, by decide, by decide⟩, ⟨20, 10, 120, 310⟩)} := by
  have hv : (0 : ℚ) < Gains.default.kpV := by decide +kernel
  have hw : (0 : ℚ) < Gains.default.kpW := by decide +kernel
  refine ⟨hv, hw, (steers_iff Gains.default hv hw _).mpr ?_⟩
  intro x hx hgap
  rw [Set.mem_singleton_iff.mp hx] at hgap
  revert hgap
  unfold InGap
  decide +kernel

/-- A box centred at 38 of 100 pixels, left of the centre line: the law turns right. -/
theorem steers_away :
    (command Gains.default 100 100 ⟨33, 0, 43, 70⟩).angularZ < 0 ∧
    ¬ Steers Gains.default {(⟨100, 100, by decide, by decide⟩, ⟨33, 0, 43, 70⟩)} := by
  have hneg : (command Gains.default 100 100 ⟨33, 0, 43, 70⟩).angularZ < 0 := by
    decide +kernel
  refine ⟨hneg, ?_⟩
  intro h
  have hcx := h.right _ rfl hneg
  revert hcx
  decide +kernel

end MonitoringRobot.Follower
