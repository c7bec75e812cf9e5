import Mathlib.Data.Set.Basic
import MonitoringRobot.Base.Selection
import MonitoringRobot.Ros.Interfaces

/-!
# Target selection and the visual-servo law

The pure part of `HumanFollower.image_callback`
(`fog_packages/src/rssi/rssi/human_follower.py:132-190`) in exact arithmetic: the scoring
loop over the detected boxes, the two normalised errors with their deadbands, and the
clipped command. An image is given by its width and height in pixels.
-/

namespace MonitoringRobot.Follower
open MonitoringRobot.Base MonitoringRobot.Ros

/-- `frame.shape[:2]` of a decoded frame, which has at least one pixel. -/
structure ImageSize where
  width : Nat
  height : Nat
  width_pos : 0 < width
  height_pos : 0 < height

/-- One detection in `xyxy` format. -/
structure Box where
  x1 : ℚ
  y1 : ℚ
  x2 : ℚ
  y2 : ℚ
  deriving DecidableEq

/-- `kp_linear` and `kp_angular`; `human_follower.py:31-35`. -/
structure Gains where
  kpV : ℚ
  kpW : ℚ

/-- The declared default gains. -/
def Gains.default : Gains := ⟨12 / 10, 5 / 10⟩

/-- `box_cx`. -/
def boxCx (box : Box) : ℚ := (box.x1 + box.x2) / 2

/-- `box_h`. -/
def boxH (box : Box) : ℚ := box.y2 - box.y1

/-- `score`: closeness to the centre line plus the capped height ratio;
`human_follower.py:138-149`. -/
def score (imgW imgH : ℚ) (box : Box) : ℚ :=
  let centerScore := 1 - |boxCx box - imgW / 2| / (imgW / 2)
  let heightScore := min (boxH box / imgH) (9 / 10)
  centerScore + heightScore

/-- One pass of the selection loop; `human_follower.py:151-153`. The score before the first
pass is minus infinity. -/
def consider (imgW imgH : ℚ) (best : WithBot ℚ × Option Box) (box : Box) :
    WithBot ℚ × Option Box :=
  if best.1 < (score imgW imgH box : WithBot ℚ) then (score imgW imgH box, some box) else best

/-- `best_box` after the loop; `human_follower.py:133-153`. -/
def bestBox (imgW imgH : ℚ) (boxes : List Box) : Option Box :=
  (boxes.foldl (consider imgW imgH) (⊥, none)).2

/-- `e_w_raw`: positive when the box is left of the centre line; `human_follower.py:164`. -/
def eWRaw (imgW : ℚ) (box : Box) : ℚ := (imgW / 2 - boxCx box) / imgW

/-- `err_w`; `human_follower.py:166-170`. -/
def errW (eWRaw : ℚ) : ℚ :=
  if |eWRaw| < 1 / 10 then 0 else eWRaw - npSign eWRaw * (15 / 100)

/-- `box_h_norm`; `human_follower.py:159`. -/
def boxHNorm (imgH : ℚ) (box : Box) : ℚ := boxH box / imgH

/-- `err_v`; `human_follower.py:172-179`. -/
def errV (boxHNorm : ℚ) : ℚ :=
  if 65 / 100 ≤ boxHNorm ∧ boxHNorm ≤ 80 / 100 then 0
  else if boxHNorm < 65 / 100 then 65 / 100 - boxHNorm
  else 80 / 100 - boxHNorm

/-- `cmd`; `human_follower.py:181-188`. -/
def command (g : Gains) (imgW imgH : ℚ) (box : Box) : Twist ℚ where
  linearX := clip (g.kpV * errV (boxHNorm imgH box)) (-2 / 10) (2 / 10)
  angularZ := clip (g.kpW * errW (eWRaw imgW box)) (-5 / 10) (5 / 10)

/-- The selection loop computes the arg-max of the score. -/
theorem bestBox_eq (imgW imgH : ℚ) (boxes : List Box) :
    bestBox imgW imgH boxes = boxes.argmax (score imgW imgH) :=
  congrArg Prod.snd (foldl_better (score imgW imgH) boxes)

/-- The loop returns the first box with the greatest score. -/
theorem bestBox_of_firstMax {imgW imgH : ℚ} {boxes : List Box} {box : Box}
    (h : FirstMax (score imgW imgH) boxes box) : bestBox imgW imgH boxes = some box := by
  rw [bestBox_eq, h.argmax_eq]

/-- The loop tracks one of the detections as soon as there is one. -/
theorem bestBox_mem (imgW imgH : ℚ) {boxes : List Box} (h : boxes ≠ []) :
    ∃ b ∈ boxes, bestBox imgW imgH boxes = some b := by
  obtain ⟨b, hb⟩ := FirstMax.exists_of_ne_nil (score imgW imgH) h
  exact ⟨b, hb.mem, bestBox_of_firstMax hb⟩

/-- Inside the rotation deadband there is no angular error. -/
theorem errW_of_abs_lt {e : ℚ} (h : |e| < 1 / 10) : errW e = 0 := by
  simp only [errW, if_pos h]

/-- Left of the deadband the error is reduced by the offset. -/
theorem errW_of_le {e : ℚ} (h : 1 / 10 ≤ e) : errW e = e - 15 / 100 := by
  have habs : ¬ |e| < 1 / 10 := by
    rw [abs_of_nonneg (by linarith)]
    linarith
  simp only [errW, npSign, if_neg habs, if_neg (show ¬ e < 0 by linarith),
    if_pos (show 0 < e by linarith), one_mul]

/-- Right of the deadband the error is raised by the offset. -/
theorem errW_of_le_neg {e : ℚ} (h : e ≤ -1 / 10) : errW e = e + 15 / 100 := by
  have habs : ¬ |e| < 1 / 10 := by
    rw [abs_of_nonpos (by linarith)]
    linarith
  simp only [errW, npSign, if_neg habs, if_pos (show e < 0 by linarith)]
  ring

/-- A horizontal error between the deadband edge and the offset. -/
def InGap (e : ℚ) : Prop := 1 / 10 ≤ |e| ∧ |e| < 15 / 100

/-- The three ranges of a horizontal error outside the gap. -/
theorem not_inGap {e : ℚ} (h : ¬ InGap e) : e ≤ -15 / 100 ∨ |e| < 1 / 10 ∨ 15 / 100 ≤ e := by
  by_cases hd : |e| < 1 / 10
  · exact .inr (.inl hd)
  · have hoff : 15 / 100 ≤ |e| := by
      by_contra hlt
      exact h ⟨not_lt.mp hd, not_le.mp hlt⟩
    rcases le_abs.mp hoff with ho | ho
    · exact .inr (.inr ho)
    · exact .inl (by linarith)

/-- Outside the gap the angular error is positive only on the left. -/
theorem pos_of_errW_pos {e : ℚ} (h : ¬ InGap e) (hp : 0 < errW e) : 0 < e := by
  rcases not_inGap h with hr | hd | hl
  · rw [errW_of_le_neg (by linarith)] at hp
    linarith
  · rw [errW_of_abs_lt hd] at hp
    exact absurd hp (lt_irrefl 0)
  · linarith

/-- Outside the gap the angular error is negative only on the right. -/
theorem neg_of_errW_neg {e : ℚ} (h : ¬ InGap e) (hn : errW e < 0) : e < 0 := by
  rcases not_inGap h with hr | hd | hl
  · linarith
  · rw [errW_of_abs_lt hd] at hn
    exact absurd hn (lt_irrefl 0)
  · rw [errW_of_le (by linarith)] at hn
    linarith

/-- Outside the gap the angular error is monotone in the horizontal error. -/
theorem errW_mono {d e : ℚ} (hd : ¬ InGap d) (he : ¬ InGap e) (h : d ≤ e) :
    errW d ≤ errW e := by
  rcases not_inGap hd with hd | hd | hd
  · rw [errW_of_le_neg (show d ≤ -1 / 10 by linarith)]
    rcases not_inGap he with he | he | he
    · rw [errW_of_le_neg (by linarith)]
      linarith
    · rw [errW_of_abs_lt he]
      linarith
    · rw [errW_of_le (by linarith)]
      linarith
  · rw [errW_of_abs_lt hd]
    rcases not_inGap he with he | he | he
    · have := (abs_lt.mp hd).1
      linarith
    · rw [errW_of_abs_lt he]
    · rw [errW_of_le (by linarith)]
      linarith
  · rw [errW_of_le (show 1 / 10 ≤ d by linarith), errW_of_le (by linarith)]
    linarith

/-- Inside the gap the angular error has the wrong sign. -/
theorem errW_wrong_sign {e : ℚ} (h : InGap e) : (0 < e ∧ errW e < 0) ∨ (e < 0 ∧ 0 < errW e) := by
  obtain ⟨hlo, hhi⟩ := h
  rcases le_abs.mp hlo with hl | hr
  · rw [abs_of_nonneg (by linarith)] at hhi
    refine .inl ⟨by linarith, ?_⟩
    rw [errW_of_le hl]
    linarith
  · rw [abs_of_nonpos (by linarith)] at hhi
    refine .inr ⟨by linarith, ?_⟩
    rw [errW_of_le_neg (by linarith)]
    linarith

/-- Below the height deadband the linear error is the missing height. -/
theorem errV_of_lt {h : ℚ} (hl : h < 65 / 100) : errV h = 65 / 100 - h := by
  rw [errV, if_neg (by rintro ⟨hc, -⟩; linarith), if_pos hl]

/-- Inside the height deadband there is no linear error. -/
theorem errV_of_mem {h : ℚ} (hl : 65 / 100 ≤ h) (hu : h ≤ 80 / 100) : errV h = 0 := by
  rw [errV, if_pos ⟨hl, hu⟩]

/-- Above the height deadband the linear error is minus the excess height. -/
theorem errV_of_gt {h : ℚ} (hu : 80 / 100 < h) : errV h = 80 / 100 - h := by
  rw [errV, if_neg (by rintro ⟨-, hc⟩; linarith), if_neg (by linarith)]

/-- The linear error is the missing height minus the excess height. -/
theorem errV_eq (h : ℚ) : errV h = max (65 / 100 - h) 0 - max (h - 80 / 100) 0 := by
  rcases lt_or_ge h (65 / 100) with hl | hl
  · rw [errV_of_lt hl, max_eq_left (by linarith), max_eq_right (by linarith), sub_zero]
  · rcases le_or_gt h (80 / 100) with hu | hu
    · rw [errV_of_mem hl hu, max_eq_right (by linarith), max_eq_right (by linarith), sub_zero]
    · rw [errV_of_gt hu, max_eq_right (by linarith), max_eq_left (by linarith)]
      ring

/-- The magnitude of the linear error is the distance to the height deadband. -/
theorem abs_errV (h : ℚ) : |errV h| = max (max (65 / 100 - h) (h - 80 / 100)) 0 := by
  rcases lt_or_ge h (65 / 100) with hl | hl
  · rw [errV_of_lt hl, abs_of_pos (by linarith), max_eq_left (show h - 80 / 100 ≤ _ by linarith),
      max_eq_left (by linarith)]
  · rcases le_or_gt h (80 / 100) with hu | hu
    · rw [errV_of_mem hl hu, abs_zero, max_eq_right (max_le (by linarith) (by linarith))]
    · rw [errV_of_gt hu, abs_of_neg (by linarith),
        max_eq_right (show 65 / 100 - h ≤ h - 80 / 100 by linarith), max_eq_left (by linarith),
        neg_sub]

/-- Beyond the offset the magnitude of the angular error is what exceeds it. -/
theorem abs_errW {e : ℚ} (h : 15 / 100 ≤ |e|) : |errW e| = |e| - 15 / 100 := by
  rcases le_abs.mp h with hl | hr
  · rw [errW_of_le (by linarith), abs_of_nonneg (by linarith), abs_of_nonneg (by linarith)]
  · rw [errW_of_le_neg (by linarith), abs_of_nonpos (by linarith), abs_of_nonpos (by linarith)]
    ring

theorem errV_anti {h k : ℚ} (hk : h ≤ k) : errV k ≤ errV h := by
  rw [errV_eq, errV_eq]
  apply sub_le_sub
  · exact max_le_max_right 0 (by linarith)
  · exact max_le_max_right 0 (by linarith)

/-- The linear error is positive exactly below the height deadband. -/
theorem errV_pos {h : ℚ} : 0 < errV h ↔ h < 65 / 100 := by
  constructor
  · intro hp
    by_contra hl
    have hle := errV_anti (not_lt.mp hl)
    rw [errV_of_mem (le_refl _) (by norm_num)] at hle
    linarith
  · intro hl
    rw [errV_of_lt hl]
    linarith

/-- The linear error is negative exactly above the height deadband. -/
theorem errV_neg {h : ℚ} : errV h < 0 ↔ 80 / 100 < h := by
  constructor
  · intro hn
    by_contra hu
    have hle := errV_anti (not_lt.mp hu)
    rw [errV_of_mem (by norm_num) (le_refl _)] at hle
    linarith
  · intro hu
    rw [errV_of_gt hu]
    linarith

/-- A box is left of the centre line exactly when its horizontal error is positive. -/
theorem eWRaw_pos {imgW : ℚ} (hW : 0 < imgW) (box : Box) :
    0 < eWRaw imgW box ↔ boxCx box < imgW / 2 := by
  rw [eWRaw, div_pos_iff_of_pos_right hW, sub_pos]

/-- A box is right of the centre line exactly when its horizontal error is negative. -/
theorem eWRaw_neg {imgW : ℚ} (hW : 0 < imgW) (box : Box) :
    eWRaw imgW box < 0 ↔ imgW / 2 < boxCx box := by
  rw [eWRaw, div_lt_iff₀ hW, zero_mul, sub_neg]

end MonitoringRobot.Follower
