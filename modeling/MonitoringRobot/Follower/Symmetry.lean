import MonitoringRobot.Follower.Node

/-!
# The command depends on the relative picture

Mirroring a frame about its vertical centre line, and scaling its two axes by positive factors,
keep the score of every box. The loop of
`fog_packages/src/rssi/rssi/human_follower.py:132-153` then selects the same person, and the law
of lines 155-190 turns a mirrored error into a mirrored command and does not see the scale.
-/

namespace MonitoringRobot.Follower
open MonitoringRobot.Base MonitoringRobot.Ros

/-- The box in the frame mirrored about its vertical centre line. -/
def Box.mirror (imgW : ℚ) (box : Box) : Box := ⟨imgW - box.x2, box.y1, imgW - box.x1, box.y2⟩

/-- The box in the frame with its axes scaled. -/
def Box.scale (a b : ℚ) (box : Box) : Box := ⟨a * box.x1, b * box.y1, a * box.x2, b * box.y2⟩

/-- The command for the tracked box, when there is one. -/
def trackedCommand (g : Gains) (imgW imgH : ℚ) (boxes : List Box) : Option (Twist ℚ) :=
  (bestBox imgW imgH boxes).map (command g imgW imgH)

/-- The twist of a frame is the command for the tracked box, or zero without one. -/
theorem frameTwist_eq (g : Gains) (size : ImageSize) (boxes : List Box) :
    frameTwist g size boxes =
      (trackedCommand g size.width size.height boxes).getD Twist.zero := by
  unfold frameTwist trackedCommand
  cases bestBox size.width size.height boxes with
  | none => rfl
  | some box => rfl

theorem getD_mirror (cmd : Option (Twist ℚ)) :
    (cmd.map Twist.mirror).getD Twist.zero = (cmd.getD Twist.zero).mirror := by
  cases cmd with
  | none => decide +kernel
  | some cmd => rfl

/-- A change of the picture that keeps the scores, and changes the command of every box by
`u`, changes the command for the tracked box by `u`. -/
theorem trackedCommand_map {g : Gains} {imgW imgH imgW' imgH' : ℚ} {t : Box → Box}
    {u : Twist ℚ → Twist ℚ} (hscore : ∀ box, score imgW' imgH' (t box) = score imgW imgH box)
    (hcmd : ∀ box, command g imgW' imgH' (t box) = u (command g imgW imgH box))
    (boxes : List Box) :
    trackedCommand g imgW' imgH' (boxes.map t) = (trackedCommand g imgW imgH boxes).map u := by
  unfold trackedCommand
  rw [bestBox_eq, bestBox_eq, argmax_map hscore, Option.map_map, Option.map_map]
  congr 1
  funext box
  exact hcmd box

section Mirror

variable (imgW imgH : ℚ) (box : Box)

theorem boxCx_mirror : boxCx (box.mirror imgW) = imgW - boxCx box := by
  simp only [boxCx, Box.mirror]
  ring

theorem boxH_mirror : boxH (box.mirror imgW) = boxH box := rfl

/-- The mirrored box is as far from the centre line and as high. -/
theorem score_mirror : score imgW imgH (box.mirror imgW) = score imgW imgH box := by
  have hdist : |boxCx (box.mirror imgW) - imgW / 2| = |boxCx box - imgW / 2| := by
    rw [boxCx_mirror, ← abs_neg]
    congr 1
    ring
  simp only [score, hdist, boxH_mirror]

theorem eWRaw_mirror : eWRaw imgW (box.mirror imgW) = -eWRaw imgW box := by
  rw [eWRaw, eWRaw, boxCx_mirror, ← neg_div]
  congr 1
  ring

/-- The angular error is odd: the offset follows the sign. -/
theorem errW_neg (e : ℚ) : errW (-e) = -errW e := by
  unfold errW
  rw [abs_neg, npSign_neg]
  split
  · rw [neg_zero]
  · ring

theorem command_mirror (g : Gains) :
    command g imgW imgH (box.mirror imgW) = (command g imgW imgH box).mirror := by
  have hlo : (-5 / 10 : ℚ) = -(5 / 10) := by norm_num
  simp only [command, Twist.mirror, boxHNorm, boxH_mirror, eWRaw_mirror, errW_neg, mul_neg, hlo,
    clip_neg_left (show (0 : ℚ) ≤ 5 / 10 by norm_num)]

theorem trackedCommand_mirror (g : Gains) (boxes : List Box) :
    trackedCommand g imgW imgH (boxes.map (Box.mirror imgW)) =
      (trackedCommand g imgW imgH boxes).map Twist.mirror :=
  trackedCommand_map (score_mirror imgW imgH) (fun box ↦ command_mirror imgW imgH box g) boxes

end Mirror

section Scale

variable {a b : ℚ} (imgW imgH : ℚ) (box : Box)

theorem boxCx_scale : boxCx (box.scale a b) = a * boxCx box := by
  simp only [boxCx, Box.scale]
  ring

theorem boxH_scale : boxH (box.scale a b) = b * boxH box := by
  simp only [boxH, Box.scale]
  ring

theorem boxHNorm_scale (hb : 0 < b) : boxHNorm (b * imgH) (box.scale a b) = boxHNorm imgH box := by
  rw [boxHNorm, boxHNorm, boxH_scale, mul_div_mul_left _ _ hb.ne']

theorem eWRaw_scale (ha : 0 < a) : eWRaw (a * imgW) (box.scale a b) = eWRaw imgW box := by
  rw [eWRaw, eWRaw, boxCx_scale, mul_div_assoc, ← mul_sub, mul_div_mul_left _ _ ha.ne']

theorem score_scale (ha : 0 < a) (hb : 0 < b) :
    score (a * imgW) (b * imgH) (box.scale a b) = score imgW imgH box := by
  have hdist : |boxCx (box.scale a b) - a * imgW / 2| / (a * imgW / 2) =
      |boxCx box - imgW / 2| / (imgW / 2) := by
    rw [boxCx_scale, mul_div_assoc, ← mul_sub, abs_mul, abs_of_pos ha,
      mul_div_mul_left _ _ ha.ne']
  have hheight : boxH (box.scale a b) / (b * imgH) = boxH box / imgH := by
    rw [boxH_scale, mul_div_mul_left _ _ hb.ne']
  simp only [score, hdist, hheight]

theorem command_scale (ha : 0 < a) (hb : 0 < b) (g : Gains) :
    command g (a * imgW) (b * imgH) (box.scale a b) = command g imgW imgH box := by
  rw [command, command, boxHNorm_scale imgH box hb, eWRaw_scale imgW box ha]

theorem trackedCommand_scale (ha : 0 < a) (hb : 0 < b) (g : Gains) (boxes : List Box) :
    trackedCommand g (a * imgW) (b * imgH) (boxes.map (Box.scale a b)) =
      trackedCommand g imgW imgH boxes := by
  rw [trackedCommand_map (t := Box.scale a b) (u := id)]
  · rw [Option.map_id, id]
  · exact fun box ↦ score_scale imgW imgH box ha hb
  · exact fun box ↦ command_scale imgW imgH box ha hb g

end Scale

/-- **Only the relative picture counts.** An accepted frame with detections publishes the
command for the tracked box. The mirrored frame publishes the same drive with the opposite
turn, a frame with both axes scaled publishes the same twist, and the command for the tracked
box obeys both laws in a frame of any width and height. -/
theorem relative_picture (size : ImageSize) (boxes : List Box) (h : boxes ≠ []) :
    (∀ (n : HumanFollower) (now : ℚ) (frame : CameraFrame), frame.Detects size boxes →
      n.isFollowing = true → n.Accepts now →
        ∃ cmd, trackedCommand n.gains size.width size.height boxes = some cmd ∧
          (imageCallback n now frame).2 = [cmd]) ∧
    PublishesAs Twist.mirror size boxes size (boxes.map (Box.mirror size.width)) ∧
    (∀ (size' : ImageSize) (a b : ℚ), 0 < a → 0 < b → (size'.width : ℚ) = a * size.width →
      (size'.height : ℚ) = b * size.height →
        PublishesAs id size boxes size' (boxes.map (Box.scale a b))) ∧
    ∀ (g : Gains) (imgW imgH : ℚ),
      trackedCommand g imgW imgH (boxes.map (Box.mirror imgW)) =
        (trackedCommand g imgW imgH boxes).map Twist.mirror ∧
      ∀ a b, 0 < a → 0 < b →
        trackedCommand g (a * imgW) (b * imgH) (boxes.map (Box.scale a b)) =
          trackedCommand g imgW imgH boxes := by
  refine ⟨?_, ?_, ?_, ?_⟩
  · intro n now frame hd hf ha
    obtain ⟨box, -, hbox⟩ := bestBox_mem size.width size.height h
    refine ⟨command n.gains size.width size.height box, ?_, ?_⟩
    · rw [trackedCommand, hbox]
      rfl
    · rw [imageCallback_detects hf ha hd, frameTwist_of_bestBox hbox]
  · apply publishesAs_of_frameTwist
    intro g
    rw [frameTwist_eq, frameTwist_eq, trackedCommand_mirror]
    exact getD_mirror _
  · intro size' a b ha hb hw hh
    apply publishesAs_of_frameTwist
    intro g
    rw [frameTwist_eq, frameTwist_eq, hw, hh, trackedCommand_scale _ _ ha hb, id]
  · intro g imgW imgH
    refine ⟨trackedCommand_mirror imgW imgH g boxes, ?_⟩
    intro a b ha hb
    exact trackedCommand_scale imgW imgH ha hb g boxes

/-- Two persons in a VGA frame, mirrored and at twice the size. -/
theorem relative_picture_vga :
    PublishesAs Twist.mirror ⟨640, 480, by decide, by decide⟩
        [⟨20, 10, 120, 310⟩, ⟨280, 60, 380, 340⟩] ⟨640, 480, by decide, by decide⟩
        [⟨520, 10, 620, 310⟩, ⟨260, 60, 360, 340⟩] ∧
      PublishesAs id ⟨640, 480, by decide, by decide⟩
        [⟨20, 10, 120, 310⟩, ⟨280, 60, 380, 340⟩] ⟨1280, 960, by decide, by decide⟩
        [⟨40, 20, 240, 620⟩, ⟨560, 120, 760, 680⟩] := by
  obtain ⟨-, hmirror, hscale, -⟩ := relative_picture ⟨640, 480, by decide, by decide⟩
    [⟨20, 10, 120, 310⟩, ⟨280, 60, 380, 340⟩] (List.cons_ne_nil _ _)
  have hboxes : [⟨20, 10, 120, 310⟩, ⟨280, 60, 380, 340⟩].map (Box.mirror (640 : Nat)) =
      [⟨520, 10, 620, 310⟩, ⟨260, 60, 360, 340⟩] := by decide +kernel
  have hboxes' : [⟨20, 10, 120, 310⟩, ⟨280, 60, 380, 340⟩].map (Box.scale 2 2) =
      [⟨40, 20, 240, 620⟩, ⟨560, 120, 760, 680⟩] := by decide +kernel
  refine ⟨hboxes ▸ hmirror, hboxes' ▸ ?_⟩
  exact hscale _ 2 2 (by norm_num) (by norm_num) (by norm_num) (by norm_num)

end MonitoringRobot.Follower
