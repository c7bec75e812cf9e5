import MonitoringRobot.Follower.Node

/-!
# Who is followed

The selection loop of `HumanFollower.image_callback`
(`fog_packages/src/rssi/rssi/human_follower.py:132-153`) is a stable arg-max of the score, and
the twist of a frame depends on the detections only through it. Detections that score below
the tracked one change nothing wherever they stand. The order matters only in a tie, which the
height cap makes possible for persons of different heights.
-/

namespace MonitoringRobot.Follower
open MonitoringRobot.Base MonitoringRobot.Ros

theorem publishesAs_of_firstMax {size : ImageSize} {boxes boxes' : List Box} {box : Box}
    (h : FirstMax (score size.width size.height) boxes box)
    (h' : FirstMax (score size.width size.height) boxes' box) :
    PublishesAs id size boxes size boxes' := by
  apply publishesAs_of_frameTwist
  intro g
  rw [frameTwist_of_bestBox (bestBox_of_firstMax h),
    frameTwist_of_bestBox (bestBox_of_firstMax h'), id]

/-- **Target selection is a stable arg-max.** Some detection is the first with the greatest
score, and an accepted frame publishes the command for it. Detections put in below its score,
at any positions, leave what is published unchanged, and so does every reordering when no
other box has its score. -/
theorem tracks_first_max (size : ImageSize) (boxes : List Box) (h : boxes ≠ []) :
    ∃ box, FirstMax (score size.width size.height) boxes box ∧
      bestBox size.width size.height boxes = some box ∧
      (∀ (n : HumanFollower) (now : ℚ) (frame : CameraFrame), frame.Detects size boxes →
        n.isFollowing = true → n.Accepts now →
          (imageCallback n now frame).2 = [command n.gains size.width size.height box]) ∧
      (∀ boxes', Inserted (fun b ↦ score size.width size.height b <
          score size.width size.height box) boxes boxes' →
        PublishesAs id size boxes size boxes') ∧
      ((∀ b ∈ boxes, score size.width size.height b = score size.width size.height box →
          b = box) →
        ∀ boxes', boxes.Perm boxes' → PublishesAs id size boxes size boxes') := by
  obtain ⟨box, hbox⟩ := FirstMax.exists_of_ne_nil (score size.width size.height) h
  have hbest := bestBox_of_firstMax hbox
  refine ⟨box, hbox, hbest, ?_, ?_, ?_⟩
  · intro n now frame hd hf ha
    rw [imageCallback_detects hf ha hd, frameTwist_of_bestBox hbest]
  · intro boxes' hins
    exact publishesAs_of_firstMax hbox (hbox.inserted hins)
  · intro huniq boxes' hperm
    exact publishesAs_of_firstMax hbox (hbox.perm huniq hperm)

/-- Two persons in a VGA frame: the one nearer the centre line is the first maximum. -/
theorem tracks_first_max_vga :
    FirstMax (score 640 480) [⟨20, 10, 120, 310⟩, ⟨280, 60, 380, 340⟩] ⟨280, 60, 380, 340⟩ := by
  obtain ⟨box, hbox, hbest, -⟩ := tracks_first_max ⟨640, 480, by decide, by decide⟩
    [⟨20, 10, 120, 310⟩, ⟨280, 60, 380, 340⟩] (List.cons_ne_nil _ _)
  have hsecond : bestBox (640 : Nat) (480 : Nat) [⟨20, 10, 120, 310⟩, ⟨280, 60, 380, 340⟩] =
      some ⟨280, 60, 380, 340⟩ := by decide +kernel
  rw [hsecond, Option.some.injEq] at hbest
  rw [← hbest] at hbox
  exact hbox

/-- Beyond the height cap the first of two centred persons is followed, though the second is
taller. -/
example : bestBox 100 100 [⟨40, 0, 60, 95⟩, ⟨40, 0, 60, 99⟩] = some ⟨40, 0, 60, 95⟩ := by
  decide +kernel

end MonitoringRobot.Follower
