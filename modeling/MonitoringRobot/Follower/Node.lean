import MonitoringRobot.Base.Machine
import MonitoringRobot.Follower.Control

/-!
# The human follower node

`HumanFollower` (`fog_packages/src/rssi/rssi/human_follower.py:57-126,196-212`) as a state
and its two callbacks. Everything inside the `try` of `image_callback` that this repository
does not define is given per frame by its outcome: the decoder, the detector, the extraction
of the boxes, the publisher, the drawing and the debug image may each raise. Both callbacks
are atomic. The two previous errors and the last control time are set once and never read.
-/

namespace MonitoringRobot.Follower
open MonitoringRobot.Base MonitoringRobot.Ros

/-- The attributes the callbacks read or write; `human_follower.py:34-35,57-67`. -/
structure HumanFollower where
  gains : Gains
  isFollowing : Bool
  isProcessing : Bool
  targetFps : ℚ
  lastPubTime : ℚ

/-- `__init__` at the clock reading `now`. -/
def HumanFollower.init (g : Gains) (now : ℚ) : HumanFollower where
  gains := g
  isFollowing := false
  isProcessing := false
  targetFps := 15
  lastPubTime := now

/-- What the calls made for one frame return or raise. -/
structure CameraFrame where
  imdecode : Except PyError (Option ImageSize)
  inference : Except PyError Unit
  boxes : Except PyError (List Box)
  publish : Except PyError Unit
  draw : Except PyError Unit
  debugImage : Except PyError Unit

/-- `follower_toggle_cb`: the response, and the zero twist when disabling;
`human_follower.py:82-98`. -/
def followerToggleCb (n : HumanFollower) (data : Bool) :
    HumanFollower × SetBoolResponse × List (Twist ℚ) :=
  let n := { n with isFollowing := data }
  let state := if n.isFollowing then "ENABLED" else "DISABLED"
  (n, ⟨true, "Visual Servoing Human Follower " ++ state⟩,
    if n.isFollowing then [] else [Twist.zero])

/-- The visual servoing of a frame: the twists published, and whether the block raised
afterwards; `human_follower.py:127-198`. -/
def visualServoing (n : HumanFollower) (size : ImageSize) (frame : CameraFrame) :
    List (Twist ℚ) × Except PyError Unit :=
  if n.isFollowing then
    match frame.boxes with
    | .error e => ([], .error e)
    | .ok boxes =>
      if 0 < boxes.length then
        match bestBox size.width size.height boxes with
        | none => ([], .ok ())
        | some box =>
          match frame.publish with
          | .error e => ([], .error e)
          | .ok () => ([command n.gains size.width size.height box], frame.draw)
      else
        match frame.publish with
        | .error e => ([], .error e)
        | .ok () => ([Twist.zero], .ok ())
  else ([], .ok ())

/-- The `try` block; `human_follower.py:113-206`. -/
def tryBlock (n : HumanFollower) (frame : CameraFrame) :
    List (Twist ℚ) × Except PyError Unit :=
  match frame.imdecode with
  | .error e => ([], .error e)
  | .ok none => ([], .ok ())
  | .ok (some size) =>
    match frame.inference with
    | .error e => ([], .error e)
    | .ok () =>
      match visualServoing n size frame with
      | (sent, .error e) => (sent, .error e)
      | (sent, .ok ()) => (sent, frame.debugImage)

/-- `image_callback`: whatever the block raised is logged, and `finally` lowers the flag;
`human_follower.py:100-212`. -/
def imageCallback (n : HumanFollower) (now : ℚ) (frame : CameraFrame) :
    HumanFollower × List (Twist ℚ) :=
  if n.isProcessing then (n, [])
  else
    let timeDiff := now - n.lastPubTime
    if timeDiff < 1 / n.targetFps then (n, [])
    else
      let n := { n with isProcessing := true, lastPubTime := now }
      let sent := (tryBlock n frame).1
      ({ n with isProcessing := false }, sent)

/-- The frame passes the flag and the throttle. -/
def HumanFollower.Accepts (n : HumanFollower) (now : ℚ) : Prop :=
  n.isProcessing = false ∧ 1 / n.targetFps ≤ now - n.lastPubTime

instance (n : HumanFollower) (now : ℚ) : Decidable (n.Accepts now) := instDecidableAnd

/-- Between callbacks a frame is accepted after the throttle period. -/
theorem HumanFollower.accepts_iff {n : HumanFollower} (hp : n.isProcessing = false)
    (hr : n.targetFps = 15) (now : ℚ) : n.Accepts now ↔ 1 / 15 ≤ now - n.lastPubTime := by
  unfold Accepts
  rw [hr]
  constructor
  · intro ha
    exact ha.2
  · intro hle
    exact ⟨hp, hle⟩

theorem imageCallback_dropped {n : HumanFollower} {now : ℚ} (h : ¬ n.Accepts now)
    (frame : CameraFrame) : imageCallback n now frame = (n, []) := by
  unfold imageCallback
  split
  · rfl
  · next hp =>
    have hlt : now - n.lastPubTime < 1 / n.targetFps := by
      apply not_le.mp
      intro hle
      exact h ⟨Bool.not_eq_true _ ▸ hp, hle⟩
    simp only [if_pos hlt]

/-- An accepted frame moves the throttle, whatever its `try` block did. -/
theorem imageCallback_accepted {n : HumanFollower} {now : ℚ} (h : n.Accepts now)
    (frame : CameraFrame) :
    imageCallback n now frame =
      ({ n with lastPubTime := now },
        (tryBlock { n with isProcessing := true, lastPubTime := now } frame).1) := by
  obtain ⟨hp, hle⟩ := h
  have hlt : ¬ now - n.lastPubTime < 1 / n.targetFps := not_lt.mpr hle
  simp only [imageCallback, hp, if_neg hlt, Bool.false_eq_true, if_false]

theorem imageCallback_state (n : HumanFollower) (now : ℚ) (frame : CameraFrame) :
    (imageCallback n now frame).1 = n ∨
      (imageCallback n now frame).1 = { n with lastPubTime := now } := by
  by_cases h : n.Accepts now
  · rw [imageCallback_accepted h]
    exact .inr rfl
  · rw [imageCallback_dropped h]
    exact .inl rfl

/-- A frame leaves the following flag and the gains alone. -/
theorem imageCallback_frame (n : HumanFollower) (now : ℚ) (frame : CameraFrame) :
    (imageCallback n now frame).1.isFollowing = n.isFollowing ∧
      (imageCallback n now frame).1.isProcessing = n.isProcessing ∧
      (imageCallback n now frame).1.gains = n.gains ∧
      (imageCallback n now frame).1.targetFps = n.targetFps := by
  rcases imageCallback_state n now frame with h | h <;> rw [h] <;> exact ⟨rfl, rfl, rfl, rfl⟩

theorem imageCallback_off {n : HumanFollower} (h : n.isFollowing = false) (now : ℚ)
    (frame : CameraFrame) : (imageCallback n now frame).2 = [] := by
  by_cases ha : n.Accepts now
  · rw [imageCallback_accepted ha]
    unfold tryBlock visualServoing
    simp only [h, Bool.false_eq_true, if_false]
    split
    · rfl
    · rfl
    · split
      · rfl
      · rfl
  · rw [imageCallback_dropped ha]

/-- The frame decodes to an image of this size, inference returns these boxes, and nothing
raises before the command is published. -/
structure CameraFrame.Detects (frame : CameraFrame) (size : ImageSize) (boxes : List Box) :
    Prop where
  imdecode : frame.imdecode = .ok (some size)
  inference : frame.inference = .ok ()
  boxes : frame.boxes = .ok boxes
  publish : frame.publish = .ok ()

/-- The one twist of an accepted frame while following: the command for the tracked box, or
the zero twist when nobody is seen. -/
def frameTwist (g : Gains) (size : ImageSize) (boxes : List Box) : Twist ℚ :=
  match bestBox size.width size.height boxes with
  | some box => command g size.width size.height box
  | none => Twist.zero

/-- An accepted frame that detects publishes exactly its one twist, whatever the drawing and
the debug image do. -/
theorem imageCallback_detects {n : HumanFollower} {now : ℚ} {frame : CameraFrame}
    {size : ImageSize} {boxes : List Box} (hf : n.isFollowing = true) (ha : n.Accepts now)
    (hd : frame.Detects size boxes) :
    (imageCallback n now frame).2 = [frameTwist n.gains size boxes] := by
  rw [imageCallback_accepted ha]
  have hservo : (visualServoing { n with isProcessing := true, lastPubTime := now } size
      frame).1 = [frameTwist n.gains size boxes] := by
    unfold visualServoing frameTwist
    simp only [hf, if_true, hd.boxes, hd.publish]
    by_cases hb : boxes = []
    · subst hb
      rfl
    · obtain ⟨b, -, hbest⟩ := bestBox_mem size.width size.height hb
      simp only [if_pos (List.length_pos_iff.mpr hb), hbest]
  unfold tryBlock
  simp only [hd.imdecode, hd.inference]
  split
  · next sent e h =>
    rw [h] at hservo
    exact hservo
  · next sent h =>
    rw [h] at hservo
    exact hservo

theorem imageCallback_twists {frame : CameraFrame} {size : ImageSize} {boxes : List Box}
    (hd : frame.Detects size boxes) (n : HumanFollower) (now : ℚ) :
    (imageCallback n now frame).2 =
      if n.isFollowing = true ∧ n.Accepts now then [frameTwist n.gains size boxes] else [] := by
  split
  · next h => exact imageCallback_detects h.1 h.2 hd
  · next h =>
    by_cases ha : n.Accepts now
    · have hoff : n.isFollowing = false := by
        apply Bool.eq_false_iff.mpr
        intro hf
        exact h ⟨hf, ha⟩
      exact imageCallback_off hoff now frame
    · rw [imageCallback_dropped ha]

/-- What is published for frames that detect `boxes'` in an image of size `size'` is what is
published for those that detect `boxes` in one of size `size`, passed through `t`: in every
state of the node, at every reading, whatever the drawing and the debug images do. -/
def PublishesAs (t : Twist ℚ → Twist ℚ) (size : ImageSize) (boxes : List Box)
    (size' : ImageSize) (boxes' : List Box) : Prop :=
  ∀ (n : HumanFollower) (now : ℚ) (frame frame' : CameraFrame), frame.Detects size boxes →
    frame'.Detects size' boxes' →
      (imageCallback n now frame').2 = (imageCallback n now frame).2.map t

theorem publishesAs_of_frameTwist {t : Twist ℚ → Twist ℚ} {size size' : ImageSize}
    {boxes boxes' : List Box}
    (h : ∀ g, frameTwist g size' boxes' = t (frameTwist g size boxes)) :
    PublishesAs t size boxes size' boxes' := by
  intro n now frame frame' hd hd'
  rw [imageCallback_twists hd, imageCallback_twists hd', h]
  split
  · rfl
  · rfl

/-- The twist of a frame is the command for its tracked box. -/
theorem frameTwist_of_bestBox {size : ImageSize} {boxes : List Box} {box : Box}
    (h : bestBox size.width size.height boxes = some box) (g : Gains) :
    frameTwist g size boxes = command g size.width size.height box := by
  rw [frameTwist, h]

/-- A service request, or a camera frame with the reading its callback takes. -/
inductive Event where
  | request (data : Bool)
  | frame (now : ℚ) (frame : CameraFrame)

/-- One callback of the node, with the twists it publishes. -/
def HumanFollower.step (n : HumanFollower) : Event → HumanFollower × List (Twist ℚ)
  | .request data => ((followerToggleCb n data).1, (followerToggleCb n data).2.2)
  | .frame now frame => imageCallback n now frame

/-- A run of callbacks, with everything published. -/
abbrev HumanFollower.run : HumanFollower → List Event → HumanFollower × List (Twist ℚ) :=
  Machine.emit step

/-- What the callbacks rely on between each other. -/
structure HumanFollower.Ready (g : Gains) (n : HumanFollower) : Prop where
  gains : n.gains = g
  idle : n.isProcessing = false
  rate : n.targetFps = 15

theorem HumanFollower.Ready.step {g : Gains} {n : HumanFollower} (h : n.Ready g) (e : Event) :
    (n.step e).1.Ready g := by
  cases e with
  | request data => exact ⟨h.gains, h.idle, h.rate⟩
  | frame now frame =>
    obtain ⟨-, hp, hg, hr⟩ := imageCallback_frame n now frame
    exact ⟨hg.trans h.gains, hp.trans h.idle, hr.trans h.rate⟩

/-- Between callbacks no frame is being processed, and the rate is the declared one. -/
theorem HumanFollower.ready_run (g : Gains) (t₀ : ℚ) (evs : List Event) :
    ((init g t₀).run evs).1.Ready g :=
  Machine.emit_invariant (P := Ready g) ⟨rfl, rfl, rfl⟩ (fun _ e h ↦ h.step e) evs

/-- A callback that leaves following off either is a disabling request, which publishes the
zero twist, or finds following off and publishes nothing. -/
theorem HumanFollower.step_off {n : HumanFollower} {e : Event}
    (h : (n.step e).1.isFollowing = false) :
    (n.step e).2 = [Twist.zero] ∨ n.isFollowing = false ∧ (n.step e).2 = [] := by
  cases e with
  | request data =>
    change data = false at h
    subst h
    exact .inl rfl
  | frame now frame =>
    have hoff : n.isFollowing = false := (imageCallback_frame n now frame).1.symm.trans h
    exact .inr ⟨hoff, imageCallback_off hoff now frame⟩

theorem HumanFollower.step_stays_off {n : HumanFollower} {e : Event}
    (h : n.isFollowing = false) (he : e ≠ .request true) :
    (n.step e).1.isFollowing = false := by
  cases e with
  | request data =>
    cases data with
    | true => exact absurd rfl he
    | false => rfl
  | frame now frame => exact (imageCallback_frame n now frame).1.trans h

end MonitoringRobot.Follower
