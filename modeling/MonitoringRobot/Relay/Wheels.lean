import MonitoringRobot.Relay.Pwm

/-!
# What reaches the wheels

The value of one wheel is `map_to_pwm` of its speed, scaled by its trim
(`edge_packages/src/rssi/rssi/velocity_relay.py:55-85`). The mapping is odd and monotone in the
speed, through deadband, truncation and clamp. Above full speed both wheels are clamped to one
value, and a turn is lost. All of this is in exact arithmetic.
-/

namespace MonitoringRobot.Relay
open MonitoringRobot.Base MonitoringRobot.Ros

/-- `left_speed` of a finite twist. -/
def leftWheel (p : Params) (msg : Twist ℚ) : ℚ :=
  msg.linearX - msg.angularZ * p.wheelSeparation * (1 / 2)

/-- `right_speed` of a finite twist. -/
def rightWheel (p : Params) (msg : Twist ℚ) : ℚ :=
  msg.linearX + msg.angularZ * p.wheelSeparation * (1 / 2)

/-- The value of one wheel: `int(self.map_to_pwm(val) * trim)`. -/
def wheel (p : Params) (trim val : ℚ) : ℤ := truncate (pwm p val * trim)

/-- `pwm` of `map_to_pwm` before its sign is restored. -/
def magnitude (p : Params) (val : ℚ) : ℤ :=
  min (truncate (p.minPwm + |val| * (p.maxPwm - p.minPwm))) p.maxPwm

/-- The scaled speed before truncation, cut at `max_pwm`. -/
def level (p : Params) (val : ℚ) : ℚ :=
  min (p.minPwm + |val| * (p.maxPwm - p.minPwm)) p.maxPwm

theorem speed_ranges (val : ℚ) : val ≤ -1 / 100 ∨ |val| < 1 / 100 ∨ 1 / 100 ≤ val := by
  by_cases h : |val| < 1 / 100
  · exact .inr (.inl h)
  · rcases le_abs.mp (not_lt.mp h) with hv | hv
    · exact .inr (.inr hv)
    · exact .inl (by linarith)

theorem pwm_of_le (p : Params) {val : ℚ} (h : 1 / 100 ≤ val) : pwm p val = magnitude p val := by
  have habs : ¬ |val| < 1 / 100 := not_lt.mpr (h.trans (le_abs_self val))
  simp only [pwm, magnitude, if_neg habs, if_pos (show 0 < val by linarith)]

theorem pwm_of_le_neg (p : Params) {val : ℚ} (h : val ≤ -1 / 100) :
    pwm p val = -magnitude p val := by
  have habs : ¬ |val| < 1 / 100 := by
    rw [abs_of_nonpos (by linarith)]
    linarith
  simp only [pwm, magnitude, if_neg habs, if_neg (show ¬ 0 < val by linarith)]

@[simp] theorem magnitude_neg (p : Params) (val : ℚ) : magnitude p (-val) = magnitude p val := by
  simp only [magnitude, abs_neg]

theorem pwm_neg (p : Params) (val : ℚ) : pwm p (-val) = -pwm p val := by
  rcases speed_ranges val with h | h | h
  · rw [pwm_of_le p (by linarith), pwm_of_le_neg p h, magnitude_neg, neg_neg]
  · rw [pwm_of_abs_lt h, pwm_of_abs_lt (by rwa [abs_neg]), neg_zero]
  · rw [pwm_of_le_neg p (by linarith), pwm_of_le p h, magnitude_neg]

theorem magnitude_le (p : Params) (val : ℚ) : magnitude p val ≤ p.maxPwm := min_le_right _ _

/-- A positive integer is within the magnitude exactly when it is within the level. -/
theorem le_magnitude_iff {p : Params} {k : ℤ} (hk : 0 < k) (val : ℚ) :
    k ≤ magnitude p val ↔ (k : ℚ) ≤ level p val := by
  rw [magnitude, level, le_min_iff, le_min_iff, le_truncate_iff hk, Int.cast_le]

theorem minPwm_le_magnitude {p : Params} (hmax : p.minPwm ≤ p.maxPwm) (val : ℚ) :
    p.minPwm ≤ magnitude p val := by
  have hspan : (0 : ℚ) ≤ p.maxPwm - p.minPwm := sub_nonneg.mpr (Int.cast_le.mpr hmax)
  have hprod := mul_nonneg (abs_nonneg val) hspan
  apply le_min
  · exact le_truncate (by linarith)
  · exact hmax

theorem magnitude_mono {p : Params} (hmax : p.minPwm ≤ p.maxPwm) {s t : ℚ} (h : |s| ≤ |t|) :
    magnitude p s ≤ magnitude p t := by
  have hspan : (0 : ℚ) ≤ p.maxPwm - p.minPwm := sub_nonneg.mpr (Int.cast_le.mpr hmax)
  apply min_le_min_right
  apply truncate_mono
  have hprod := mul_le_mul_of_nonneg_right h hspan
  linarith

/-- The mapping is monotone: across the deadband, where it jumps, as well. -/
theorem pwm_mono {p : Params} (hmin : 0 ≤ p.minPwm) (hmax : p.minPwm ≤ p.maxPwm) {s t : ℚ}
    (h : s ≤ t) : pwm p s ≤ pwm p t := by
  have hs := hmin.trans (minPwm_le_magnitude hmax s)
  have ht := hmin.trans (minPwm_le_magnitude hmax t)
  rcases speed_ranges s with hs' | hs' | hs'
  · rw [pwm_of_le_neg p hs']
    rcases speed_ranges t with ht' | ht' | ht'
    · rw [pwm_of_le_neg p ht', neg_le_neg_iff]
      apply magnitude_mono hmax
      rw [abs_of_nonpos (by linarith), abs_of_nonpos (by linarith)]
      linarith
    · rw [pwm_of_abs_lt ht']
      omega
    · rw [pwm_of_le p ht']
      omega
  · rw [pwm_of_abs_lt hs']
    rcases speed_ranges t with ht' | ht' | ht'
    · have hlow := (abs_lt.mp hs').1
      linarith
    · rw [pwm_of_abs_lt ht']
    · rw [pwm_of_le p ht']
      exact ht
  · rw [pwm_of_le p hs', pwm_of_le p (hs'.trans h)]
    apply magnitude_mono hmax
    rw [abs_of_nonneg (by linarith), abs_of_nonneg (by linarith)]
    exact h

theorem wheel_neg (p : Params) (trim val : ℚ) : wheel p trim (-val) = -wheel p trim val := by
  rw [wheel, wheel, pwm_neg, Int.cast_neg, neg_mul, truncate_neg]

theorem wheel_mono {p : Params} (hmin : 0 ≤ p.minPwm) (hmax : p.minPwm ≤ p.maxPwm) {trim : ℚ}
    (htrim : 0 ≤ trim) {s t : ℚ} (h : s ≤ t) : wheel p trim s ≤ wheel p trim t := by
  apply truncate_mono
  exact mul_le_mul_of_nonneg_right (Int.cast_le.mpr (pwm_mono hmin hmax h)) htrim

theorem leftPwm_eq (p : Params) (msg : Twist ℚ) :
    leftPwm p msg = wheel p p.leftTrim (leftWheel p msg) := rfl

theorem rightPwm_eq (p : Params) (msg : Twist ℚ) :
    rightPwm p msg = wheel p p.rightTrim (rightWheel p msg) := rfl

/-- The opposite motion drives the left wheel the other way. -/
@[simp] theorem leftWheel_reverse (p : Params) (msg : Twist ℚ) :
    leftWheel p msg.reverse = -leftWheel p msg := by
  simp only [leftWheel, Twist.reverse]
  ring

/-- The opposite motion drives the right wheel the other way. -/
@[simp] theorem rightWheel_reverse (p : Params) (msg : Twist ℚ) :
    rightWheel p msg.reverse = -rightWheel p msg := by
  simp only [rightWheel, Twist.reverse]
  ring

/-- The opposite turn drives the left wheel as the right one was. -/
@[simp] theorem leftWheel_mirror (p : Params) (msg : Twist ℚ) :
    leftWheel p msg.mirror = rightWheel p msg := by
  simp only [leftWheel, rightWheel, Twist.mirror]
  ring

/-- The opposite turn drives the right wheel as the left one was. -/
@[simp] theorem rightWheel_mirror (p : Params) (msg : Twist ℚ) :
    rightWheel p msg.mirror = leftWheel p msg := by
  simp only [leftWheel, rightWheel, Twist.mirror]
  ring

/-- **Laws of the wheel mapping.** The packet carries the values of the two wheels. Reversing
the twist negates both, with equal trims turning the other way exchanges them, and each is
monotone in the speed and the turn that drive its wheel. -/
theorem wheel_mapping_laws (p : Params) (hsep : 0 ≤ p.wheelSeparation) (hmin : 0 ≤ p.minPwm)
    (hmax : p.minPwm ≤ p.maxPwm) (hl : 0 ≤ p.leftTrim) (hr : 0 ≤ p.rightTrim) :
    (∀ msg, listenerPacket p msg.toFloat = .ok (packet (leftPwm p msg) (rightPwm p msg))) ∧
    (∀ msg, leftPwm p msg.reverse = -leftPwm p msg ∧
      rightPwm p msg.reverse = -rightPwm p msg) ∧
    (p.leftTrim = p.rightTrim → ∀ msg, leftPwm p msg.mirror = rightPwm p msg ∧
      rightPwm p msg.mirror = leftPwm p msg) ∧
    (∀ msg msg', msg.linearX ≤ msg'.linearX → msg'.angularZ ≤ msg.angularZ →
      leftPwm p msg ≤ leftPwm p msg') ∧
    (∀ msg msg', msg.linearX ≤ msg'.linearX → msg.angularZ ≤ msg'.angularZ →
      rightPwm p msg ≤ rightPwm p msg') := by
  refine ⟨listenerPacket_toFloat p, ?_, ?_, ?_, ?_⟩
  · intro msg
    rw [leftPwm_eq, rightPwm_eq, leftWheel_reverse, rightWheel_reverse, wheel_neg, wheel_neg]
    exact ⟨rfl, rfl⟩
  · intro htrim msg
    constructor
    · rw [leftPwm_eq, rightPwm_eq, leftWheel_mirror, htrim]
    · rw [leftPwm_eq, rightPwm_eq, rightWheel_mirror, htrim]
  · intro msg msg' hv hw
    apply wheel_mono hmin hmax hl
    have hprod := mul_le_mul_of_nonneg_right hw hsep
    linarith
  · intro msg msg' hv hw
    apply wheel_mono hmin hmax hr
    have hprod := mul_le_mul_of_nonneg_right hw hsep
    linarith

/-- The shipped relay at half speed with a turn: reversed, mirrored and sped up. -/
theorem wheel_mapping_laws_default :
    leftPwm Params.default (Twist.reverse ⟨1 / 2, 1⟩) = -leftPwm Params.default ⟨1 / 2, 1⟩ ∧
      leftPwm Params.default (Twist.mirror ⟨1 / 2, 1⟩) = rightPwm Params.default ⟨1 / 2, 1⟩ ∧
      rightPwm Params.default ⟨1 / 2, 1⟩ ≤ rightPwm Params.default ⟨3 / 4, 1⟩ := by
  obtain ⟨-, hrev, hmir, -, hmono⟩ := wheel_mapping_laws Params.default (by decide +kernel)
    (by decide) (by decide) (by decide +kernel) (by decide +kernel)
  refine ⟨(hrev _).1, (hmir rfl _).1, ?_⟩
  exact hmono _ _ (by decide +kernel) (le_refl _)

/-- Below full speed a wheel that is a step of the range faster gets a greater magnitude. -/
theorem magnitude_lt {p : Params} (hmin : 0 < p.minPwm) (hlt : p.minPwm < p.maxPwm) {s t : ℚ}
    (hs : |s| < 1) (hstep : 1 / (p.maxPwm - p.minPwm) ≤ |t| - |s|) :
    magnitude p s < magnitude p t := by
  have hspan : (0 : ℚ) < p.maxPwm - p.minPwm := sub_pos.mpr (Int.cast_lt.mpr hlt)
  rw [div_le_iff₀ hspan] at hstep
  have hpos : 0 < magnitude p s := hmin.trans_le (minPwm_le_magnitude hlt.le s)
  have hle : (magnitude p s : ℚ) ≤ p.minPwm + |s| * (p.maxPwm - p.minPwm) :=
    ((le_magnitude_iff hpos s).mp (le_refl _)).trans (min_le_left _ _)
  have hbelow : magnitude p s < p.maxPwm := by
    have hprod := mul_lt_mul_of_pos_right hs hspan
    have hcast : (magnitude p s : ℚ) < p.maxPwm := by linarith
    exact Int.cast_lt.mp hcast
  rw [← Int.add_one_le_iff, le_magnitude_iff (by omega)]
  apply le_min
  · push_cast
    linarith
  · exact Int.cast_le.mpr hbelow

theorem magnitude_of_one_le {p : Params} (hmax : p.minPwm ≤ p.maxPwm) {val : ℚ}
    (h : 1 ≤ |val|) : magnitude p val = p.maxPwm := by
  have hspan : (0 : ℚ) ≤ p.maxPwm - p.minPwm := sub_nonneg.mpr (Int.cast_le.mpr hmax)
  have hprod := mul_le_mul_of_nonneg_right h hspan
  apply min_eq_right
  exact le_truncate (by linarith)

/-- Two wheels whose speeds differ by the width of the deadband and by a step of the range get
different values, unless both go at full speed the same way. -/
theorem pwm_lt_iff {p : Params} (hmin : 0 < p.minPwm) (hlt : p.minPwm < p.maxPwm) {s t : ℚ}
    (hdead : 1 / 50 ≤ t - s) (hstep : 1 / (p.maxPwm - p.minPwm) ≤ t - s) :
    pwm p s < pwm p t ↔ s < 1 ∧ -1 < t := by
  have hs := hmin.trans_le (minPwm_le_magnitude hlt.le s)
  have ht := hmin.trans_le (minPwm_le_magnitude hlt.le t)
  constructor
  · intro h
    constructor
    · by_contra hs'
      rw [pwm_of_le p (by linarith), pwm_of_le p (by linarith),
        magnitude_of_one_le hlt.le ((not_lt.mp hs').trans (le_abs_self s))] at h
      exact absurd (magnitude_le p t) (not_le.mpr h)
    · by_contra ht'
      have hfull : 1 ≤ |t| := by
        rw [abs_of_nonpos (by linarith)]
        linarith
      rw [pwm_of_le_neg p (by linarith), pwm_of_le_neg p (by linarith),
        magnitude_of_one_le hlt.le hfull] at h
      have hle := magnitude_le p s
      omega
  · intro h
    rcases speed_ranges t with ht' | ht' | ht'
    · -- both wheels go backward
      rw [pwm_of_le_neg p ht', pwm_of_le_neg p (by linarith), neg_lt_neg_iff]
      apply magnitude_lt hmin hlt
      · rw [abs_of_nonpos (by linarith)]
        linarith
      · rw [abs_of_nonpos (by linarith), abs_of_nonpos (by linarith)]
        linarith
    · have hhigh := (abs_lt.mp ht').2
      rw [pwm_of_abs_lt ht', pwm_of_le_neg p (by linarith)]
      omega
    · rw [pwm_of_le p ht']
      rcases speed_ranges s with hs' | hs' | hs'
      · rw [pwm_of_le_neg p hs']
        omega
      · rw [pwm_of_abs_lt hs']
        exact ht
      · -- both wheels go forward
        rw [pwm_of_le p hs']
        apply magnitude_lt hmin hlt
        · rw [abs_of_nonneg (by linarith)]
          exact h.1
        · rw [abs_of_nonneg (by linarith), abs_of_nonneg (by linarith)]
          exact hstep

theorem wheel_one (p : Params) (val : ℚ) : wheel p 1 val = pwm p val := by
  rw [wheel, mul_one, truncate_intCast]

/-- Two wheels `d` apart around a common speed get different values, unless both go at full
speed the same way. -/
theorem pwm_turn_iff {p : Params} (hmin : 0 < p.minPwm) (hlt : p.minPwm < p.maxPwm) {v d : ℚ}
    (hdead : 1 / 50 ≤ d) (hstep : 1 / (p.maxPwm - p.minPwm) ≤ d) :
    pwm p (v - d / 2) < pwm p (v + d / 2) ↔ |v| < 1 + d / 2 := by
  have hdiff : v + d / 2 - (v - d / 2) = d := by ring
  rw [pwm_lt_iff hmin hlt (by rwa [hdiff]) (by rwa [hdiff]), abs_lt]
  constructor
  · intro h
    constructor <;> linarith [h.1, h.2]
  · intro h
    constructor <;> linarith [h.1, h.2]

/-- **When a turn reaches the wheels.** With neutral trims, a turn whose wheel speeds differ by
the width of the deadband and by a step of the range gives the outer wheel the greater value,
if and only if the two wheels are not both at full speed or beyond in the same direction. -/
theorem turn_reaches_iff (p : Params) (hmin : 0 < p.minPwm) (hlt : p.minPwm < p.maxPwm)
    (hl : p.leftTrim = 1) (hr : p.rightTrim = 1) (msg : Twist ℚ) :
    listenerPacket p msg.toFloat = .ok (packet (leftPwm p msg) (rightPwm p msg)) ∧
    (1 / 50 ≤ msg.angularZ * p.wheelSeparation →
      1 / (p.maxPwm - p.minPwm) ≤ msg.angularZ * p.wheelSeparation →
      (leftPwm p msg < rightPwm p msg ↔
        |msg.linearX| < 1 + msg.angularZ * p.wheelSeparation / 2)) ∧
    (1 / 50 ≤ -msg.angularZ * p.wheelSeparation →
      1 / (p.maxPwm - p.minPwm) ≤ -msg.angularZ * p.wheelSeparation →
      (rightPwm p msg < leftPwm p msg ↔
        |msg.linearX| < 1 + -msg.angularZ * p.wheelSeparation / 2)) := by
  have hleft : leftPwm p msg = pwm p (leftWheel p msg) := by
    rw [leftPwm_eq, hl, wheel_one]
  have hright : rightPwm p msg = pwm p (rightWheel p msg) := by
    rw [rightPwm_eq, hr, wheel_one]
  refine ⟨listenerPacket_toFloat p msg, ?_, ?_⟩
  · intro hdead hstep
    rw [hleft, hright, ← pwm_turn_iff hmin hlt hdead hstep, leftWheel, rightWheel, mul_one_div]
  · intro hdead hstep
    have hinner : rightWheel p msg = msg.linearX - -msg.angularZ * p.wheelSeparation / 2 := by
      rw [rightWheel]
      ring
    have houter : leftWheel p msg = msg.linearX + -msg.angularZ * p.wheelSeparation / 2 := by
      rw [leftWheel]
      ring
    rw [hleft, hright, ← pwm_turn_iff hmin hlt hdead hstep, hinner, houter]

/-- The shipped relay turns on the spot at one radian a second. -/
theorem turn_reaches_iff_default :
    leftPwm Params.default ⟨0, 1⟩ < rightPwm Params.default ⟨0, 1⟩ := by
  have h := turn_reaches_iff Params.default (by decide) (by decide) rfl rfl ⟨0, 1⟩
  exact (h.2.1 (by decide +kernel) (by decide +kernel)).mpr (by decide +kernel)

/-- At twice full speed both wheels of the shipped relay are clamped to 255, although the turn
exceeds the deadband and a step of the range. -/
theorem turn_lost :
    (1 : ℚ) / 50 ≤ 1 * Params.default.wheelSeparation ∧
      (1 : ℚ) / (Params.default.maxPwm - Params.default.minPwm) ≤
        1 * Params.default.wheelSeparation ∧
      leftPwm Params.default ⟨2, 1⟩ = 255 ∧ rightPwm Params.default ⟨2, 1⟩ = 255 := by
  decide +kernel

end MonitoringRobot.Relay
